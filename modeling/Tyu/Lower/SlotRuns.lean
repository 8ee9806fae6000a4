import Tyu.Backend.View
import Tyu.Lower.Leading
import Tyu.Lower.HopRuns

/-! # Slots that later code leaves alone -/

namespace Tyu.Irgen

open Lib

section Exec

variable {W : World} {kind : OpKind} {m m' : Machine} {ctl : Control}

theorem exec_slots (h : execOp W kind m = .ok (m', ctl)) :
    m'.view.locals = m.view.locals ∨
      ∃ slot ty v, kind = .localSet slot ty ∧ m'.view.locals = m.view.locals.set slot v := by
  have hacts := acts_of_execOp h
  cases kind with
  | localSet slot ty =>
    obtain ⟨⟨v, rest, -, hview⟩, -⟩ := hacts
    exact .inr ⟨slot, ty, v, rfl, by rw [hview]⟩
  | ptrAddConst | notBool | cast | bitcast | load =>
    obtain ⟨⟨a, rest, -, hview⟩, -⟩ := hacts
    exact .inl (by rw [hview]; rfl)
  | ptrAddIndex | addI64 | subI64 | mulI64 | cmp | andBool | orBool | swap =>
    obtain ⟨⟨b, a, rest, -, hview⟩, -⟩ := hacts
    exact .inl (by rw [hview]; rfl)
  | dup | drop =>
    obtain ⟨⟨v, rest, -, hview⟩, -⟩ := hacts
    exact .inl (by rw [hview]; rfl)
  | store =>
    obtain ⟨⟨v, a, rest, -, hview⟩, -⟩ := hacts
    exact .inl (by rw [hview])
  | trapIfFalse | brIf =>
    obtain ⟨v, rest, -, hview, -⟩ := hacts
    exact .inl (by rw [hview]; rfl)
  | call name sig e r b =>
    obtain ⟨args, rest, -, -, hout⟩ := hacts
    split at hout
    · exact .inl (by rw [hout.1]; rfl)
    · exact .inl (by rw [hout.1]; rfl)
  | mmioVolLoad | mmioVolLoadField =>
    rw [execOp] at h
    obtain ⟨-, -, -, -, hsame, -⟩ := of_readTop h
    exact .inl (by rw [Machine.view, hsame.locals]; rfl)
  | mmioVolStore | mmioVolStoreField =>
    simp only [execOp, bind_eq_ok, pure_eq_ok, Prod.exists, Prod.mk.injEq] at h
    obtain ⟨_, _, hpop, _, _, hpop', rfl, -⟩ := h
    have hsame := (Machine.of_pop hpop).2.trans (Machine.of_pop hpop').2
    exact .inl (by rw [Machine.view, hsame.locals]; rfl)
  | _ => exact .inl (by rw [hacts.1]; try rfl)

theorem exec_keeps_slot (h : execOp W kind m = .ok (m', ctl)) {s : Nat}
    (hs : ∀ ty, kind ≠ .localSet s ty) : m'.view.locals[s]? = m.view.locals[s]? := by
  obtain hsame | ⟨slot, ty, v, rfl, hset⟩ := exec_slots h
  · rw [hsame]
  · rw [hset, List.getElem?_set_ne]
    rintro rfl
    exact hs ty rfl

end Exec

/-! ## Code that grows -/

def Gen.Numbered (g : Gen) : Prop := ∀ i b, g.word.blocks.get? i = some b → b.id = ⟨i⟩

/-- Blocks were continued, and blocks opened, by operations that satisfy `P`. -/
def Gen.Appended (P : OpKind → Prop) (g g' : Gen) : Prop :=
  ∀ cur : BlockId, ∃ added, g'.opsAt cur = g.opsAt cur ++ added ∧ ∀ kind ∈ added, P kind

section Growth

variable {Γ : Env} {g g' g'' : Gen} {P : OpKind → Prop} {cur : BlockId} {kind : OpKind} {span : Span}

theorem Gen.Appended.refl (g : Gen) : g.Appended P g :=
  fun _ => ⟨[], (List.append_nil _).symm, fun _ h => absurd h List.not_mem_nil⟩

theorem Gen.Appended.trans (h : g.Appended P g') (h' : g'.Appended P g'') : g.Appended P g'' := by
  intro cur
  obtain ⟨added, hops, hadded⟩ := h cur
  obtain ⟨added', hops', hadded'⟩ := h' cur
  refine ⟨added ++ added', by rw [hops', hops, List.append_assoc], fun kind hk => ?_⟩
  obtain hk | hk := List.mem_append.mp hk
  · exact hadded kind hk
  · exact hadded' kind hk

theorem Gen.Appended.of_blocks (h : g'.word.blocks = g.word.blocks) : g.Appended P g' := by
  intro cur
  have hops : g'.opsAt cur = g.opsAt cur := by rw [Gen.opsAt, h, Gen.opsAt]
  exact ⟨[], by rw [hops, List.append_nil], fun _ h => absurd h List.not_mem_nil⟩

theorem Gen.Numbered.of_blocks (hg : g.Numbered) (h : g'.word.blocks = g.word.blocks) :
    g'.Numbered := by
  unfold Gen.Numbered
  rw [h]
  exact hg

theorem emitOp_opsAt {u : Unit} (h : emitOp Γ cur kind span g = .ok (u, g')) (c : BlockId) :
    g'.opsAt c = if c = cur then g.opsAt c ++ [kind] else g.opsAt c := by
  split
  · next heq =>
    rw [heq]
    exact (emitOp_run h).1
  · next hne =>
    obtain ⟨word, hw, h⟩ := bind_eq_ok.mp h
    cases h
    obtain ⟨b, -, hw⟩ := bind_eq_ok.mp hw
    obtain ⟨ops, -, hw⟩ := bind_eq_ok.mp hw
    cases hw
    have hidx : cur.idx ≠ c.idx := fun heq => hne (by cases c; cases cur; cases heq; rfl)
    show (((g.word.blocks.items.set cur.idx _)[c.idx]?).map _).getD [] = _
    rw [List.getElem?_set_ne hidx]
    rfl

theorem emitOp_appended {u : Unit} (h : emitOp Γ cur kind span g = .ok (u, g')) (hk : P kind) :
    g.Appended P g' := by
  intro c
  rw [emitOp_opsAt h c]
  split
  · exact ⟨[kind], rfl, fun k hmem => by rw [List.mem_singleton.mp hmem]; exact hk⟩
  · exact ⟨[], (List.append_nil _).symm, fun _ h => absurd h List.not_mem_nil⟩

theorem emitOp_numbered {u : Unit} (h : emitOp Γ cur kind span g = .ok (u, g')) (hg : g.Numbered) :
    g'.Numbered := by
  obtain ⟨word, hw, h⟩ := bind_eq_ok.mp h
  cases h
  obtain ⟨b, hb, hw⟩ := bind_eq_ok.mp hw
  obtain ⟨ops, -, hw⟩ := bind_eq_ok.mp hw
  rw [expect_eq_ok] at hb
  cases hw
  intro i b' hb'
  have hb' : (g.word.blocks.items.set cur.idx { b with ops := ops })[i]? = some b' := hb'
  by_cases hi : cur.idx = i
  · subst hi
    have hlt : cur.idx < g.word.blocks.items.length := (List.getElem?_eq_some_iff.mp hb).1
    rw [List.getElem?_set_self hlt] at hb'
    cases hb'
    exact hg _ b hb
  · rw [List.getElem?_set_ne hi] at hb'
    exact hg i b' hb'

theorem addBlock_appended {entry : FixedVec TypeId 32} {id : BlockId}
    (h : addBlock entry g = .ok (id, g')) : g.Appended P g' := by
  intro c
  refine ⟨[], ?_, fun _ h => absurd h List.not_mem_nil⟩
  obtain ⟨-, hitems, -⟩ := addBlock_run h
  show (((g'.word.blocks.items)[c.idx]?).map _).getD [] = _
  rw [hitems, List.append_nil]
  by_cases hlt : c.idx < g.word.blocks.items.length
  · rw [List.getElem?_append_left hlt]
    rfl
  · have hnone : g.opsAt c = [] := by
      show (((g.word.blocks.items)[c.idx]?).map _).getD [] = []
      rw [List.getElem?_eq_none (Nat.le_of_not_lt hlt)]
      rfl
    rw [hnone, List.getElem?_append_right (Nat.le_of_not_lt hlt)]
    cases c.idx - g.word.blocks.items.length <;> rfl

theorem addBlock_numbered {entry : FixedVec TypeId 32} {id : BlockId}
    (h : addBlock entry g = .ok (id, g')) (hg : g.Numbered) : g'.Numbered := by
  obtain ⟨hid, hitems, -⟩ := addBlock_run h
  intro i b hb
  have hb : g'.word.blocks.items[i]? = some b := hb
  rw [hitems] at hb
  by_cases hlt : i < g.word.blocks.items.length
  · rw [List.getElem?_append_left hlt] at hb
    exact hg i b hb
  · rw [List.getElem?_append_right (Nat.le_of_not_lt hlt)] at hb
    have hi : i = g.word.blocks.len := by
      have := (List.getElem?_eq_some_iff.mp hb).1
      rw [List.length_singleton] at this
      unfold FixedVec.len
      omega
    have hzero : i - g.word.blocks.items.length = 0 := by
      rw [hi]
      exact Nat.sub_self _
    rw [hzero] at hb
    cases hb
    rw [hid, hi]

end Growth

/-! ## Slots of names -/

/-- The operation sets no slot from `lo` up to `hi`, and jumps to blocks from number `nb` on. -/
structure Spares (lo hi nb : Nat) (kind : OpKind) : Prop where
  slot : ∀ s ty, kind = .localSet s ty → s < lo ∨ hi ≤ s
  jump : ∀ t ∈ kind.targets, nb ≤ t.idx

def Gen.namesEnd (g : Gen) : Nat := g.sig.inputs.len + g.locals.length

/-- What holds of a state that lowering comes to from `g`: names keep their numbers, and the
code added spares the slots of the names that `g` has. -/
structure Gen.After (g g' : Gen) : Prop where
  sig : g'.sig = g.sig
  names : ∃ more, g'.locals.map LocalVar.name = g.locals.map LocalVar.name ++ more
  room : g'.locals.length ≤ 64
  numbered : g.Numbered → g'.Numbered
  code : g.Appended (Spares g.sig.inputs.len g.namesEnd g.word.blocks.len) g'

section Names

variable {Γ : Env} {g t g' : Gen}

theorem Gen.After.length_le (h : g.After g') : g.locals.length ≤ g'.locals.length := by
  obtain ⟨more, hnames⟩ := h.names
  have hlen := congrArg List.length hnames
  rw [List.length_append, List.length_map, List.length_map] at hlen
  omega

theorem localSlot_eq (g : Gen) {i : Nat} (h : i ≤ 64) : localSlot g i = g.sig.inputs.len + i := by
  have hbound : g.sig.inputs.len ≤ 8 := g.sig.inputs.bounded
  unfold localSlot
  omega

theorem tempBaseSlot_eq (g : Gen) (h : g.locals.length ≤ 64) :
    tempBaseSlot g = g.namesEnd + 1 := by
  have hbound : g.sig.inputs.len ≤ 8 := g.sig.inputs.bounded
  unfold tempBaseSlot Gen.namesEnd
  omega

theorem Gen.After.namesEnd_le (h : g.After g') : g.namesEnd ≤ g'.namesEnd := by
  have := h.length_le
  unfold Gen.namesEnd
  rw [h.sig]
  omega

theorem Gen.After.of_names (h : g.After t) (hsig : g'.sig = t.sig)
    (hnames : g'.locals.map LocalVar.name = t.locals.map LocalVar.name)
    (hnumbered : t.Numbered → g'.Numbered)
    (hcode : t.Appended (Spares g.sig.inputs.len g.namesEnd g.word.blocks.len) g') :
    g.After g' where
  sig := hsig.trans h.sig
  names := by
    rw [hnames]
    exact h.names
  room := by
    have hlen := congrArg List.length hnames
    rw [List.length_map, List.length_map] at hlen
    rw [hlen]
    exact h.room
  numbered hg := hnumbered (h.numbered hg)
  code := h.code.trans hcode

theorem Gen.After.emit (h : g.After t) {cur : BlockId} {kind : OpKind} {span : Span} {u : Unit}
    (hk : Spares g.sig.inputs.len g.namesEnd g.word.blocks.len kind)
    (run : emitOp Γ cur kind span t = .ok (u, g')) : g.After g' := by
  obtain ⟨-, hlocals, hsig, -⟩ := emitOp_blocks run
  exact h.of_names hsig (by rw [hlocals]) (emitOp_numbered run) (emitOp_appended run hk)

theorem Gen.After.same (h : g.After t) (same : t.SameCode g') : g.After g' :=
  h.of_names same.sig (by rw [same.locals]) (fun ht => ht.of_blocks same.blocks)
    (.of_blocks same.blocks)

theorem spares_of_straight {lo hi nb : Nat} {kind : OpKind} (hset : ∀ s ty, kind ≠ .localSet s ty)
    (hjump : kind.targets = []) : Spares lo hi nb kind :=
  ⟨fun s ty h => absurd h (hset s ty), fun t ht => by rw [hjump] at ht; cases ht⟩

theorem spares_set {lo hi nb s : Nat} {ty : TypeId} (h : s < lo ∨ hi ≤ s) :
    Spares lo hi nb (.localSet s ty) :=
  ⟨fun s' ty' heq => by cases heq; exact h, fun t ht => absurd ht List.not_mem_nil⟩

theorem Gen.CodeStep.after (hstep : Gen.CodeStep Γ g.word.blocks.len t g') (h : g.After t) :
    g.After g' := by
  cases hstep with
  | note same => exact h.same same
  | block run =>
    obtain ⟨-, -, hlocals, hsig, -⟩ := addBlock_run run
    exact h.of_names hsig (by rw [hlocals]) (addBlock_numbered run) (addBlock_appended run)
  | @plain _ _ kind _ hk run =>
    refine h.emit (spares_of_straight ?_ ?_) run
    · rintro s ty rfl
      cases hk
    · cases kind <;> first | rfl | cases hk
  | @jump _ _ kind _ hk fresh run =>
    refine h.emit ⟨?_, fresh⟩ run
    rintro s ty rfl
    exact absurd rfl hk
  | call known run => exact h.emit (spares_of_straight (by intro _ _ h; cases h) rfl) run
  | param hslot run =>
    rw [h.sig] at hslot
    exact h.emit (spares_set (.inl hslot)) run
  | temp hslot run =>
    rw [tempBaseSlot_eq t h.room] at hslot
    have := h.namesEnd_le
    exact h.emit (spares_set (.inr (by omega))) run
  | @bind _ _ _ l _ _ hroom _ added run =>
    obtain ⟨-, hlocals, hsig, -⟩ := emitOp_blocks run
    have hlocals : g'.locals = t.locals ++ [l] := hlocals.trans added.locals
    have hsig : g'.sig = t.sig := hsig.trans added.sig
    have hslot := h.namesEnd_le
    rw [Gen.namesEnd, Gen.namesEnd, h.sig] at hslot
    refine ⟨hsig.trans h.sig, ?_, ?_, fun hg => ?_, h.code.trans ?_⟩
    · obtain ⟨more, hnames⟩ := h.names
      refine ⟨more ++ [l.name], ?_⟩
      rw [hlocals, List.map_append, hnames, List.append_assoc]
      rfl
    · rw [hlocals, List.length_append]
      exact hroom
    · exact emitOp_numbered run ((h.numbered hg).of_blocks added.blocks)
    · refine (Gen.Appended.of_blocks added.blocks).trans (emitOp_appended run (spares_set (.inr ?_)))
      rw [localSlot_eq t (Nat.le_of_lt hroom), h.sig]
      exact hslot
  | @use _ _ _ i l _ _ found live spent run =>
    obtain ⟨-, hlocals, hsig, -⟩ := emitOp_blocks run
    refine h.of_names (hsig.trans spent.sig) ?_ (fun ht => emitOp_numbered run
      (ht.of_blocks spent.blocks)) ?_
    · rw [hlocals, spent.locals]
      have hname : (l.afterUse Γ).name = l.name := by
        unfold LocalVar.afterUse
        split <;> rfl
      show (t.locals.set i (l.afterUse Γ)).map LocalVar.name = _
      rw [List.map_set, hname]
      obtain ⟨hi, rfl⟩ := List.getElem?_eq_some_iff.mp found
      rw [← List.getElem_map LocalVar.name (h := by rwa [List.length_map])]
      exact List.set_getElem_self _
    · exact (Gen.Appended.of_blocks spent.blocks).trans
        (emitOp_appended run (spares_of_straight (by intro _ _ h; cases h) rfl))
  | @endScope _ scope _ run =>
    cases run
    refine h.of_names rfl ?_ id (.of_blocks rfl)
    show (t.locals.map _).map LocalVar.name = _
    rw [List.map_map]
    refine List.map_congr_left fun l _ => ?_
    show LocalVar.name (if l.scope = scope then _ else l) = l.name
    split <;> rfl
  | @enter _ _ _ kind run =>
    obtain ⟨-, -, -, -, -, -, -, -, -, -, hcallee, -, -, t', span, hblocks, hlocals, hsig, -,
      hemit⟩ := run.run
    have hafter : g.After t' := h.of_names hsig (by rw [hlocals])
      (fun ht => ht.of_blocks hblocks.symm) (.of_blocks hblocks.symm)
    refine hafter.emit (spares_of_straight ?_ ?_) hemit
    · rintro s ty rfl
      cases hcallee
    · cases kind <;> first | rfl | cases hcallee

theorem Gen.After.refl (hroom : g.locals.length ≤ 64) : g.After g :=
  ⟨rfl, ⟨[], (List.append_nil _).symm⟩, hroom, id, .refl g⟩

theorem Gen.After.steps (h : g.After t)
    (hsteps : Relation.ReflTransGen (Gen.CodeStep Γ g.word.blocks.len) t g') : g.After g' := by
  induction hsteps with
  | refl => exact h
  | tail _ hstep ih => exact hstep.after ih

theorem Gen.After.findLocal (h : g.After g') {name : Atom} {i : Nat}
    (hi : findLocal g name = some i) : findLocal g' name = some i := by
  have key : ∀ t : Gen, Irgen.findLocal t name =
      (t.locals.map LocalVar.name).findIdx? (fun n => n == name) := by
    intro t
    rw [List.findIdx?_map]
    rfl
  obtain ⟨more, hnames⟩ := h.names
  rw [key] at hi ⊢
  rw [hnames, List.findIdx?_append, hi]
  rfl

end Names

def CodeRun (W : World) (w : Word) : Config → Config → Prop :=
  Relation.ReflTransGen fun c c' => wordStep W w c = .running c'

/-- A point of a run behind the code of `g`, whose current block was `cur`. -/
def Gen.Behind (g : Gen) (cur : BlockId) (c : Config) : Prop :=
  (c.block = cur ∧ (g.opsAt cur).length ≤ c.pc) ∨ g.word.blocks.len ≤ c.block.idx

section Run

variable {g g' : Gen} {W : World} {cur : BlockId} {c c' : Config}

theorem currentOp_opsAt (hg : g.Numbered) {op : Op} (h : currentOp g.word c = some op) :
    (g.opsAt c.block)[c.pc]? = some op.kind := by
  obtain ⟨b, hb, hop⟩ := Option.bind_eq_some_iff.mp h
  have hmem := List.mem_of_find?_eq_some hb
  have hid := List.find?_some hb
  obtain ⟨i, hi⟩ := List.mem_iff_getElem?.mp hmem
  have hid : b.id = c.block := eq_of_beq hid
  rw [hg i b hi] at hid
  have hget : g.word.blocks.get? c.block.idx = some b := by
    rw [← hid]
    exact hi
  rw [Gen.opsAt, hget]
  show (b.ops.items.map Op.kind)[c.pc]? = _
  rw [List.getElem?_map, hop]
  rfl

theorem opsAt_none (h : g.word.blocks.len ≤ cur.idx) : g.opsAt cur = [] := by
  rw [Gen.opsAt, FixedVec.get?, List.getElem?_eq_none h]
  rfl

theorem Gen.Behind.op_added {P : OpKind → Prop} (h : g.Behind cur c) (happ : g.Appended P g')
    {kind : OpKind} (hop : (g'.opsAt c.block)[c.pc]? = some kind) : P kind := by
  obtain ⟨added, hops, hadded⟩ := happ c.block
  rw [hops] at hop
  have hle : (g.opsAt c.block).length ≤ c.pc := by
    obtain ⟨rfl, hle⟩ | hnew := h
    · exact hle
    · rw [opsAt_none hnew]
      exact Nat.zero_le _
  rw [List.getElem?_append_right hle] at hop
  exact hadded kind (List.mem_of_getElem? hop)

/-- A run that is behind the code of `g` stays there, and keeps the slots of the names that
`g` has. -/
theorem Gen.After.run_keeps (h : g.After g') (hg : g.Numbered) (hbehind : g.Behind cur c)
    (hrun : CodeRun W g'.word c c') :
    g.Behind cur c' ∧ ∀ s, g.sig.inputs.len ≤ s → s < g.namesEnd →
      c'.machine.view.locals[s]? = c.machine.view.locals[s]? := by
  induction hrun with
  | refl => exact ⟨hbehind, fun _ _ _ => rfl⟩
  | @tail c₁ c₂ _ hstep ih =>
    obtain ⟨hbehind₁, hkeeps⟩ := ih
    obtain ⟨op, m, ctl, hop, hexec, hfollow⟩ := wordStep_eq_running.mp hstep
    have hspares := hbehind₁.op_added h.code (currentOp_opsAt (h.numbered hg) hop)
    have hslots : ∀ s, g.sig.inputs.len ≤ s → s < g.namesEnd →
        m.view.locals[s]? = c₁.machine.view.locals[s]? := by
      intro s hlo hhi
      refine exec_keeps_slot hexec fun ty heq => ?_
      have := hspares.slot s ty heq
      omega
    obtain ⟨rfl, rfl⟩ | ⟨tgt, rfl, rfl⟩ := follow_eq_running.mp hfollow
    · refine ⟨?_, fun s hlo hhi => (hslots s hlo hhi).trans (hkeeps s hlo hhi)⟩
      obtain ⟨hblock, hle⟩ | hnew := hbehind₁
      · exact .inl ⟨hblock, Nat.le_succ_of_le hle⟩
      · exact .inr hnew
    · refine ⟨.inr (hspares.jump tgt (execOp_leaves hexec)), fun s hlo hhi => ?_⟩
      rw [view_forget, view_tick]
      exact (hslots s hlo hhi).trans (hkeeps s hlo hhi)

end Run

end Tyu.Irgen

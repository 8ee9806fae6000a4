import Tyu.Lower.QuoteNames

/-!
# One use of a linear local

The use of an iso value or of an exclusive borrow consumes the local: a flag is cleared, and a
local whose flag is cleared cannot be used.
-/

namespace Tyu.Irgen

open Lib

structure CodeSpot where
  block : BlockId
  pc : Nat
deriving DecidableEq

def Gen.nextSpot (g : Gen) (cur : BlockId) : CodeSpot := ⟨cur, (g.opsAt cur).length⟩

def LocalVar.isLinear (Γ : Env) (l : LocalVar) : Bool :=
  (l.ty == AT_PTR_MUT && l.place != PLACE_NONE) || Γ.isIso l.ty

/-- Operations that bind a local, or use a linear one, with the number of the local. -/
inductive LocalMark where
  | bind (spot : CodeSpot) (idx : Nat)
  | consume (spot : CodeSpot) (idx : Nat)

inductive Gen.Marked (Γ : Env) : Gen → Option LocalMark → Gen → Prop
  | bind {g t g' : Gen} {cur : BlockId} {l : LocalVar} {ty : TypeId} {span : Span}
      (hroom : g.locals.length < 64) (fresh : l.live = true)
      (added : Gen.SameCode { g with locals := g.locals ++ [l] } t)
      (run : emitOp Γ cur (.localSet (localSlot g g.locals.length) ty) span t = .ok ((), g')) :
      Marked Γ g (some (.bind (g.nextSpot cur) g.locals.length)) g'
  | consume {g t g' : Gen} {cur : BlockId} {i : Nat} {l : LocalVar} {ty : TypeId} {span : Span}
      (found : g.locals[i]? = some l) (live : l.live = true) (linear : l.isLinear Γ = true)
      (spent : Gen.SameCode { g with locals := g.locals.set i (l.afterUse Γ) } t)
      (run : emitOp Γ cur (.localGet (localSlot g i) ty) span t = .ok ((), g')) :
      Marked Γ g (some (.consume (g.nextSpot cur) i)) g'
  | rest {g g' : Gen} (step : Gen.CodeStep Γ 0 g g')
      (same : g'.locals.map LocalVar.live = g.locals.map LocalVar.live) : Marked Γ g none g'

/-- The lowering from one state to another, with the marks of its steps in order. -/
inductive Gen.Trace (Γ : Env) (first : Gen) : List LocalMark → Gen → Prop
  | refl : Trace Γ first [] first
  | tail {ms : List LocalMark} {m : Option LocalMark} {g g' : Gen} (before : Gen.Trace Γ first ms g)
      (step : Gen.Marked Γ g m g') : Trace Γ first (ms ++ m.toList) g'

def spotOf (c : Config) : CodeSpot := ⟨c.block, c.pc⟩

def RunBeside (W : World) (w : Word) (spot : CodeSpot) : Config → Config → Prop :=
  Relation.ReflTransGen fun c c' => spotOf c ≠ spot ∧ wordStep W w c = .running c'

/-- Each binding of a linear local is consumed at most once: a run that has executed a use comes
to no use of the local before it executes the binding again. -/
def ConsumedOnce (w : Word) (ms : List LocalMark) : Prop :=
  ∀ {bound used again idx}, .bind bound idx ∈ ms → .consume used idx ∈ ms →
    .consume again idx ∈ ms → ∀ {W c c₁ c₂}, spotOf c = used → wordStep W w c = .running c₁ →
      RunBeside W w bound c₁ c₂ → spotOf c₂ ≠ again

/-- Control may pass from one spot to the next: behind the operation, or to a target of it. -/
def Flow (w : Word) (s s' : CodeSpot) : Prop :=
  ∃ kind, (codeAt w s.block)[s.pc]? = some kind ∧
    ((kind.targets = [] ∧ kind ≠ .ret ∧ s' = ⟨s.block, s.pc + 1⟩) ∨
      ∃ t ∈ kind.targets, s' = ⟨t, 0⟩)

/-- A jump back, to a block that is not behind the one it leaves: the header of a loop. -/
def JumpsBack (w : Word) (s header : CodeSpot) : Prop :=
  Flow w s header ∧ header.pc = 0 ∧ header.block.idx ≤ s.block.idx

/-- Within a loop the ways from its header to the use of a linear local pass the local's
binding. -/
def ReboundInLoops (w : Word) (ms : List LocalMark) : Prop :=
  ∀ {bound used idx}, .bind bound idx ∈ ms → .consume used idx ∈ ms →
    ∀ {s header}, Relation.ReflTransGen (Flow w) used s → JumpsBack w s header →
      ¬Relation.ReflTransGen (fun s s' => s ≠ bound ∧ Flow w s s') header used

section Returning

variable {α β : Type} {r : α → α → Prop} {P : α → Prop} [Preorder β] {a b c : α}

theorem rises_or_falls (rank : α → β) (hab : r a b)
    (h : Relation.ReflTransGen (fun x y => P x ∧ r x y) b c) :
    rank a < rank c ∨ ∃ p q, Relation.ReflTransGen r a p ∧ r p q ∧ ¬rank p < rank q ∧
      Relation.ReflTransGen (fun x y => P x ∧ r x y) q c := by
  induction h with
  | refl =>
    by_cases hlt : rank a < rank b
    · exact .inl hlt
    · exact .inr ⟨a, b, .refl, hab, hlt, .refl⟩
  | @tail x y hbx hxy ih =>
    obtain hlt | ⟨p, q, hap, hpq, hfall, hqx⟩ := ih
    · by_cases hxy' : rank x < rank y
      · exact .inl (hlt.trans hxy')
      · have hax : Relation.ReflTransGen r a x :=
          .head hab (Relation.ReflTransGen.mono (fun _ _ hstep => hstep.2) _ _ hbx)
        exact .inr ⟨x, y, hax, hxy.2, hxy', .refl⟩
    · exact .inr ⟨p, q, hap, hpq, hfall, hqx.tail hxy⟩

end Returning

section Ways

variable {Γ : Env} {W : World} {g : Gen} {w : Word} {s s' bound : CodeSpot} {c c' : Config}

def CodeSpot.rank (s : CodeSpot) : ℕ ×ₗ ℕ := toLex (s.block.idx, s.pc)

theorem Flow.jumpsBack (h : Flow w s s') (hfall : ¬s.rank < s'.rank) : JumpsBack w s s' := by
  refine ⟨h, ?_⟩
  unfold CodeSpot.rank at hfall
  rw [Prod.Lex.toLex_lt_toLex] at hfall
  obtain ⟨kind, -, ⟨-, -, rfl⟩ | ⟨t, -, rfl⟩⟩ := h
  · exact absurd (.inr ⟨rfl, Nat.lt_succ_self _⟩) hfall
  · exact ⟨rfl, Nat.le_of_not_lt fun hlt => hfall (.inl hlt)⟩

theorem straight_of_next {kind : OpKind} {m m' : Machine} (h : execOp W kind m = .ok (m', .next)) :
    kind.targets = [] ∧ kind ≠ .ret := by
  have hacts := acts_of_execOp h
  cases kind with
  | br target => cases hacts.2
  | brIf thenTgt elseTgt =>
    obtain ⟨_, _, _, _, hctl⟩ := hacts
    cases hctl
  | ret => cases hacts.2
  | _ => exact ⟨rfl, OpKind.noConfusion⟩

theorem flow_of_step (hg : g.Numbered) (h : wordStep W g.word c = .running c') :
    Flow g.word (spotOf c) (spotOf c') := by
  obtain ⟨op, m, ctl, hop, hexec, hfollow⟩ := wordStep_eq_running.mp h
  refine ⟨op.kind, currentOp_opsAt hg hop, ?_⟩
  obtain ⟨rfl, rfl⟩ | ⟨t, rfl, rfl⟩ := follow_eq_running.mp hfollow
  · obtain ⟨htargets, hret⟩ := straight_of_next hexec
    exact .inl ⟨htargets, hret, rfl⟩
  · exact .inr ⟨t, execOp_leaves hexec, rfl⟩

end Ways

/-! ## One use in the code -/

section Marks

variable {Γ : Env} {first last g g' : Gen} {ms : List LocalMark} {m : Option LocalMark}
  {spot again : CodeSpot} {i : Nat}

def Gen.Dead (g : Gen) (i : Nat) : Prop := (g.locals.map LocalVar.live)[i]? = some false

theorem afterUse_dead {l : LocalVar} (h : l.isLinear Γ = true) : (l.afterUse Γ).live = false := by
  have h : ((l.ty == AT_PTR_MUT && l.place != PLACE_NONE) || Γ.isIso l.ty) = true := h
  unfold LocalVar.afterUse
  rw [if_pos h]

theorem Gen.Marked.live (h : Gen.Marked Γ g m g') :
    (∃ spot, m = some (.bind spot g.locals.length) ∧
      g'.locals.map LocalVar.live = g.locals.map LocalVar.live ++ [true]) ∨
    (∃ spot i, m = some (.consume spot i) ∧ (g.locals.map LocalVar.live)[i]? = some true ∧
      g'.locals.map LocalVar.live = (g.locals.map LocalVar.live).set i false) ∨
    m = none ∧ g'.locals.map LocalVar.live = g.locals.map LocalVar.live := by
  cases h with
  | bind hroom fresh added run =>
    refine .inl ⟨_, rfl, ?_⟩
    rw [(emitOp_blocks run).2.1, added.locals, List.map_append, List.map_singleton, fresh]
  | consume found live linear spent run =>
    refine .inr (.inl ⟨_, _, rfl, by rw [List.getElem?_map, found, Option.map_some, live], ?_⟩)
    rw [(emitOp_blocks run).2.1, spent.locals]
    show (g.locals.set _ _).map LocalVar.live = _
    rw [List.map_set, afterUse_dead linear]
  | rest step same => exact .inr (.inr ⟨rfl, same⟩)

theorem Gen.Marked.keeps_dead (h : Gen.Marked Γ g m g') (hdead : g.Dead i) : g'.Dead i := by
  unfold Gen.Dead at hdead ⊢
  obtain ⟨spot, -, hlive⟩ | ⟨spot, j, -, htrue, hlive⟩ | ⟨-, hlive⟩ := h.live
  · rw [hlive, List.getElem?_append_left (List.getElem?_eq_some_iff.mp hdead).1]
    exact hdead
  · have hne : j ≠ i := by
      rintro rfl
      rw [htrue] at hdead
      cases hdead
    rw [hlive, List.getElem?_set_ne hne]
    exact hdead
  · rw [hlive]
    exact hdead

theorem Gen.Trace.dead_of_consumed (h : Gen.Trace Γ first ms last) (hm : .consume spot i ∈ ms) :
    last.Dead i := by
  induction h with
  | refl => cases hm
  | tail before step ih =>
    obtain hm | hm := List.mem_append.mp hm
    · exact step.keeps_dead (ih hm)
    · obtain ⟨_, rfl, -⟩ | ⟨spot', j, rfl, htrue, hlive⟩ | ⟨rfl, -⟩ := step.live
      · cases List.mem_singleton.mp hm
      · cases List.mem_singleton.mp hm
        unfold Gen.Dead
        rw [hlive, List.getElem?_set_self (List.getElem?_eq_some_iff.mp htrue).1]
      · cases hm

theorem Gen.Trace.used_once (h : Gen.Trace Γ first ms last) (hm : .consume spot i ∈ ms)
    (hm' : .consume again i ∈ ms) : spot = again := by
  induction h with
  | refl => cases hm
  | @tail ms m g g' before step ih =>
    have hnew : ∀ {old new : CodeSpot}, .consume old i ∈ ms → .consume new i ∉ m.toList := by
      intro old new hold hnew
      have hdead := before.dead_of_consumed hold
      obtain ⟨_, rfl, -⟩ | ⟨spot', j, rfl, htrue, -⟩ | ⟨rfl, -⟩ := step.live
      · cases List.mem_singleton.mp hnew
      · cases List.mem_singleton.mp hnew
        unfold Gen.Dead at hdead
        rw [hdead] at htrue
        cases htrue
      · cases hnew
    obtain hm | hm := List.mem_append.mp hm <;> obtain hm' | hm' := List.mem_append.mp hm'
    · exact ih hm hm'
    · exact absurd hm' (hnew hm)
    · exact absurd hm (hnew hm')
    · cases m with
      | none => cases hm
      | some m =>
        have heq := (List.mem_singleton.mp hm).trans (List.mem_singleton.mp hm').symm
        cases heq
        rfl

theorem marked_of_same (h : Gen.CodeStep Γ 0 g g') (hlocals : g'.locals = g.locals) :
    Gen.Marked Γ g none g' := .rest h (by rw [hlocals])

theorem exists_marked (h : Gen.CodeStep Γ 0 g g') : ∃ m, Gen.Marked Γ g m g' := by
  cases h with
  | note same => exact ⟨none, marked_of_same (.note same) same.locals⟩
  | block run => exact ⟨none, marked_of_same (.block run) (addBlock_run run).2.2.1⟩
  | plain hk run => exact ⟨none, marked_of_same (.plain hk run) (emitOp_blocks run).2.1⟩
  | jump hk fresh run =>
    exact ⟨none, marked_of_same (.jump hk fresh run) (emitOp_blocks run).2.1⟩
  | call known run => exact ⟨none, marked_of_same (.call known run) (emitOp_blocks run).2.1⟩
  | param hslot run => exact ⟨none, marked_of_same (.param hslot run) (emitOp_blocks run).2.1⟩
  | temp hslot run => exact ⟨none, marked_of_same (.temp hslot run) (emitOp_blocks run).2.1⟩
  | bind hroom fresh added run => exact ⟨_, .bind hroom fresh added run⟩
  | @use _ _ _ i l _ _ found live spent run =>
    by_cases hlinear : l.isLinear Γ = true
    · exact ⟨_, .consume found live hlinear spent run⟩
    · have hstays : l.afterUse Γ = l := by
        have hlinear : ¬((l.ty == AT_PTR_MUT && l.place != PLACE_NONE) || Γ.isIso l.ty) = true :=
          hlinear
        unfold LocalVar.afterUse
        rw [if_neg hlinear]
      refine ⟨none, marked_of_same (.use found live spent run) ?_⟩
      rw [(emitOp_blocks run).2.1, spent.locals]
      show g.locals.set i (l.afterUse Γ) = g.locals
      obtain ⟨hi, rfl⟩ := List.getElem?_eq_some_iff.mp found
      rw [hstays]
      exact List.set_getElem_self hi
  | @endScope _ scope closed run =>
    refine ⟨none, .rest (.endScope closed run) ?_⟩
    cases run
    show (g.locals.map _).map LocalVar.live = _
    rw [List.map_map]
    refine List.map_congr_left fun l hl => ?_
    have hdead : ∀ l ∈ g.locals, ¬(l.scope = scope ∧ l.live = true) := by
      have hclosed := (Bool.or_eq_false_iff.mp closed).2
      simpa [List.any_eq_false] using hclosed
    show LocalVar.live (if l.scope = scope then _ else l) = l.live
    split
    · next heq => exact (Bool.eq_false_iff.mpr fun hlive => hdead l hl ⟨heq, hlive⟩).symm
    · rfl
  | enter run =>
    refine ⟨none, marked_of_same (.enter run) ?_⟩
    obtain ⟨-, -, -, -, -, -, -, -, -, -, -, -, -, t, span, -, hlocals, -, -, hemit⟩ := run.run
    exact (emitOp_blocks hemit).2.1.trans hlocals

theorem exists_trace (h : Relation.ReflTransGen (Gen.CodeStep Γ 0) first last) :
    ∃ ms, Gen.Trace Γ first ms last := by
  induction h with
  | refl => exact ⟨[], .refl⟩
  | tail _ hstep ih =>
    obtain ⟨ms, htrace⟩ := ih
    obtain ⟨m, hmarked⟩ := exists_marked hstep
    exact ⟨ms ++ m.toList, htrace.tail hmarked⟩

end Marks

theorem LowersTo.numbered {Γ : Env} {w : Word} {first last : Gen} (h : LowersTo Γ w first last)
    (hroom : first.locals.length ≤ 64) : last.Numbered := by
  have hlen : first.word.blocks.len = 0 := by rw [h.fresh.blocks]; rfl
  have hafter : first.After last := (Gen.After.refl hroom).steps (hlen ▸ h.steps)
  refine hafter.numbered fun i b hb => ?_
  rw [h.fresh.blocks] at hb
  cases hb

/-- In the run of a lowered word each binding of a linear local is consumed at most once, if the
ways from the header of a loop to a use in the loop pass the binding. -/
theorem linear_consumed_once {Γ : Env} {fuel : Nat} {lws : List LoweredWord} {w : Word}
    {first last : Gen} {ms : List LocalMark} (h : EmittedRun Γ fuel lws w first last)
    (htrace : Gen.Trace Γ first ms last) (hloops : ReboundInLoops w ms) : ConsumedOnce w ms := by
  intro bound used again idx hbound hused hagain W c c₁ c₂ hc hstep hrun heq
  obtain rfl := htrace.used_once hused hagain
  have hlowers := h.lowers
  obtain rfl := hlowers.word
  have hnumbered : last.Numbered :=
    hlowers.numbered (by rw [hlowers.fresh.locals]; exact Nat.zero_le _)
  have hflow : ∀ {c c' : Config}, wordStep W last.word c = .running c' →
      Flow last.word (spotOf c) (spotOf c') := fun hstep => flow_of_step hnumbered hstep
  have hways : Relation.ReflTransGen (fun s s' => s ≠ bound ∧ Flow last.word s s')
      (spotOf c₁) (spotOf c₂) :=
    hrun.lift spotOf fun _ _ hstep => ⟨hstep.1, hflow hstep.2⟩
  obtain hlt | ⟨s, header, hleads, hflow', hfall, hback⟩ :=
    rises_or_falls CodeSpot.rank (hflow hstep) hways
  · rw [hc, heq] at hlt
    exact lt_irrefl _ hlt
  · rw [hc] at hleads
    rw [heq] at hback
    exact hloops hbound hused hleads (hflow'.jumpsBack hfall) hback

/-! ## What has a mark -/

section Found

variable {Γ : Env} {first last g g' : Gen} {ms : List LocalMark} {m : Option LocalMark}
  {spot : CodeSpot} {i : Nat}

theorem Gen.Marked.step (h : Gen.Marked Γ g m g') : Gen.CodeStep Γ 0 g g' := by
  cases h with
  | bind hroom fresh added run => exact .bind hroom fresh added run
  | consume found live linear spent run => exact .use found live spent run
  | rest step same => exact step

theorem Gen.Trace.steps (h : Gen.Trace Γ first ms last) :
    Relation.ReflTransGen (Gen.CodeStep Γ 0) first last := by
  induction h with
  | refl => exact .refl
  | tail before step ih => exact ih.tail step.step

theorem Gen.Trace.consumed_of_dead (h : Gen.Trace Γ first ms last) (hfirst : first.locals = [])
    (hdead : last.Dead i) : ∃ spot, .consume spot i ∈ ms := by
  induction h with
  | refl =>
    unfold Gen.Dead at hdead
    rw [hfirst] at hdead
    cases hdead
  | @tail ms m g g' before step ih =>
    have hold : g.Dead i → ∃ spot, .consume spot i ∈ ms ++ m.toList := by
      intro hold
      obtain ⟨spot, hspot⟩ := ih hold
      exact ⟨spot, List.mem_append_left _ hspot⟩
    unfold Gen.Dead at hdead
    obtain ⟨spot, -, hlive⟩ | ⟨spot, j, rfl, -, hlive⟩ | ⟨-, hlive⟩ := step.live
    · rw [hlive, List.getElem?_append] at hdead
      split at hdead
      · exact hold hdead
      · have hget := List.mem_of_getElem? hdead
        cases List.mem_singleton.mp hget
    · by_cases hj : j = i
      · subst hj
        exact ⟨spot, List.mem_append_right _ (List.mem_singleton_self _)⟩
      · rw [hlive, List.getElem?_set_ne hj] at hdead
        exact hold hdead
    · rw [hlive] at hdead
      exact hold hdead

theorem Gen.Trace.bound_of_local (h : Gen.Trace Γ first ms last) (hfirst : first.locals = [])
    (hi : i < (last.locals.map LocalVar.live).length) : ∃ spot, .bind spot i ∈ ms := by
  induction h with
  | refl =>
    rw [hfirst] at hi
    cases hi
  | @tail ms m g g' before step ih =>
    have hold : i < (g.locals.map LocalVar.live).length →
        ∃ spot, .bind spot i ∈ ms ++ m.toList := by
      intro hold
      obtain ⟨spot, hspot⟩ := ih hold
      exact ⟨spot, List.mem_append_left _ hspot⟩
    obtain ⟨spot, rfl, hlive⟩ | ⟨spot, j, -, -, hlive⟩ | ⟨-, hlive⟩ := step.live
    · by_cases hlt : i < (g.locals.map LocalVar.live).length
      · exact hold hlt
      · have heq : i = g.locals.length := by
          rw [hlive, List.length_append, List.length_singleton] at hi
          rw [List.length_map] at hi hlt
          omega
        subst heq
        exact ⟨spot, List.mem_append_right _ (List.mem_singleton_self _)⟩
    · rw [hlive, List.length_set] at hi
      exact hold hi
    · rw [hlive] at hi
      exact hold hi

def LocalMark.Stands (g : Gen) (slot : Nat → Nat) : LocalMark → Prop
  | .bind spot idx => ∃ ty, (g.opsAt spot.block)[spot.pc]? = some (.localSet (slot idx) ty)
  | .consume spot idx => ∃ ty, (g.opsAt spot.block)[spot.pc]? = some (.localGet (slot idx) ty)

theorem LocalMark.Stands.later {slot : Nat → Nat} {k : LocalMark} (hg : g.Extends g')
    (h : k.Stands g slot) : k.Stands g' slot := by
  cases k with
  | bind spot idx | consume spot idx =>
    obtain ⟨ty, hop⟩ := h
    exact ⟨ty, getElem?_of_prefix (hg.ops _) hop⟩

theorem Gen.Trace.stands (h : Gen.Trace Γ first ms last) {k : LocalMark} (hk : k ∈ ms) :
    k.Stands last (localSlot first) := by
  have hemitted : ∀ {t g g' : Gen} {cur : BlockId} {kind : OpKind} {span : Span} {u : Unit},
      t.word.blocks = g.word.blocks → emitOp Γ cur kind span t = .ok (u, g') →
      (g'.opsAt cur)[(g.opsAt cur).length]? = some kind := by
    intro t g g' cur kind span u hblocks hemit
    have hops : t.opsAt cur = g.opsAt cur := by rw [Gen.opsAt, hblocks, Gen.opsAt]
    rw [emitOp_opsAt hemit cur, if_pos rfl, hops]
    exact List.getElem?_concat_length ..
  induction h with
  | refl => cases hk
  | @tail ms m g g' before step ih =>
    obtain hk | hk := List.mem_append.mp hk
    · exact (ih hk).later step.step.extends
    · have hsig : g.sig = first.sig := by
        have hleads : Gen.Leads Γ 0 first g := fun _ => ⟨Nat.zero_le _, before.steps⟩
        exact (hleads.same_word (Nat.zero_le _)).2
      have hslot : localSlot g = localSlot first := by
        funext idx
        rw [localSlot, hsig, localSlot]
      cases step with
      | bind hroom fresh added run =>
        obtain rfl := List.mem_singleton.mp hk
        exact ⟨_, by rw [← hslot]; exact hemitted added.blocks run⟩
      | consume found live linear spent run =>
        obtain rfl := List.mem_singleton.mp hk
        exact ⟨_, by rw [← hslot]; exact hemitted spent.blocks run⟩
      | rest step same => cases hk

end Found

/-! ## A use without a loop, and one in a loop -/

def AT_TOKEN : TypeAtom := ⟨"Token", by decide⟩

/-- `sink ( Token -- )` -/
def sinkEntry : WordEntry :=
  builtinEntry ⟨"sink", by decide⟩ ⟨[AT_TOKEN], by decide⟩ .new .empty .ID

def tokenEnv (body : List (TokenKind × String)) : Env :=
  { plainBuild.env (plainModule "Main" "main" [] body .none) with
    iso := [AT_TOKEN]
    words := [sinkEntry] }

def tokenSig : WordSig := ⟨⟨[AT_TOKEN], by decide⟩, .new⟩

/-- `: main ( Token -- ) body ;` -/
def tokenDecl (body : List (TokenKind × String)) : Decl :=
  { quoteDecl body with sig := some tokenSig }

def lowerToken (body : List (TokenKind × String)) : Except TcError (Word × Gen) :=
  wordBody (tokenEnv body) (compileSpan (tokenEnv body) 4) (tokenDecl body)
    (.blank (tokenEnv body) (forecastSession .off) 0 tokenSig ⟨"main", main_fits⟩)

/-- `=> x x sink` -/
def plainUse : List (TokenKind × String) :=
  [(.arrowBind, "=>"), (.ident, "x"), (.ident, "x"), (.ident, "sink")]

/-- `=> x [ x sink ] loop` -/
def loopUse : List (TokenKind × String) :=
  [(.arrowBind, "=>"), (.ident, "x"), (.lBracket, "["), (.ident, "x"), (.ident, "sink"),
    (.rBracket, "]"), (.ident, "loop")]

def tokenWords (body : List (TokenKind × String)) (p : Word × Gen) : List LoweredWord :=
  [⟨tokenDecl body, p.1, p.2.extraWords, wordFact "main" p.1⟩]

def lowerTokens (body : List (TokenKind × String)) : Except TcError (List LoweredWord) :=
  lowerDecls (tokenEnv body) 4 (fun _ => "") [tokenDecl body] (forecastSession .off)

theorem lowerTokens_run {body : List (TokenKind × String)} {lws : List LoweredWord}
    (h : lowerTokens body = .ok lws) : ∃ p, lowerToken body = .ok p ∧ lws = tokenWords body p := by
  obtain ⟨⟨lw, session⟩, hdecl, h⟩ := bind_eq_ok.mp h
  cases h
  obtain ⟨sig, hsig, hdecl⟩ := bind_eq_ok.mp hdecl
  cases hsig
  obtain ⟨out, hbuild, hdecl⟩ := bind_eq_ok.mp hdecl
  obtain ⟨_, -, hdecl⟩ := bind_eq_ok.mp hdecl
  obtain ⟨_, -, hdecl⟩ := bind_eq_ok.mp hdecl
  cases hdecl
  obtain ⟨name, hname, hbuild⟩ := bind_eq_ok.mp hbuild
  cases hname
  obtain ⟨p, hrun, hbuild⟩ := bind_eq_ok.mp hbuild
  cases hbuild
  exact ⟨p, hrun, rfl⟩

theorem tokenWords_run {body : List (TokenKind × String)} {p : Word × Gen}
    (h : lowerToken body = .ok p) : EmittedRun (tokenEnv body) 4 (tokenWords body p) p.1
      (.blank (tokenEnv body) (forecastSession .off) 0 tokenSig ⟨"main", by decide⟩) p.2 :=
  .declared (List.mem_singleton_self _) ⟨⟨_, _, _, rfl⟩, h, rfl⟩

def runBesideFor (W : World) (w : Word) (spot : CodeSpot) : Nat → Config → Option Config
  | 0, c => some c
  | n + 1, c =>
    if spotOf c = spot then none
    else match wordStep W w c with
      | .running c' => runBesideFor W w spot n c'
      | _ => none

theorem runBeside_of_for {W : World} {w : Word} {spot : CodeSpot} {n : Nat} {c c' : Config}
    (h : runBesideFor W w spot n c = some c') : RunBeside W w spot c c' := by
  induction n generalizing c with
  | zero =>
    cases h
    exact .refl
  | succ n ih =>
    unfold runBesideFor at h
    split at h
    · cases h
    · next hne =>
      split at h
      · next c₁ hstep => exact .head ⟨hne, hstep⟩ (ih h)
      · cases h

/-- The spots of the operations that satisfy `P`. -/
def spotsOf (w : Word) (P : OpKind → Bool) : List CodeSpot :=
  (List.range w.blocks.len).flatMap fun i =>
    ((codeAt w ⟨i⟩).zipIdx.filter fun q => P q.1).map fun q => ⟨⟨i⟩, q.2⟩

theorem mem_spotsOf {w : Word} {P : OpKind → Bool} {s : CodeSpot} {kind : OpKind}
    (hop : (codeAt w s.block)[s.pc]? = some kind) (hP : P kind = true) : s ∈ spotsOf w P := by
  refine List.mem_flatMap.mpr ⟨s.block.idx, ?_, ?_⟩
  · rw [List.mem_range]
    by_contra hge
    have hnone : codeAt w s.block = [] := by
      rw [codeAt, FixedVec.get?, List.getElem?_eq_none (Nat.le_of_not_lt hge)]
      rfl
    rw [hnone] at hop
    cases hop
  · refine List.mem_map.mpr ⟨(kind, s.pc), List.mem_filter.mpr ⟨?_, hP⟩, rfl⟩
    rw [List.mk_mem_zipIdx_iff_getElem?]
    exact hop

def readsSlot (slot : Nat) : OpKind → Bool
  | .localGet s _ => s == slot
  | _ => false

def setsSlot (slot : Nat) : OpKind → Bool
  | .localSet s _ => s == slot
  | _ => false

def tokenMachine : Machine where
  stack := ⟨[], by decide⟩
  locals := List.replicate 8 ⟨0, none⟩
  mem := ⟨[], 0, 0⟩
  clock := 0

/-- A token that is used outside loops is consumed once. -/
theorem plain_token_consumed_once : ∃ lws w first last ms, lowerTokens plainUse = .ok lws ∧
    EmittedRun (tokenEnv plainUse) 4 lws w first last ∧
    Gen.Trace (tokenEnv plainUse) first ms last ∧ (∃ spot, .consume spot 0 ∈ ms) ∧
    ConsumedOnce w ms := by
  obtain ⟨lws, hlws⟩ := isOk_run (show (lowerTokens plainUse).isOk = true by decide +kernel)
  obtain ⟨p, hp, rfl⟩ := lowerTokens_run hlws
  have hfacts : (lowerToken plainUse).toOption.map (fun p =>
      (p.2.locals.map LocalVar.live, spotsOf p.1 fun kind => decide (kind.targets ≠ []))) =
      some ([false], []) := by decide +kernel
  rw [hp] at hfacts
  obtain ⟨hlive, hjumps⟩ := Prod.mk.inj (Option.some.inj hfacts)
  have hemitted := tokenWords_run hp
  obtain ⟨ms, htrace⟩ := exists_trace hemitted.lowers.steps
  have hloops : ReboundInLoops p.1 ms := by
    intro bound used idx _ _ s header _ hback
    obtain ⟨⟨kind, hop, ⟨-, -, rfl⟩ | ⟨t, ht, rfl⟩⟩, hpc, -⟩ := hback
    · cases hpc
    · have hmem := mem_spotsOf (P := fun kind => decide (kind.targets ≠ [])) hop
        (decide_eq_true (List.ne_nil_of_mem ht))
      rw [hjumps] at hmem
      cases hmem
  refine ⟨_, p.1, _, p.2, ms, hlws, hemitted, htrace, ?_,
    linear_consumed_once hemitted htrace hloops⟩
  refine htrace.consumed_of_dead rfl ?_
  unfold Gen.Dead
  rw [hlive]
  rfl

/-- A token that is used in a loop is consumed in each round. -/
theorem loop_token_consumed_twice : ¬∀ (Γ : Env) (fuel : Nat) (opsText : Word → String)
    (decls : List Decl) (session : Session) (lws : List LoweredWord) (w : Word) (first last : Gen)
    (ms : List LocalMark), lowerDecls Γ fuel opsText decls session = .ok lws →
    EmittedRun Γ fuel lws w first last → Gen.Trace Γ first ms last → ConsumedOnce w ms := by
  intro hclaim
  obtain ⟨lws, hlws⟩ := isOk_run (show (lowerTokens loopUse).isOk = true by decide +kernel)
  obtain ⟨p, hp, rfl⟩ := lowerTokens_run hlws
  have hfacts : (lowerToken loopUse).toOption.map (fun p =>
      (p.2.locals.map LocalVar.live, spotsOf p.1 (setsSlot 1), spotsOf p.1 (readsSlot 1))) =
      some ([false], [⟨⟨0⟩, 2⟩], [⟨⟨2⟩, 0⟩]) := by decide +kernel
  have hstep : ((lowerToken loopUse).toOption.bind fun p =>
      (runFor .reference p.1 1 ⟨⟨2⟩, 0, tokenMachine⟩).bind fun c =>
        (runBesideFor .reference p.1 ⟨⟨0⟩, 2⟩ 4 c).map spotOf) = some ⟨⟨2⟩, 0⟩ := by
    decide +kernel
  rw [hp] at hfacts hstep
  obtain ⟨hlive, hfacts⟩ := Prod.mk.inj (Option.some.inj hfacts)
  obtain ⟨hsets, hreads⟩ := Prod.mk.inj hfacts
  have hstep : ((runFor .reference p.1 1 ⟨⟨2⟩, 0, tokenMachine⟩).bind fun c =>
      (runBesideFor .reference p.1 ⟨⟨0⟩, 2⟩ 4 c).map spotOf) = some ⟨⟨2⟩, 0⟩ := hstep
  obtain ⟨c₁, hfirst, hrest⟩ := Option.bind_eq_some_iff.mp hstep
  obtain ⟨c₂, hrun, hspot⟩ := Option.map_eq_some_iff.mp hrest
  have hemitted := tokenWords_run hp
  obtain ⟨ms, htrace⟩ := exists_trace hemitted.lowers.steps
  obtain ⟨used, hused⟩ := htrace.consumed_of_dead (i := 0) rfl (by unfold Gen.Dead; rw [hlive]; rfl)
  obtain ⟨bound, hbound⟩ := htrace.bound_of_local (i := 0) rfl (by rw [hlive]; decide)
  have hword : p.1 = p.2.word := hemitted.lowers.word
  have hused_at : used = ⟨⟨2⟩, 0⟩ := by
    obtain ⟨ty, hop⟩ := htrace.stands hused
    have hmem : used ∈ spotsOf p.1 (readsSlot 1) := mem_spotsOf (by rw [hword]; exact hop) rfl
    rw [hreads] at hmem
    exact List.mem_singleton.mp hmem
  have hbound_at : bound = ⟨⟨0⟩, 2⟩ := by
    obtain ⟨ty, hop⟩ := htrace.stands hbound
    have hmem : bound ∈ spotsOf p.1 (setsSlot 1) := mem_spotsOf (by rw [hword]; exact hop) rfl
    rw [hsets] at hmem
    exact List.mem_singleton.mp hmem
  subst hused_at hbound_at
  have hstep₁ : wordStep .reference p.1 ⟨⟨2⟩, 0, tokenMachine⟩ = .running c₁ := by
    unfold runFor at hfirst
    split at hfirst
    · next c hrunning =>
      cases hfirst
      exact hrunning
    · cases hfirst
  exact hclaim _ _ _ _ _ _ _ _ _ ms hlws hemitted htrace hbound hused hused rfl hstep₁
    (runBeside_of_for hrun) hspot

end Tyu.Irgen

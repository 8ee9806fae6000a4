import Tyu.Backend.X86.Simulates
import Tyu.Ir.Verify

/-! # The code of a word follows the word -/

namespace Tyu.X86

open Lib

def Meets (Λ : Layout) (need : Atom → Nat) (kind : OpKind) (m : Machine) : Prop :=
  Agreeing kind m ∧ Roomy Λ need kind m

structure Entered (Λ : Layout) (m : Machine) (s : State) : Prop where
  top : (s.reg .r15).toNat = Λ.base + 8 * m.values.length
  limit : (s.reg .r14).toNat = Λ.limit
  stack : (s.reg .rsp).toNat = Λ.fp + Λ.frame
  fits : Λ.Room m.values.length
  slots : Slots s.mem Λ.base m.values
  locals : FrameSlots s.mem Λ.fp Λ.count (m.locals.map Value.val)

/-- The state in which it returns: the results are on the data stack, and the hardware
stack is as it was, less the return address. -/
structure Left (Λ : Layout) (m : Machine) (s s' : State) : Prop where
  top : (s'.reg .r15).toNat = Λ.base + 8 * m.values.length
  limit : (s'.reg .r14).toNat = Λ.limit
  stack : s'.reg .rsp = s.reg .rsp + 8
  fits : Λ.Room m.values.length
  slots : Slots s'.mem Λ.base m.values

section Words

variable {cfg : Settings} {c : Supply} {w : Word} {prog : List (Line Label Instr)} {E : Env}
  {Λ : Layout} {W : World} {need : Atom → Nat}

theorem localSlot_lt {kind : OpKind} (h : Occurs w kind) {slot : Nat} {span : Span}
    (hslot : localSlot ⟨kind, span⟩ = some slot) : slot < slotCount w := by
  obtain ⟨b, hb, op, hop, rfl⟩ := h
  have hmem : slot ∈ localSlots w :=
    List.mem_flatMap.mpr ⟨b, hb, List.mem_filterMap.mpr ⟨op, hop, hslot⟩⟩
  unfold slotCount maxLocalSlotIr
  cases hmax : (localSlots w).max? with
  | none =>
    rw [List.max?_eq_none_iff] at hmax
    rw [hmax] at hmem
    cases hmem
  | some top =>
    have hle := (List.max?_eq_some_iff.mp hmax).2 slot hmem
    exact Nat.lt_succ_of_le hle

theorem slot_lt {base : Nat} {c : Supply} {op : Op} {own : List (Line Label Instr)} {slot : Nat}
    (hown : emitOp cfg base c op = some own) (hslot : localSlot op = some slot) :
    slot + 1 ≤ 2 ^ 16 := by
  obtain ⟨kind, span⟩ := op
  cases kind <;> simp only [localSlot, reduceCtorEq, Option.some.injEq] at hslot
  all_goals
    subst hslot
    simp only [emitOp] at hown
    split at hown
    · rename_i hu16
      exact Nat.succ_le_of_lt (of_decide_eq_true hu16)
    · cases hown

theorem emitWord_pieces (h : emitWord cfg c w = some prog) :
    ∃ body, (emitter cfg c.label).blocks (Label.block c.label) { c with label := c.label + 1 }
        w.graph = some body ∧
      prog = .label (.word w.name) :: (resizeFrame .sub (frameBytes w) ++
        asm [.jmp (.block c.label w.entry)] ++ (body ++
          (.label (.endword c.label) :: (resizeFrame .add (frameBytes w) ++ asm [.ret])))) := by
  obtain ⟨body, hbody, rfl⟩ := Option.map_eq_some_iff.mp h
  exact ⟨body, hbody, rfl⟩

theorem resizeFrame_free (op : Alu) (n : Nat) (l : Label) : ¬Labelled (resizeFrame op n) l := by
  unfold resizeFrame
  split
  · exact not_labelled_instrs _ l
  · exact not_labelled_nil

theorem placed (h : emitWord cfg c w = some prog) :
    Placed (emitter cfg c.label) (Label.block c.label) w prog := by
  obtain ⟨body, hbody, hprog⟩ := emitWord_pieces h
  refine ⟨.label (.word w.name) :: (resizeFrame .sub (frameBytes w) ++
    asm [.jmp (.block c.label w.entry)]), _, body, _, hprog, hbody, ?_, ?_⟩
  · intro l hl
    rw [labelled_label, labelled_append] at hl
    rcases hl with rfl | hl | hl
    · trivial
    · exact absurd hl (resizeFrame_free _ _ l)
    · exact absurd hl (not_labelled_instrs _ l)
  · intro b hl
    rw [labelled_label, labelled_append] at hl
    rcases hl with hl | hl | hl
    · cases hl
    · exact absurd hl (resizeFrame_free _ _ _)
    · exact absurd hl (not_labelled_instrs _ _)

theorem target_endword (h : emitWord cfg c w = some prog) :
    target (.endword c.label) prog = some (resizeFrame .add (frameBytes w) ++ asm [.ret]) := by
  obtain ⟨body, hbody, rfl⟩ := emitWord_pieces h
  have hfree : ¬Labelled (.label (.word w.name) :: (resizeFrame .sub (frameBytes w) ++
      asm [.jmp (.block c.label w.entry)] ++ body)) (.endword c.label) := by
    rw [labelled_label, labelled_append, labelled_append, not_or, not_or, not_or]
    refine ⟨by simp, ⟨resizeFrame_free _ _ _, not_labelled_instrs _ _⟩, ?_⟩
    refine Emitter.blocks_free (fun c' op own hown hl => ?_) (fun b => by simp) hbody
    rcases labelled_emitOp hown hl with ⟨hl, -⟩ | ⟨hl, -⟩
    · cases hl
    · cases hl
  have hcode : .label (.word w.name) :: (resizeFrame .sub (frameBytes w) ++
      asm [.jmp (.block c.label w.entry)] ++ (body ++
        (.label (.endword c.label) :: (resizeFrame .add (frameBytes w) ++ asm [.ret])))) =
      .label (.word w.name) :: (resizeFrame .sub (frameBytes w) ++
        asm [.jmp (.block c.label w.entry)] ++ body) ++
        (.label (.endword c.label) :: (resizeFrame .add (frameBytes w) ++ asm [.ret])) := by
    simp
  rw [hcode, target_append hfree, target_label]

theorem resizeFrame_runs (E : Env) (prog : List (Line Label Instr)) (op : Alu) {n : Nat} (hn : n < 2 ^ 31) {s : State} {t : Word64}
    (ht : op.eval (s.reg .rsp) (BitVec.ofInt 64 n) = t) (hzero : n = 0 → t = s.reg .rsp)
    (rest : List (Line Label Instr)) :
    ∃ s', Leads (exec E) prog (.at (resizeFrame op n ++ rest) s) (.at rest s') ∧
      s'.reg .rsp = t ∧ s'.reg .r15 = s.reg .r15 ∧ s'.reg .r14 = s.reg .r14 ∧ s'.mem = s.mem := by
  unfold resizeFrame
  by_cases hpos : 0 < n
  · rw [if_pos hpos]
    refine ⟨{ s.set .rsp t with flags := none }, .single ?_, rfl, rfl, rfl, rfl⟩
    have hexec : exec E (.alu op .rsp (.imm n)) s =
        some (.next { s.set .rsp t with flags := none }) := by
      rw [exec, source, if_pos (imm32_of_lt hn), Option.map_some, ht]
    rw [asm, List.map_cons, List.map_nil, List.cons_append, List.nil_append, advance, hexec]
    rfl
  · rw [if_neg hpos]
    exact ⟨s, .refl, (hzero (by omega)).symm, rfl, rfl, rfl⟩

theorem frameBytes_lt (h : emitWord cfg c w = some prog) : frameBytes w < 2 ^ 31 := by
  obtain ⟨body, hbody, -⟩ := emitWord_pieces h
  have hcount : slotCount w ≤ 2 ^ 16 := by
    unfold slotCount maxLocalSlotIr
    cases hmax : (localSlots w).max? with
    | none => exact Nat.zero_le _
    | some top =>
      have hmem := (List.max?_eq_some_iff.mp hmax).1
      obtain ⟨b, hb, hslot⟩ := List.mem_flatMap.mp hmem
      obtain ⟨op, hop, hslot⟩ := List.mem_filterMap.mp hslot
      obtain ⟨c', own, hown⟩ := Emitter.blocks_code hbody (List.mem_map_of_mem hb) hop
      exact slot_lt hown hslot
  unfold frameBytes localsBytesIr
  split
  · omega
  · split <;> omega

variable (hΛ : Λ.Sound E) (hemit : emitWord cfg c w = some prog) (hframe : Λ.frame = frameBytes w)

include hΛ hemit hframe

omit hΛ in
theorem enter_leads {m : Machine} {s : State} (hs : Entered Λ m s) :
    ∃ s', Leads (exec E) prog (.at prog s) (.seek (.block c.label w.entry) s') ∧ Rep Λ m s' := by
  obtain ⟨body, hbody, hprog⟩ := emitWord_pieces hemit
  have hlt := frameBytes_lt hemit
  have hstack := hs.stack
  set tail := body ++ (.label (.endword c.label) ::
    (resizeFrame .add (frameBytes w) ++ asm [.ret])) with htail
  set t := s.reg .rsp - BitVec.ofInt 64 (frameBytes w) with ht
  have hnone : frameBytes w = 0 → t = s.reg .rsp := by
    intro hzero
    rw [ht, hzero]
    exact BitVec.sub_zero _
  obtain ⟨s', hrun, hsp, h15, h14, hmem⟩ := resizeFrame_runs E prog .sub hlt ht.symm hnone
    (asm [.jmp (.block c.label w.entry)] ++ tail)
  have hto : t.toNat = Λ.fp := toNat_sub_imm (by omega) (by omega)
  refine ⟨s', ?_, ?_⟩
  · have hat : Point.at (X := Way) prog s = .at (.label (.word w.name) ::
        (resizeFrame .sub (frameBytes w) ++ (asm [.jmp (.block c.label w.entry)] ++ tail))) s := by
      rw [← List.append_assoc, ← hprog]
    rw [hat]
    exact .head rfl (hrun.trans (.single rfl))
  · exact
      { top := by
          rw [h15]
          exact hs.top
        limit := by
          rw [h14]
          exact hs.limit
        frame := by rw [hsp, hto]
        fits := hs.fits
        slots := by
          rw [hmem]
          exact hs.slots
        locals := by
          rw [hmem]
          exact hs.locals }

theorem leave_leads {m m' : Machine} {s₀ s : State} (hs₀ : Entered Λ m s₀) (hs : Rep Λ m' s) :
    ∃ s', Leads (exec E) prog (.seek (.endword c.label) s) (.left .ret s') ∧ Left Λ m' s₀ s' := by
  have hlt := frameBytes_lt hemit
  have hstack := hs₀.stack
  have hsp := hs.frame
  have hend := hΛ.frame_lt
  set t := s.reg .rsp + BitVec.ofInt 64 (frameBytes w) with ht
  have hto : t.toNat = Λ.fp + Λ.frame := toNat_add_imm (by omega) (by omega)
  have hback : t = s₀.reg .rsp := BitVec.eq_of_toNat_eq (by rw [hto, hstack])
  have hnone : frameBytes w = 0 → t = s.reg .rsp := by
    intro hzero
    rw [ht, hzero]
    exact BitVec.add_zero _
  obtain ⟨s', hrun, hsp', h15, h14, hmem⟩ := resizeFrame_runs E prog .add hlt ht.symm hnone (asm [.ret])
  refine ⟨s'.set .rsp (s'.reg .rsp + 8), ?_, ?_⟩
  · refine .head (q := .at (resizeFrame .add (frameBytes w) ++ asm [.ret]) s) ?_
      (hrun.trans (.single rfl))
    rw [advance, target_endword hemit]
    rfl
  · exact
      { top := by
          rw [State.set_reg_of_ne _ _ (by decide), h15]
          exact hs.top
        limit := by
          rw [State.set_reg_of_ne _ _ (by decide), h14]
          exact hs.limit
        stack := by rw [State.set_reg_self, hsp', hback]
        fits := hs.fits
        slots := by
          rw [State.set_mem, hmem]
          exact hs.slots }

end Words

theorem simulates (cfg : Settings) (c : Supply) {w : Word} {E : Env} {Λ : Layout} {W : World}
    {need : Atom → Nat} (hΛ : Λ.Sound E) (hcount : Λ.count = slotCount w)
    (hserves : Serves E Λ W need w) (hlinked : Linked E W) :
    Simulates (exec E) (emitter cfg c.label) (Label.block c.label) (.endword c.label) Trapped W
      (fun _ _ n => n) (fun _ : Unit => Rep Λ) fun kind _ m => Occurs w kind ∧ Meets Λ need kind m where
  fresh := emitter_fresh cfg c.label
  ticks _ _ _ h := h
  forgets _ m s h := by
    rw [Rep, view_forget]
    exact h
  step c' op own _ m m' ctl s hown hs hok hexec := by
    obtain ⟨hoccurs, hagree, hroomy⟩ := hok
    refine step_segment hΛ hserves hlinked (fun slot hslot => ?_) hown hs hoccurs hagree hroomy hexec
    rw [hcount]
    exact localSlot_lt hoccurs hslot

/-- The code of a word follows every run of the word whose steps meet the condition,
returns and traps as the word does, stops where a guarded push finds no room, and
changes no memory but the word's own. -/
theorem code_follows_word {cfg : Settings} {c : Supply} {w : Word} {prog : List (Line Label Instr)}
    {E : Env} {Λ : Layout} {W : World} {need : Atom → Nat} {m₀ : Machine} {s₀ : State}
    (hemit : emitWord cfg c w = some prog) (hΛ : Λ.Sound E) (hcount : Λ.count = slotCount w)
    (hframe : Λ.frame = frameBytes w) (hserves : Serves E Λ W need w) (hlinked : Linked E W)
    (hs₀ : Entered Λ m₀ s₀) :
    (∀ q, Leads (exec E) prog (.at prog s₀) q → ∀ x, ¬Λ.Own (E.address .dsHigh) x →
      q.state.mem x = s₀.mem x) ∧
    ∀ k, (wordSystem W w (· = m₀)).Reach (StepMeets w (Meets Λ need)) k →
      (∃ p, Leads (exec E) prog (.at prog s₀) p ∧ Mirrors (emitter cfg c.label)
        (Label.block c.label) (fun _ : Unit => Rep Λ) w prog ⟨k, ()⟩ p) ∧
      (StepMeets w (Meets Λ need) k → ∀ m, wordStep W w k = .returned m →
        ∃ s, Leads (exec E) prog (.at prog s₀) (.left .ret s) ∧ Left Λ m s₀ s) ∧
      (StepMeets w (Meets Λ need) k → ∀ code, wordStep W w k = .trapped code →
        ∃ way s, Leads (exec E) prog (.at prog s₀) (.left way s) ∧ Trapped code way s) ∧
      (cfg.dsGuardsElided = false → ∀ op, currentOp w k = some op → Pushes op.kind = true →
        ¬Λ.Room (k.machine.values.length + 1) →
        ∃ s, Leads (exec E) prog (.at prog s₀) (.left .stackOverflow s)) := by
  have hsim := simulates cfg c hΛ hcount hserves hlinked
  have hw := placed hemit
  have hoccurs : ∀ k, StepMeets w (Meets Λ need) k →
      StepOk w (fun kind (_ : Unit) m => Occurs w kind ∧ Meets Λ need kind m) ⟨k, ()⟩ :=
    fun k hk op hop => ⟨occurs_of_currentOp hop, hk op hop⟩
  obtain ⟨s₁, henter, hrep⟩ := enter_leads hemit hframe hs₀
  constructor
  · intro q hq x hx
    have hw : E.writable x = false := by
      rw [Bool.eq_false_iff]
      exact fun h => hx ((hΛ.writable x).mp h)
    refine hq.keeps (P := fun s => s.mem x = s₀.mem x) (fun i s e hs he => ?_) rfl
    rw [exec_keeps he hw (fun name s s' h => hserves.back name s s' x h hw)
      (fun name s way s' h => hserves.stop name s way s' x h hw), hs]
  · intro k hk
    obtain ⟨p, hrun, hmirrors⟩ := mirrors_reach hsim hw hrep (plain_reach hoccurs hk)
    have hto := henter.trans hrun
    refine ⟨⟨p, hto, hmirrors⟩, ?_, ?_, ?_⟩
    · intro hok m hm
      obtain ⟨_, s, hrun', hrep'⟩ := hmirrors.returned hsim hw (hoccurs k hok) hm
      obtain ⟨s', hrun'', hleft⟩ := leave_leads hΛ hemit hframe hs₀ hrep'
      exact ⟨s', hto.trans (hrun'.trans hrun''), hleft⟩
    · intro hok code hcode
      obtain ⟨way, s, hrun', htrapped⟩ := hmirrors.stopped hsim hw (hoccurs k hok) hcode
      exact ⟨way, s, hto.trans hrun', htrapped⟩
    · intro hguard op hop hpush hroom
      obtain ⟨e, s, rest, rfl, hrun', -⟩ := hmirrors.run hsim.fresh hw hop fun c₁ own hown =>
        push_stops hΛ hguard hown hmirrors.1 hpush hroom
      exact ⟨s, hto.trans hrun'⟩

theorem roomy_of_quiet {Λ : Layout} {need : Atom → Nat} {kind : OpKind} {m : Machine}
    (h : Pushes kind = false) (hcall : ∀ name sig p r b, kind ≠ .call name sig p r b) :
    Roomy Λ need kind m := by
  constructor
  · intro hpush
    rw [h] at hpush
    cases hpush
  · intro name sig p r b hk
    exact absurd hk (hcall name sig p r b)

/-! ## Two words of one operation -/

def boolWord (kind : OpKind) : Word where
  name := ⟨"both", by decide⟩
  sig := ⟨⟨[TY_BOOL, TY_BOOL], by decide⟩, ⟨[TY_BOOL], by decide⟩⟩
  performs := .empty
  requires := .empty
  bound := ⟨0, .slots 2⟩
  entry := ⟨0⟩
  types := ⟨[AT_EMPTY, AT_I64, AT_BOOL], by decide⟩
  typeSizes := ⟨[0, 8, 1], by decide⟩
  typeClasses := ⟨[.other, .i64, .bool], by decide⟩
  apertures := .new
  subtypeBases := ⟨[TY_EMPTY, TY_EMPTY, TY_EMPTY], by decide⟩
  blocks := ⟨[⟨⟨0⟩, ⟨[TY_BOOL, TY_BOOL], by decide⟩,
    ⟨[⟨kind, .UNKNOWN⟩, ⟨.ret, .UNKNOWN⟩], show 2 ≤ 96 by decide⟩⟩], show 1 ≤ 16 by decide⟩

def oneTwo : Machine :=
  ⟨⟨[⟨⟨2, none⟩, TY_BOOL⟩, ⟨⟨1, none⟩, TY_BOOL⟩], show 2 ≤ 64 by decide⟩, [], ⟨[], 0, 0⟩, 0⟩

/-- The machine `or` leaves of them. -/
def oneLeft : Machine :=
  ⟨⟨[⟨⟨1, none⟩, TY_BOOL⟩], show 1 ≤ 64 by decide⟩, [], ⟨[], 0, 0⟩, 1⟩

def plain : Settings := ⟨false, false, [], fun _ => 0, 0⟩

def smallLayout : Layout := ⟨4096, 8192, 16384, 20000, 0, 0⟩

def smallEnv : Env where
  writable x := (4096 ≤ x && x < 8192) || (16384 ≤ x && x < 20000) || (32768 ≤ x && x < 32776)
  address
    | .dsHigh => 32768
    | .resource _ => 0
  call _ _ := none

def oneTwoState : State where
  reg
    | .r15 => 4112
    | .r14 => 8192
    | .rsp => 20000
    | _ => 0
  flags := none
  mem x := if x = 4096 then 1 else if x = 4104 then 2 else 0

def boolCode (kind : OpKind) : List (Line Label Instr) :=
  (emitWord plain ⟨0, 0⟩ (boolWord kind)).getD []

theorem small_sound : smallLayout.Sound smallEnv where
  limit_lt := by decide
  low_le := by decide
  locals_le := by decide
  frame_lt := by decide
  high_lt := by decide
  apart := .inl (by decide)
  high_data := .inl (by decide)
  high_frame := .inl (by decide)
  writable x := by
    show ((4096 ≤ x && x < 8192) || (16384 ≤ x && x < 20000) || (32768 ≤ x && x < 32776)) = true ↔
      (4096 ≤ x ∧ x < 8192) ∨ (16384 ≤ x ∧ x < 20000 + 0) ∨ (32768 ≤ x ∧ x < 32768 + 8)
    simp only [Bool.or_eq_true, Bool.and_eq_true, decide_eq_true_iff]
    omega

theorem small_serves {kind : OpKind} (h : ∀ name sig p r b, kind ≠ .call name sig p r b)
    (W : World) : Serves smallEnv smallLayout W (fun _ => 0) (boolWord kind) where
  call clock name sig p r b hoccurs := by
    obtain ⟨blk, hblk, op, hop, hkind⟩ := hoccurs
    obtain rfl := List.mem_singleton.mp hblk
    rcases List.mem_cons.mp hop with rfl | hop
    · exact absurd hkind (h name sig p r b)
    · obtain rfl := List.mem_singleton.mp hop
      cases hkind
  back name s s' x hcall := by cases hcall
  stop name s way s' x hcall := by cases hcall

theorem oneTwo_entered : Entered smallLayout oneTwo oneTwoState where
  top := by decide
  limit := by decide
  stack := by decide
  fits := show 4096 + 8 * 2 ≤ 8192 by decide
  slots := ⟨by decide, by decide, trivial⟩
  locals := fun i hi => absurd hi (Nat.not_lt_zero i)

/-- `or` of 1 and 2 is 1. -/
theorem or_of_one_two :
    ∃ s, Leads (exec smallEnv) (boolCode .orBool) (.at (boolCode .orBool) oneTwoState)
      (.left .ret s) ∧ Left smallLayout oneLeft oneTwoState s := by
  have hreach : (wordSystem World.reference (boolWord .orBool) (· = oneTwo)).Reach
      (StepMeets (boolWord .orBool) (Meets smallLayout fun _ => 0)) ⟨⟨0⟩, 1, oneLeft⟩ := by
    have hstep : wordStep World.reference (boolWord .orBool) ⟨⟨0⟩, 0, oneTwo⟩ =
        .running ⟨⟨0⟩, 1, oneLeft⟩ := rfl
    refine .next (.start ⟨rfl, rfl, rfl⟩) ?_ hstep
    intro op hop
    cases hop
    exact ⟨trivial, roomy_of_quiet rfl (by simp)⟩
  have hemit : emitWord plain ⟨0, 0⟩ (boolWord .orBool) = some (boolCode .orBool) := rfl
  refine ((code_follows_word hemit small_sound rfl rfl
    (small_serves (by simp) World.reference) (fun _ _ _ => rfl)
    oneTwo_entered).2 _ hreach).2.1 ?_ _ rfl
  intro op hop
  cases hop
  exact ⟨trivial, roomy_of_quiet rfl (by simp)⟩

/-- `and` of 1 and 2 is 1 as well, but the code leaves something else. -/
theorem and_of_one_two :
    Accepted (boolWord .andBool) ∧ emitWord plain ⟨0, 0⟩ (boolWord .andBool) = some (boolCode .andBool) ∧
      Entered smallLayout oneTwo oneTwoState ∧
      (wordSystem World.reference (boolWord .andBool) (· = oneTwo)).Reachable ⟨⟨0⟩, 1, oneLeft⟩ ∧
      wordStep World.reference (boolWord .andBool) ⟨⟨0⟩, 1, oneLeft⟩ = .returned oneLeft ∧
      ∀ way s, Leads (exec smallEnv) (boolCode .andBool) (.at (boolCode .andBool) oneTwoState)
        (.left way s) → ¬Left smallLayout oneLeft oneTwoState s := by
  have hstep : wordStep World.reference (boolWord .andBool) ⟨⟨0⟩, 0, oneTwo⟩ =
      .running ⟨⟨0⟩, 1, oneLeft⟩ := rfl
  refine ⟨by decide, rfl, oneTwo_entered, .next (.start ⟨rfl, rfl, rfl⟩) trivial hstep, rfl, ?_⟩
  intro way s hrun hleft
  have hend : ∃ t, advanceFor (exec smallEnv) (boolCode .andBool) 16
      (.at (boolCode .andBool) oneTwoState) = some (.left .ret t) ∧ slotValue t.mem 4096 = 0 := by
    refine ⟨_, rfl, ?_⟩
    decide
  obtain ⟨t, ht, hzero⟩ := hend
  obtain ⟨-, rfl⟩ := hrun.left_unique (leads_of_advanceFor ht)
  have hone : slotValue s.mem 4096 = 1 := hleft.slots.1
  rw [hzero] at hone
  cases hone

end Tyu.X86

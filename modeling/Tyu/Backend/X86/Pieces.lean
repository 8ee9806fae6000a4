import Tyu.Backend.X86.Emit

/-! # The sequences the emitted code is made of -/

namespace Tyu.X86

open Lib

variable {E : Env} {Λ : Layout} {vals locals : List Int} {s s' : State} {v a b : Int}
  {used : Label → Prop}

theorem takeInto_runs (h : Holds Λ (v :: vals) locals s) (hΛ : Λ.Sound E) {r : Reg}
    (hr : r ≠ .r15 ∧ r ≠ .r14 ∧ r ≠ .rsp) :
    ∃ s', runAll (exec E) (takeInto r) s = some s' ∧ Holds Λ vals locals s' ∧
      (s'.reg r).toInt = v ∧ ∀ r', r' ≠ r → r' ≠ .r15 → s'.reg r' = s.reg r' := by
  obtain ⟨h15, h14, hsp⟩ := hr
  have htop := h.top
  have hlim := hΛ.limit_lt
  have hfits : Λ.base + 8 * (vals.length + 1) ≤ Λ.limit := h.fits
  rw [List.length_cons] at htop
  set s₁ : State := { s.set .r15 (s.reg .r15 - BitVec.ofInt 64 8) with flags := none } with hs₁
  have hnew : (s₁.reg .r15).toNat = Λ.base + 8 * vals.length :=
    toNat_sub_imm (d := 8) (by omega) (by omega)
  have hplace : s₁.place .r15 0 = Λ.base + 8 * vals.length := place_eq (by omega) (by omega)
  refine ⟨s₁.set r (s₁.load (Λ.base + 8 * vals.length)), ?_, ?_, ?_, ?_⟩
  · rw [← hplace]
    rfl
  · exact
      { top := by
          rw [State.set_reg_of_ne _ _ (Ne.symm h15)]
          exact hnew
        limit := by
          rw [State.set_reg_of_ne _ _ (Ne.symm h14)]
          exact h.limit
        frame := by
          rw [State.set_reg_of_ne _ _ (Ne.symm hsp)]
          exact h.frame
        fits := show Λ.base + 8 * vals.length ≤ Λ.limit by omega
        slots := h.slots.2
        locals := h.locals }
  · rw [State.set_reg_self, load_toInt]
    exact h.slots.1
  · intro r' hr' hr15
    rw [State.set_reg_of_ne _ _ hr']
    exact State.set_reg_of_ne s _ hr15

def State.put (s : State) (x : Word64) : State :=
  { ({ s with mem := s.mem.write (s.reg .r15).toNat 8 x.toNat } : State).set .r15
      (s.reg .r15 + BitVec.ofInt 64 8) with flags := none }

theorem put_stores (h : Holds Λ vals locals s) (hΛ : Λ.Sound E) (hroom : Λ.Room (vals.length + 1))
    (x : Word64) :
    store E s (s.place .r15 0) x = some { s with mem := s.mem.write (s.reg .r15).toNat 8 x.toNat } := by
  have htop := h.top
  have hlim := hΛ.limit_lt
  have hroom' : Λ.base + 8 * (vals.length + 1) ≤ Λ.limit := hroom
  have hplace : s.place .r15 0 = (s.reg .r15).toNat := place_eq (by omega) (by omega)
  rw [hplace]
  exact store_ok hΛ fun y hy hy' => .inl ⟨by omega, by omega⟩

theorem put_holds (h : Holds Λ vals locals s) (hΛ : Λ.Sound E) (hroom : Λ.Room (vals.length + 1))
    (x : Word64) : Holds Λ (x.toInt :: vals) locals (s.put x) := by
  have htop := h.top
  have hlim := hΛ.limit_lt
  have hroom' : Λ.base + 8 * (vals.length + 1) ≤ Λ.limit := hroom
  have hlow := hΛ.low_le
  have hcount := hΛ.locals_le
  have hapart := hΛ.apart
  exact
    { top := by
        rw [List.length_cons]
        exact toNat_add_imm (by omega) (by omega)
      limit := h.limit
      frame := h.frame
      fits := hroom
      slots := by
        rw [← wrapI64_toNat]
        show Slots (s.mem.write (s.reg .r15).toNat 8 x.toNat) _ _
        rw [htop]
        exact h.slots.push _
      locals := h.locals.write (by omega) }

theorem putRax_runs (h : Holds Λ vals locals s) (hΛ : Λ.Sound E)
    (hroom : Λ.Room (vals.length + 1)) :
    ∃ s', runAll (exec E) putRax s = some s' ∧
      Holds Λ ((s.reg .rax).toInt :: vals) locals s' := by
  refine ⟨s.put (s.reg .rax), ?_, put_holds h hΛ hroom _⟩
  rw [putRax, runAll, exec, move, put_stores h hΛ hroom]
  rfl

theorem setAl_runs {c : Cond} {f : Word64 × Word64} (hf : s.flags = some f) :
    ∃ s', runAll (exec E) [.setAl c, .movzxRaxAl] s = some s' ∧ Scratch s s' ∧
      (s'.reg .rax).toInt = boolVal (c.holds f) := by
  set s₁ := s.set .rax (BitVec.ofNat 64 ((s.reg .rax).toNat / 256 * 256 + (c.holds f).toNat))
    with hs₁
  refine ⟨s₁.set .rax (BitVec.ofNat 64 ((s₁.reg .rax).toNat % 256)), ?_, ⟨rfl, rfl, rfl, rfl⟩, ?_⟩
  · rw [runAll, exec, hf]
    rfl
  · have hlow : (s₁.reg .rax).toNat % 256 = (c.holds f).toNat := by
      rw [hs₁, State.set_reg_self, BitVec.toNat_ofNat]
      have hbit := (c.holds f).toNat_lt
      omega
    rw [State.set_reg_self, hlow]
    cases c.holds f <;> rfl

/-- An operation on the two topmost slots: they are taken, `mid` computes from them
into `rax`, and that is put back. -/
theorem binary_runs (h : Holds Λ (b :: a :: vals) locals s) (hΛ : Λ.Sound E) {mid : List Instr}
    (hmid : ∀ t, (t.reg .rax).toInt = a → (t.reg .rcx).toInt = b →
      ∃ t', runAll (exec E) mid t = some t' ∧ Scratch t t' ∧ (t'.reg .rax).toInt = v) :
    ∃ s', runAll (exec E) (takeInto .rcx ++ takeInto .rax ++ mid ++ putRax) s = some s' ∧
      Holds Λ (v :: vals) locals s' := by
  have hfits : Λ.base + 8 * (vals.length + 2) ≤ Λ.limit := h.fits
  obtain ⟨s₁, hrun₁, h₁, hb, -⟩ := takeInto_runs h hΛ (r := .rcx) (by decide)
  obtain ⟨s₂, hrun₂, h₂, ha, hkeep⟩ := takeInto_runs h₁ hΛ (r := .rax) (by decide)
  have hb₂ : (s₂.reg .rcx).toInt = b := by rw [hkeep .rcx (by decide) (by decide), hb]
  obtain ⟨s₃, hrun₃, hscratch, hv⟩ := hmid s₂ ha hb₂
  obtain ⟨s₄, hrun₄, h₄⟩ := putRax_runs (h₂.scratch hscratch) hΛ
    (show Λ.base + 8 * (vals.length + 1) ≤ Λ.limit by omega)
  rw [hv] at h₄
  exact ⟨s₄, runAll_append (runAll_append (runAll_append hrun₁ hrun₂) hrun₃) hrun₄, h₄⟩

theorem unary_runs (h : Holds Λ (a :: vals) locals s) (hΛ : Λ.Sound E) {mid : List Instr}
    (hmid : ∀ t, (t.reg .rax).toInt = a →
      ∃ t', runAll (exec E) mid t = some t' ∧ Scratch t t' ∧ (t'.reg .rax).toInt = v) :
    ∃ s', runAll (exec E) (takeInto .rax ++ mid ++ putRax) s = some s' ∧
      Holds Λ (v :: vals) locals s' := by
  obtain ⟨s₁, hrun₁, h₁, ha, -⟩ := takeInto_runs h hΛ (r := .rax) (by decide)
  obtain ⟨s₂, hrun₂, hscratch, hv⟩ := hmid s₁ ha
  obtain ⟨s₃, hrun₃, h₃⟩ := putRax_runs (h₁.scratch hscratch) hΛ h.fits
  rw [hv] at h₃
  exact ⟨s₃, runAll_append (runAll_append hrun₁ hrun₂) hrun₃, h₃⟩

/-! ## The guard and the high-water mark -/

theorem cond_a_iff (x y : Word64) : Cond.a.holds (x, y) = true ↔ y.toNat < x.toNat := by
  rw [Cond.holds, BitVec.ult, decide_eq_true_iff]

theorem emitGuard_free (r : Reg) (guard : Bool) (l : Label) : ¬Labelled (emitGuard r guard) l := by
  cases guard with
  | false => exact not_labelled_nil
  | true => exact not_labelled_instrs _ l

theorem emitGuard_passes (hΛ : Λ.Sound E) {P : State → Prop} (r : Reg) (guard : Bool)
    (hholds : ∀ s, P s → Holds Λ vals locals s) (hroom : Λ.Room (vals.length + 1))
    (hP : ∀ s x f, P s → P { s.set r x with flags := f }) (hr : r ≠ .r14) :
    Straight (exec E) used P (emitGuard r guard) P := by
  cases guard with
  | false => exact Segment.nil fun s hs => ⟨rfl, hs⟩
  | true =>
    refine Straight.runAll fun s hs => ?_
    have hroom' : Λ.base + 8 * (vals.length + 1) ≤ Λ.limit := hroom
    have hlim := hΛ.limit_lt
    have htop := (hholds s hs).top
    have h14 := (hholds s hs).limit
    set next := s.reg .r15 + BitVec.ofInt 64 8 with hnext
    have hfits : Cond.a.holds (next, s.reg .r14) = false := by
      have hn : next.toNat = Λ.base + 8 * (vals.length + 1) := toNat_add_imm (by omega) (by omega)
      rw [Bool.eq_false_iff, Ne, cond_a_iff]
      omega
    refine ⟨{ s.set r next with flags := some (next, s.reg .r14) }, ?_, hP s _ _ hs⟩
    simp only [runAll, exec, source, State.set_reg_self, State.set_reg_of_ne _ _ (Ne.symm hr),
      Option.map_some, Option.bind_some, ← hnext, hfits]
    rfl

theorem emitGuard_stops {P : State → Prop} (hΛ : Λ.Sound E) (r : Reg) {more : List (Line Label Instr)}
    (hholds : ∀ s, P s → Holds Λ vals locals s) (hroom : ¬Λ.Room (vals.length + 1))
    (hr : r ≠ .r14) :
    Segment (exec E) used P (emitGuard r true ++ more) fun e _ => e = .out .stackOverflow := by
  refine Segment.of_each fun s hs => ?_
  have hroom' : ¬Λ.base + 8 * (vals.length + 1) ≤ Λ.limit := hroom
  have hfits : Λ.base + 8 * vals.length ≤ Λ.limit := (hholds s hs).fits
  have hlim := hΛ.limit_lt
  have htop := (hholds s hs).top
  have h14 := (hholds s hs).limit
  set next := s.reg .r15 + BitVec.ofInt 64 8 with hnext
  have hover : Cond.a.holds (next, s.reg .r14) = true := by
    have hn : next.toNat = Λ.base + 8 * (vals.length + 1) := toNat_add_imm (by omega) (by omega)
    rw [cond_a_iff]
    omega
  refine Segment.next (R := (· = s.set r next)) ?_ (Segment.next
    (R := (· = { s.set r next with flags := some (next, s.reg .r14) })) ?_ (Segment.leave ?_))
  · rintro _ rfl
    exact ⟨_, rfl, rfl⟩
  · rintro _ rfl
    refine ⟨_, rfl, ?_⟩
    rw [State.set_reg_self, State.set_reg_of_ne _ _ (Ne.symm hr)]
  · rintro _ rfl
    refine ⟨.stackOverflow, { s.set r next with flags := some (next, s.reg .r14) }, ?_, rfl⟩
    simp only [exec, Option.map_some, hover]
    rfl

theorem emitUpdateDsHigh_holds (hΛ : Λ.Sound E) {id : Nat} (hid : ¬used (.dsHigh id)) :
    Straight (exec E) used (Holds Λ vals locals) (emitUpdateDsHigh id) (Holds Λ vals locals) := by
  show Straight (exec E) used _ (.instr (.cmp (.reg .r15) (.cell .dsHigh)) ::
    .instr (.jcc .na (.dsHigh id)) ::
      (asm [.mov (.cell .dsHigh) (.reg .r15)] ++ [.label (.dsHigh id)])) _
  refine Segment.next
    (R := fun s => Holds Λ vals locals s ∧ ∃ f, s.flags = some f) ?_
    (Segment.over (T := fun s => ∃ f, s.flags = some f ∧ Cond.na.holds f = false)
      (R := Holds Λ vals locals) hid ?_ ?_ ?_ ?_)
  · intro s hs
    exact ⟨_, rfl, hs.scratch ⟨rfl, rfl, rfl, rfl⟩, _, rfl⟩
  · exact not_labelled_instrs _ _
  · rintro s ⟨hs, f, hf⟩ hna
    have htrue : Cond.na.holds f = true := by
      by_contra hfalse
      exact hna ⟨f, hf, by simpa using hfalse⟩
    refine ⟨s, ?_, rfl, hs⟩
    simp only [exec, hf, Option.map_some, htrue]
    rfl
  · rintro s ⟨hs, f, hf⟩ ⟨f', hf', hfalse⟩
    refine ⟨s, ?_, hs⟩
    rw [hf'] at hf
    simp only [exec, hf', Option.map_some, hfalse]
    rfl
  · refine Straight.runAll fun s hs => ?_
    have hstore := store_ok (s := s) hΛ (x := s.reg .r15) (a := E.address .dsHigh)
      fun y hy hy' => .inr (.inr ⟨hy, hy'⟩)
    refine ⟨{ s with mem := s.mem.write (E.address .dsHigh) 8 (s.reg .r15).toNat }, ?_, ?_⟩
    · simp only [runAll, exec, move, hstore]
      rfl
    · have hdata := hΛ.high_data
      have hframe := hΛ.high_frame
      have hlow := hΛ.low_le
      have hcount := hΛ.locals_le
      have hfits : Λ.base + 8 * vals.length ≤ Λ.limit := hs.fits
      exact
        { top := hs.top
          limit := hs.limit
          frame := hs.frame
          fits := hs.fits
          slots := hs.slots.write (by omega)
          locals := hs.locals.write (by omega) }

end Tyu.X86

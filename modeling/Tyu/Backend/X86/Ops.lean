import Tyu.Backend.View
import Tyu.Backend.X86.Pieces

/-!
# What the code of each operation does

One lemma for each emitting function: from a state that holds values, with room where
the operation needs it, its code leads to a state that holds the values the operation
leaves.
-/

namespace Tyu.X86

open Lib

variable {E : Env} {Λ : Layout} {vals locals : List Int} {s s' : State} {v a b : Int}
  {used : Label → Prop} {guard : Bool} {id : Nat}

section Pushes

variable (hΛ : Λ.Sound E) (hroom : Λ.Room (vals.length + 1)) (hid : ¬used (.dsHigh id))

include hΛ hroom hid

theorem putRax_update :
    Straight (exec E) used (fun s => Holds Λ vals locals s ∧ (s.reg .rax).toInt = v)
      (asm putRax ++ emitUpdateDsHigh id) (Holds Λ (v :: vals) locals) := by
  refine Straight.append_free (Straight.runAll ?_) (not_labelled_instrs _)
    (emitUpdateDsHigh_holds hΛ hid)
  rintro s ⟨hs, rfl⟩
  exact putRax_runs hs hΛ hroom

theorem emitPushRax_holds :
    Straight (exec E) used (fun s => Holds Λ vals locals s ∧ (s.reg .rax).toInt = v)
      (emitPushRax guard id) (Holds Λ (v :: vals) locals) := by
  refine Straight.append_free (emitGuard_passes hΛ .rcx guard (fun _ hs => hs.1) hroom ?_ (by decide))
    (emitGuard_free _ _) (putRax_update hΛ hroom hid)
  rintro s x f ⟨hs, hv⟩
  exact ⟨hs.scratch ⟨rfl, rfl, rfl, rfl⟩, hv⟩

theorem emitPushI64_holds (hv : isI64 v = true) :
    Straight (exec E) used (Holds Λ vals locals) (emitPushI64 v guard id)
      (Holds Λ (v :: vals) locals) := by
  have hrange : -2 ^ 63 ≤ v ∧ v < 2 ^ 63 := by simpa [isI64] using hv
  have hval : (BitVec.ofInt 64 v).toInt = v := by
    rw [BitVec.toInt_ofInt, Int.bmod_eq_of_le_mul_two] <;> omega
  refine Straight.append_free (emitGuard_passes hΛ .rax guard (fun _ hs => hs) hroom
    (fun s x f hs => hs.scratch ⟨rfl, rfl, rfl, rfl⟩) (by decide)) (emitGuard_free _ _) ?_
  refine Straight.append_free (Straight.runAll fun s hs => ?_) (not_labelled_instrs _)
    (emitUpdateDsHigh_holds hΛ hid)
  have hput : ∀ t, Holds Λ vals locals t → Holds Λ (v :: vals) locals (t.put (BitVec.ofInt 64 v)) := by
    intro t ht
    have := put_holds ht hΛ hroom (BitVec.ofInt 64 v)
    rwa [hval] at this
  unfold writeImm
  by_cases hsmall : imm32 v = true
  · refine ⟨_, ?_, hput s hs⟩
    rw [if_pos hsmall, List.singleton_append, runAll, exec, move, if_pos hsmall,
      put_stores hs hΛ hroom]
    rfl
  · have hlarge : imm64 v = true := by
      rw [imm64, Bool.and_eq_true, decide_eq_true_iff, decide_eq_true_iff]
      omega
    have hs₁ : Holds Λ vals locals (s.set .rax (BitVec.ofInt 64 v)) := hs.scratch ⟨rfl, rfl, rfl, rfl⟩
    have hmove : move E s (.reg .rax) (.imm v) = some (s.set .rax (BitVec.ofInt 64 v)) := if_pos hlarge
    refine ⟨_, ?_, hput _ hs₁⟩
    rw [if_neg hsmall, List.cons_append, List.singleton_append, runAll, exec, hmove, Option.map_some]
    show runAll (exec E) [.mov (.mem .r15 0) (.reg .rax), .alu .add .r15 (.imm 8)] _ = _
    rw [runAll, exec, move, State.set_reg_self, put_stores hs₁ hΛ hroom]
    rfl

end Pushes

/-! ## Operations on the topmost slots -/

variable (hΛ : Λ.Sound E)

include hΛ

theorem peek_runs {below : List Int} (disp : Int) (r : Reg) (above : List Int)
    (h : Holds Λ (above ++ v :: below) locals s) (hdisp : disp = -8 * (above.length + 1)) :
    ∃ t, move E s (.reg r) (.mem .r15 disp) = some (s.set r t) ∧ t.toInt = v := by
  have htop := h.top
  have hlim := hΛ.limit_lt
  have hfits : Λ.base + 8 * (above ++ v :: below).length ≤ Λ.limit := h.fits
  rw [List.length_append, List.length_cons] at htop hfits
  have hplace : s.place .r15 disp = Λ.base + 8 * below.length := place_eq (by omega) (by omega)
  refine ⟨s.load (Λ.base + 8 * below.length), ?_, ?_⟩
  · exact move_load hplace
  · rw [load_toInt]
    exact (slots_append.mp h.slots).2.1

theorem emitDup_holds (hroom : Λ.Room ((v :: vals).length + 1)) (hid : ¬used (.dsHigh id)) :
    Straight (exec E) used (Holds Λ (v :: vals) locals) (emitDup guard id)
      (Holds Λ (v :: v :: vals) locals) := by
  refine Straight.append_free (Straight.runAll fun s hs => ?_) (not_labelled_instrs _)
    (emitPushRax_holds hΛ hroom hid)
  obtain ⟨t, hmove, ht⟩ := peek_runs hΛ (-8) .rax [] hs rfl
  refine ⟨s.set .rax t, ?_, hs.scratch ⟨rfl, rfl, rfl, rfl⟩, by rw [State.set_reg_self, ht]⟩
  rw [runAll, exec, hmove]
  rfl

theorem emitDrop_holds :
    Straight (exec E) used (Holds Λ (v :: vals) locals) emitDrop (Holds Λ vals locals) := by
  refine Straight.runAll fun s hs => ?_
  have hfits : Λ.base + 8 * (vals.length + 1) ≤ Λ.limit := hs.fits
  have htop := hs.top
  have hlim := hΛ.limit_lt
  rw [List.length_cons] at htop
  refine ⟨{ s.set .r15 (s.reg .r15 - BitVec.ofInt 64 8) with flags := none }, rfl, ?_⟩
  exact
    { top := toNat_sub_imm (d := 8) (by omega) (by omega)
      limit := hs.limit
      frame := hs.frame
      fits := show Λ.base + 8 * vals.length ≤ Λ.limit by omega
      slots := hs.slots.2
      locals := hs.locals }

theorem emitSwap_holds :
    Straight (exec E) used (Holds Λ (b :: a :: vals) locals) emitSwap
      (Holds Λ (a :: b :: vals) locals) := by
  refine Straight.runAll fun s hs => ?_
  have htop := hs.top
  have hlim := hΛ.limit_lt
  have hfits : Λ.base + 8 * (vals.length + 2) ≤ Λ.limit := hs.fits
  rw [List.length_cons, List.length_cons] at htop
  obtain ⟨y, hmove₁, rfl⟩ := peek_runs hΛ (-8) .rax [] hs rfl
  have hs₁ : Holds Λ ([y.toInt] ++ a :: vals) locals (s.set .rax y) := hs.scratch ⟨rfl, rfl, rfl, rfl⟩
  obtain ⟨x, hmove₂, rfl⟩ := peek_runs hΛ (-16) .rcx [y.toInt] hs₁ rfl
  set s₂ := (s.set .rax y).set .rcx x with hs₂
  set up := Λ.base + 8 * (vals.length + 1) with hup
  set down := Λ.base + 8 * vals.length with hdown
  have hplace : s₂.place .r15 (-8) = up :=
    place_eq (show ((s.reg .r15).toNat : Int) + (-8) = _ by omega) (by omega)
  set s₃ : State := { s₂ with mem := s.mem.write up 8 x.toNat } with hs₃
  have hplace' : s₃.place .r15 (-16) = down :=
    place_eq (show ((s.reg .r15).toNat : Int) + (-16) = _ by omega) (by omega)
  have hstore : store E s₂ up x = some s₃ :=
    store_ok hΛ fun z hz hz' => .inl ⟨by omega, by omega⟩
  have hstore' : store E s₃ down y = some { s₃ with mem := s₃.mem.write down 8 y.toNat } :=
    store_ok hΛ fun z hz hz' => .inl ⟨by omega, by omega⟩
  refine ⟨{ s₃ with mem := s₃.mem.write down 8 y.toNat }, ?_, ?_⟩
  · have hmove₃ : move E s₂ (.mem .r15 (-8)) (.reg .rcx) = some s₃ := by
      rw [move, hplace]
      exact hstore
    have hmove₄ : move E s₃ (.mem .r15 (-16)) (.reg .rax) =
        some { s₃ with mem := s₃.mem.write down 8 y.toNat } := by
      rw [move, hplace']
      exact hstore'
    simp only [runAll, exec, hmove₁, hmove₂, hmove₃, hmove₄, Option.map_some]
  · have hrest : Slots s.mem Λ.base vals := hs.slots.2.2
    have hlow := hΛ.low_le
    have hcount := hΛ.locals_le
    have hapart := hΛ.apart
    exact
      { top := htop
        limit := hs.limit
        frame := hs.frame
        fits := hfits
        slots := by
          refine ⟨?_, ?_, (hrest.write (.inl (by omega))).write (.inl (by omega))⟩
          · show slotValue ((s.mem.write up 8 x.toNat).write down 8 y.toNat) up = x.toInt
            rw [slotValue_write_of_disjoint (by omega), slotValue_write, wrapI64_toNat]
          · show slotValue ((s.mem.write up 8 x.toNat).write down 8 y.toNat) down = y.toInt
            rw [slotValue_write, wrapI64_toNat]
        locals := (hs.locals.write (by omega)).write (by omega) }

theorem emitBinop_holds {op : Alu} (hid : ¬used (.dsHigh id))
    (hop : ∀ x y : Word64, x.toInt = a → y.toInt = b → (op.eval x y).toInt = v) :
    Straight (exec E) used (Holds Λ (b :: a :: vals) locals) (emitBinop op id)
      (Holds Λ (v :: vals) locals) := by
  refine Straight.append_free (Straight.runAll fun s hs => binary_runs hs hΛ ?_)
    (not_labelled_instrs _) (emitUpdateDsHigh_holds hΛ hid)
  intro t ha hb
  exact ⟨_, rfl, ⟨rfl, rfl, rfl, rfl⟩, by rw [← hop _ _ ha hb]; rfl⟩

theorem emitCmp_holds {c : Cond} {r : Bool} (hid : ¬used (.dsHigh id))
    (hc : ∀ x y : Word64, x.toInt = a → y.toInt = b → c.holds (x, y) = r) :
    Straight (exec E) used (Holds Λ (b :: a :: vals) locals) (emitCmp c id)
      (Holds Λ (boolVal r :: vals) locals) := by
  refine Straight.append_free (Straight.runAll fun s hs => binary_runs hs hΛ ?_)
    (not_labelled_instrs _) (emitUpdateDsHigh_holds hΛ hid)
  intro t ha hb
  set t₁ : State := { t with flags := some (t.reg .rax, t.reg .rcx) } with ht₁
  obtain ⟨t', hrun, hscratch, hv⟩ := setAl_runs (E := E) (s := t₁) (c := c) rfl
  have hfirst : Scratch t t₁ := ⟨rfl, rfl, rfl, rfl⟩
  refine ⟨t', ?_, hfirst.trans hscratch, by rw [hv, hc _ _ ha hb]⟩
  rw [runAll, exec, source, source]
  exact hrun

theorem emitBool_holds {op : Alu} {r : Bool}
    (hop : ∀ x y : Word64, x.toInt = a → y.toInt = b → (op.eval x y != 0) = r) :
    Straight (exec E) used (Holds Λ (b :: a :: vals) locals) (emitBool op)
      (Holds Λ (boolVal r :: vals) locals) := by
  refine Straight.runAll fun s hs => binary_runs hs hΛ ?_
  intro t ha hb
  set x := op.eval (t.reg .rax) (t.reg .rcx) with hx
  set t₁ : State := { t.set .rax x with flags := some (x, 0) } with ht₁
  obtain ⟨t', hrun, hscratch, hv⟩ := setAl_runs (E := E) (s := t₁) (c := .ne) rfl
  have hfirst : Scratch t t₁ := ⟨rfl, rfl, rfl, rfl⟩
  refine ⟨t', ?_, hfirst.trans hscratch, ?_⟩
  · simp only [runAll, exec, source, imm32, Option.map_some, Option.bind_some, ← hx]
    exact hrun
  · rw [hv, ← hop _ _ ha hb]
    rfl

theorem emitNot_holds :
    Straight (exec E) used (Holds Λ (a :: vals) locals) emitNot
      (Holds Λ (boolVal (a == 0) :: vals) locals) := by
  refine Straight.runAll fun s hs => unary_runs hs hΛ ?_
  intro t ha
  set t₁ : State := { t with flags := some (t.reg .rax, 0) } with ht₁
  obtain ⟨t', hrun, hscratch, hv⟩ := setAl_runs (E := E) (s := t₁) (c := .e) rfl
  have hfirst : Scratch t t₁ := ⟨rfl, rfl, rfl, rfl⟩
  refine ⟨t', ?_, hfirst.trans hscratch, ?_⟩
  · rw [runAll, exec, source, source]
    exact hrun
  · have hzero : Cond.e.holds (t.reg .rax, 0) = (a == 0) := by
      rw [Cond.holds, Bool.eq_iff_iff, beq_iff_eq, beq_iff_eq, ← ha, ← BitVec.toInt_inj]
      rfl
    rw [hv, hzero]

theorem emitStoreLocal_holds {slot : Nat} (hslot : slot < Λ.count) :
    Straight (exec E) used (Holds Λ (v :: vals) locals) (emitStoreLocal slot)
      (Holds Λ vals (locals.set slot v)) := by
  refine Straight.runAll fun s hs => ?_
  obtain ⟨s₁, hrun, hs₁, rfl, -⟩ := takeInto_runs hs hΛ (r := .rax) (by decide)
  have hcount := hΛ.locals_le
  have hlow := hΛ.low_le
  have hframe := hΛ.frame_lt
  have hsp := hs₁.frame
  have hplace : s₁.place .rsp (slot * 8) = Λ.fp + 8 * slot := place_eq (by omega) (by omega)
  set s₂ : State := { s₁ with mem := s₁.mem.write (Λ.fp + 8 * slot) 8 (s₁.reg .rax).toNat } with hs₂
  have hstore : store E s₁ (Λ.fp + 8 * slot) (s₁.reg .rax) = some s₂ :=
    store_ok hΛ fun y hy hy' => .inr (.inl ⟨by omega, by omega⟩)
  refine ⟨s₂, runAll_append hrun ?_, ?_⟩
  · rw [runAll, exec, move, hplace, hstore]
    rfl
  · have hfits : Λ.base + 8 * vals.length ≤ Λ.limit := hs₁.fits
    have hapart := hΛ.apart
    exact
      { top := hs₁.top
        limit := hs₁.limit
        frame := hs₁.frame
        fits := hs₁.fits
        slots := hs₁.slots.write (by omega)
        locals := by
          rw [← wrapI64_toNat]
          exact hs₁.locals.set hslot _ }

theorem emitLoadLocal_holds {slot : Nat} (hslot : slot < Λ.count)
    (hroom : Λ.Room (vals.length + 1)) (hid : ¬used (.dsHigh id)) :
    Straight (exec E) used (Holds Λ vals locals) (emitLoadLocal slot guard id)
      (Holds Λ (locals.getD slot 0 :: vals) locals) := by
  refine Straight.append_free (emitGuard_passes hΛ .rax guard (fun _ hs => hs) hroom
    (fun s x f hs => hs.scratch ⟨rfl, rfl, rfl, rfl⟩) (by decide)) (emitGuard_free _ _) ?_
  refine Segment.next (fun s hs => ?_) (putRax_update hΛ hroom hid)
  have hcount := hΛ.locals_le
  have hframe := hΛ.frame_lt
  have hsp := hs.frame
  have hplace : s.place .rsp (slot * 8) = Λ.fp + 8 * slot := place_eq (by omega) (by omega)
  refine ⟨s.set .rax (s.load (Λ.fp + 8 * slot)), ?_, hs.scratch ⟨rfl, rfl, rfl, rfl⟩, ?_⟩
  · rw [exec, move_load hplace]
    rfl
  · rw [State.set_reg_self, load_toInt, List.getD_eq_getElem?_getD, hs.locals slot hslot,
      Option.getD_some]

theorem emitPtrAddConst_holds {offset : Nat} (ho : offset < 2 ^ 31) (hid : ¬used (.dsHigh id)) :
    Straight (exec E) used (Holds Λ (a :: vals) locals) (emitPtrAddConst offset guard id)
      (Holds Λ (wrapI64 (a + offset) :: vals) locals) := by
  refine Segment.of_each fun s hs => ?_
  refine Straight.append_free (Straight.runAll ?_) (not_labelled_instrs _)
    (emitPushRax_holds hΛ hs.fits hid)
  rintro _ rfl
  obtain ⟨s₁, hrun, hs₁, rfl, -⟩ := takeInto_runs hs hΛ (r := .rax) (by decide)
  refine ⟨{ s₁.set .rax (s₁.reg .rax + BitVec.ofInt 64 offset) with flags := none },
    runAll_append hrun ?_, hs₁.scratch ⟨rfl, rfl, rfl, rfl⟩, ?_⟩
  · rw [runAll, exec, source, if_pos (imm32_of_lt ho)]
    rfl
  · show (s₁.reg .rax + BitVec.ofInt 64 offset).toInt = _
    rw [BitVec.toInt_add, BitVec.toInt_ofInt, Int.add_bmod_bmod]
    rfl

theorem emitPtrAddIndex_holds {scale : Nat} (hk : scale < 2 ^ 31) (hid : ¬used (.dsHigh id)) :
    Straight (exec E) used (Holds Λ (b :: a :: vals) locals) (emitPtrAddIndex scale guard id)
      (Holds Λ (wrapI64 (a + b * scale) :: vals) locals) := by
  refine Segment.of_each fun s hs => ?_
  have hfits : Λ.base + 8 * (vals.length + 2) ≤ Λ.limit := hs.fits
  refine Straight.append_free (Straight.runAll ?_) (not_labelled_instrs _)
    (emitPushRax_holds hΛ (show Λ.base + 8 * (vals.length + 1) ≤ Λ.limit by omega) hid)
  rintro _ rfl
  obtain ⟨s₁, hrun₁, hs₁, hb, -⟩ := takeInto_runs hs hΛ (r := .rcx) (by decide)
  obtain ⟨s₂, hrun₂, hs₂, ha, hkeep⟩ := takeInto_runs hs₁ hΛ (r := .rax) (by decide)
  rw [← hkeep .rcx (by decide) (by decide)] at hb
  set y := s₂.reg .rcx * BitVec.ofInt 64 scale with hy
  set s₃ : State := { s₂.set .rcx y with flags := none } with hs₃
  refine ⟨{ s₃.set .rax (s₂.reg .rax + y) with flags := none },
    runAll_append (runAll_append hrun₁ hrun₂) ?_, hs₂.scratch ⟨rfl, rfl, rfl, rfl⟩, ?_⟩
  · rw [runAll, exec, source, if_pos (imm32_of_lt hk)]
    rfl
  · show (s₂.reg .rax + y).toInt = _
    rw [BitVec.toInt_add, hy, BitVec.toInt_mul, BitVec.toInt_ofInt, Int.add_bmod_bmod, ha, hb,
      ← Int.add_bmod_bmod, Int.mul_bmod_bmod, Int.add_bmod_bmod]
    rfl

/-! ## Control -/

theorem test_runs (h : Holds Λ (v :: vals) locals s) :
    ∃ s' x, runAll (exec E) (takeInto .rax ++ [.cmp (.reg .rax) (.imm 0)]) s = some s' ∧
      Holds Λ vals locals s' ∧ s'.flags = some (x, 0) ∧ x.toInt = v := by
  obtain ⟨s₁, hrun, hs₁, hv, -⟩ := takeInto_runs h hΛ (r := .rax) (by decide)
  refine ⟨{ s₁ with flags := some (s₁.reg .rax, 0) }, s₁.reg .rax, runAll_append hrun ?_,
    hs₁.scratch ⟨rfl, rfl, rfl, rfl⟩, rfl, hv⟩
  rw [runAll, exec, source, source]
  rfl

omit hΛ in
theorem cond_e_zero (x : Word64) : Cond.e.holds (x, 0) = (x.toInt == 0) := by
  rw [Cond.holds, Bool.eq_iff_iff, beq_iff_eq, beq_iff_eq, ← BitVec.toInt_inj]
  rfl

omit hΛ in
theorem cond_ne_zero (x : Word64) : Cond.ne.holds (x, 0) = (x.toInt != 0) := by
  rw [bne, ← cond_e_zero]
  rfl

omit hΛ in
theorem emitTrapWithLoc_leaves {cfg : Settings} {code : TrapCode} {span : Span} {P : State → Prop} :
    Segment (exec E) used P (asm (emitTrapWithLoc cfg (trapCodeU32 code) span)) fun e s =>
      ∃ w, e = .out w ∧ (w = .langTrap ∨ w = .langTrapLoc) ∧
        (s.reg .rdi).toNat = trapCodeU32 code := by
  have hcode : trapCodeU32 code < 2 ^ 31 := by cases code <;> decide
  have himm : ∀ n : Nat, n < 2 ^ 64 → imm64 (n : Int) = true := by
    intro n hn
    rw [imm64, Bool.and_eq_true, decide_eq_true_iff, decide_eq_true_iff]
    omega
  have hset : ∀ (r : Reg) (n : Nat) (s : State), n < 2 ^ 64 →
      exec E (.mov (.reg r) (.imm n)) s = some (.next (s.set r (BitVec.ofInt 64 n))) := by
    intro r n s hn
    rw [exec, move, if_pos (himm n hn)]
    rfl
  have hrdi : ∀ s : State, ((s.set .rdi (BitVec.ofInt 64 (trapCodeU32 code))).reg .rdi).toNat =
      trapCodeU32 code := by
    intro s
    rw [State.set_reg_self, BitVec.toNat_ofInt]
    omega
  unfold emitTrapWithLoc
  by_cases hloc : cfg.debugTrapLoc = true
  · rw [if_pos hloc]
    refine Segment.next (R := fun s => (s.reg .rdi).toNat = trapCodeU32 code)
      (fun s _ => ⟨_, hset .rdi _ s (by omega), hrdi s⟩) ?_
    refine Segment.next (R := fun s => (s.reg .rdi).toNat = trapCodeU32 code)
      (fun s hs => ⟨_, hset .rsi 1 s (by omega), hs⟩) ?_
    refine Segment.next (R := fun s => (s.reg .rdi).toNat = trapCodeU32 code)
      (fun s hs => ⟨_, hset .rdx _ s (by omega), hs⟩) ?_
    refine Segment.next (R := fun s => (s.reg .rdi).toNat = trapCodeU32 code)
      (fun s hs => ⟨_, hset .rcx _ s (by omega), hs⟩) ?_
    exact Segment.leave fun s hs => ⟨_, _, rfl, .langTrapLoc, rfl, .inr rfl, hs⟩
  · rw [if_neg hloc]
    refine Segment.next (R := fun s => (s.reg .rdi).toNat = trapCodeU32 code)
      (fun s _ => ⟨_, hset .rdi _ s (by omega), hrdi s⟩) ?_
    exact Segment.leave fun s hs => ⟨_, _, rfl, .langTrap, rfl, .inl rfl, hs⟩

theorem emitTrapIfFalse_holds {cfg : Settings} {code : TrapCode} {span : Span} {ok : Nat}
    (hok : ¬used (.trapOk ok)) :
    Segment (exec E) used (Holds Λ (v :: vals) locals) (emitTrapIfFalse cfg code span ok) fun e s =>
      (v ≠ 0 ∧ e = .through ∧ Holds Λ vals locals s) ∨
        (v = 0 ∧ ∃ w, e = .out w ∧ (w = .langTrap ∨ w = .langTrapLoc) ∧
          (s.reg .rdi).toNat = trapCodeU32 code) := by
  refine Straight.append_free (R := fun s => Holds Λ vals locals s ∧
    ∃ x : Word64, s.flags = some (x, 0) ∧ x.toInt = v) (Straight.runAll fun s hs => ?_)
    (not_labelled_instrs _) ?_
  · obtain ⟨s', x, hrun, hs', hflags, hx⟩ := test_runs hΛ hs
    exact ⟨s', hrun, hs', x, hflags, hx⟩
  · refine Segment.over (T := fun _ => v = 0) (R := fun _ => v = 0) hok (not_labelled_instrs _ _)
      ?_ ?_ (Segment.of_each fun s hv => emitTrapWithLoc_leaves.post fun e t ht => .inr ⟨hv, ht⟩)
    · rintro s ⟨hs, x, hflags, rfl⟩ hne
      refine ⟨s, ?_, .inl ⟨hne, rfl, hs⟩⟩
      simp only [exec, hflags, Option.map_some, cond_ne_zero, bne_iff_ne.mpr hne, if_pos]
    · rintro s ⟨hs, x, hflags, rfl⟩ hzero
      refine ⟨s, ?_, hzero⟩
      simp only [exec, hflags, Option.map_some, cond_ne_zero, hzero]
      rfl

theorem emitBrIf_holds {base : Nat} {thenTgt elseTgt : BlockId} :
    Segment (exec E) used (Holds Λ (v :: vals) locals) (emitBrIf base thenTgt elseTgt) fun e s =>
      e = .to (.block base (if v ≠ 0 then thenTgt else elseTgt)) ∧ Holds Λ vals locals s := by
  refine Straight.append_free (R := fun s => Holds Λ vals locals s ∧
    ∃ x : Word64, s.flags = some (x, 0) ∧ x.toInt = v) (Straight.runAll fun s hs => ?_)
    (not_labelled_instrs _) ?_
  · obtain ⟨s', x, hrun, hs', hflags, hx⟩ := test_runs hΛ hs
    exact ⟨s', hrun, hs', x, hflags, hx⟩
  · by_cases hv : v = 0
    · refine Segment.jump fun s hs => ?_
      obtain ⟨hs, x, hflags, hx⟩ := hs
      refine ⟨.block base elseTgt, s, ?_, ?_, hs⟩
      · simp only [exec, hflags, Option.map_some, cond_e_zero, hx, hv]
        rfl
      · rw [if_neg (by simpa using hv)]
    · refine Segment.next (R := Holds Λ vals locals) ?_
        (Segment.jump fun s hs => ⟨.block base thenTgt, s, rfl, ?_, hs⟩)
      · rintro s ⟨hs, x, hflags, hx⟩
        refine ⟨s, ?_, hs⟩
        simp only [exec, hflags, Option.map_some, cond_e_zero, hx, beq_eq_false_iff_ne.mpr hv]
        rfl
      · rw [if_pos hv]

end Tyu.X86

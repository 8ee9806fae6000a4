import Tyu.Ir.Verify
import Tyu.Verifier.Interp

/-!
# The transfer table is sound

`Covers s m` says that the abstract state `s` describes the machine `m`: the stacks have the same
depth, every value lies in the interval at its position, and likewise for the locals.
-/

namespace Tyu

open Lib

def Slot.Describes (slot : Slot) (v : Int) : Prop := slot.iv.contains v = true

theorem Slot.describes_top (v : Int) : Slot.top.Describes v := rfl

theorem Slot.describes_computed_top (v : Int) : (Slot.computed .top).Describes v := rfl

structure Covers (s : State) (m : Machine) : Prop where
  stack : List.Forall₂ (fun slot c => slot.Describes c.val) s.stack m.stack.items
  room : s.locals.length ≤ m.locals.length
  locals : ∀ i, (s.locals.getD i .top).Describes (m.getLocal i).val

def CastInRange (sr : SubtypeRange) (kind : OpKind) (m : Machine) : Prop :=
  ∀ src tgt lo hi c rest, kind = .cast src tgt → sr tgt = some (lo, hi) →
    m.stack.items = c :: rest → lo ≤ c.val ∧ c.val ≤ hi

namespace Covers

variable {s : State} {m m' : Machine}

theorem depth_eq (h : Covers s m) : s.stack.length = m.stack.depth := h.stack.length_eq

theorem ofSame (h : Covers s m) (hsame : m.SameBut m') {stack : List Slot}
    (hstack : List.Forall₂ (fun slot c => slot.Describes c.val) stack m'.stack.items) :
    Covers { s with stack := stack } m' := by
  refine ⟨hstack, ?_, ?_⟩
  · rw [hsame.locals]
    exact h.room
  · intro i
    have hi : m'.getLocal i = m.getLocal i := by
      unfold Machine.getLocal
      rw [hsame.locals]
    rw [hi]
    exact h.locals i

theorem push (h : Covers s m) {c : Cell} (hp : m.push c = .ok m') {slot : Slot}
    (hslot : slot.Describes c.val) : Covers (s.push slot) m' := by
  obtain ⟨hitems, hsame⟩ := Machine.of_push hp
  have hroom : s.stack.length < MAX_SLOTS := by
    have hb := m'.stack.bounded
    rw [hitems] at hb
    have hd := h.stack.length_eq
    rw [hd]
    exact hb
  unfold State.push
  rw [if_neg (Nat.not_le.mpr hroom)]
  refine h.ofSame hsame ?_
  rw [hitems]
  exact .cons hslot h.stack

theorem pop (h : Covers s m) {c : Cell} (hp : m.pop = .ok (c, m')) :
    s.popVal.1.Describes c.val ∧ Covers s.popVal.2 m' := by
  obtain ⟨hitems, hsame⟩ := Machine.of_pop hp
  have hstack := h.stack
  rw [hitems] at hstack
  obtain ⟨slot, rest, hslot, hrest, hs⟩ := List.forall₂_cons_right_iff.mp hstack
  unfold State.popVal
  rw [hs]
  exact ⟨hslot, h.ofSame hsame hrest⟩

theorem popVals {n : Nat} {cs : List Cell} (h : Covers s m) (hp : m.popN n = .ok (cs, m')) :
    Covers (s.popVals n).2 m' := by
  obtain ⟨hitems, hlen, hsame⟩ := Machine.of_popN hp
  have hpop : ∀ (n : Nat) (s : State) (cs rest : List Cell), cs.length = n →
      List.Forall₂ (fun slot c => slot.Describes c.val) s.stack (cs ++ rest) →
      List.Forall₂ (fun slot c => slot.Describes c.val) (s.popVals n).2.stack rest ∧
        (s.popVals n).2.locals = s.locals := by
    intro n
    induction n with
    | zero =>
      intro s cs rest hcs hst
      rw [List.length_eq_zero_iff.mp hcs] at hst
      exact ⟨hst, rfl⟩
    | succ n ih =>
      intro s cs rest hcs hst
      cases cs with
      | nil => cases hcs
      | cons c cs =>
        obtain ⟨slot, srest, -, hrest, hs⟩ := List.forall₂_cons_right_iff.mp hst
        have hpv : s.popVal = (slot, { s with stack := srest }) := by
          unfold State.popVal
          rw [hs]
        have := ih { s with stack := srest } cs rest (Nat.succ.inj hcs) hrest
        unfold State.popVals
        rw [hpv]
        exact this
  have hstack := h.stack
  rw [hitems] at hstack
  obtain ⟨hst, hloc⟩ := hpop n s cs m'.stack.items hlen hstack
  have hcov := h.ofSame hsame hst
  rwa [← hloc] at hcov

theorem pushTops {cs : List Cell} (h : Covers s m) (hp : m.pushAll cs = .ok m') :
    Covers (s.pushVals (List.replicate cs.length (.computed .top))) m' := by
  obtain ⟨hitems, hsame⟩ := Machine.of_pushAll hp
  have hb : (cs.reverse ++ m.stack.items).length ≤ 64 := hitems ▸ m'.stack.bounded
  have hpush : ∀ (cs : List Cell) (s : State) (items : List Cell),
      List.Forall₂ (fun slot c => slot.Describes c.val) s.stack items →
      (cs.reverse ++ items).length ≤ 64 →
      List.Forall₂ (fun slot c => slot.Describes c.val)
          (s.pushVals (List.replicate cs.length (.computed .top))).stack (cs.reverse ++ items) ∧
        (s.pushVals (List.replicate cs.length (.computed .top))).locals = s.locals := by
    intro cs
    induction cs with
    | nil => intro s items hst _; exact ⟨hst, rfl⟩
    | cons c cs ih =>
      intro s items hst hlen
      have hroom : s.stack.length < MAX_SLOTS := by
        have hd := hst.length_eq
        simp only [List.length_append, List.length_reverse, List.length_cons] at hlen
        unfold MAX_SLOTS
        omega
      have hp : s.push (.computed .top) = { s with stack := .computed .top :: s.stack } := by
        unfold State.push
        rw [if_neg (Nat.not_le.mpr hroom)]
      have := ih { s with stack := .computed .top :: s.stack } (c :: items)
        (.cons (Slot.describes_computed_top _) hst) (by simpa using hlen)
      rw [List.reverse_cons, List.append_assoc, List.singleton_append]
      unfold State.pushVals at this ⊢
      rw [List.length_cons, List.replicate_succ, List.foldl_cons, hp]
      exact this
  obtain ⟨hst, hloc⟩ := hpush cs s m.stack.items h.stack hb
  rw [← hitems] at hst
  have hcov := h.ofSame hsame hst
  rwa [← hloc] at hcov

theorem setLocal (h : Covers s m) {slot : Slot} {v : Value} (hv : slot.Describes v.val) (i : Nat) :
    Covers { s with locals := s.locals.set i slot } (m.setLocal i v) := by
  refine ⟨h.stack, ?_, ?_⟩
  · unfold Machine.setLocal
    rw [List.length_set, List.length_set]
    exact h.room
  · intro j
    have hroom := h.room
    have hj := h.locals j
    unfold Machine.getLocal at hj ⊢
    unfold Machine.setLocal
    by_cases hij : i = j
    · subst hij
      by_cases hlt : i < s.locals.length
      · rw [List.getD_eq_getElem _ _ (by simpa using hlt), List.getElem_set_self,
          List.getD_eq_getElem _ _ (by simpa using Nat.lt_of_lt_of_le hlt hroom),
          List.getElem_set_self]
        exact hv
      · rw [List.getD_eq_default _ _ (by simpa using hlt)]
        exact Slot.describes_top _
    · simp only [List.getD_eq_getElem?_getD] at hj ⊢
      rw [List.getElem?_set_ne hij, List.getElem?_set_ne hij]
      exact hj

theorem forget (h : Covers s m) : Covers s m.tick.forget := by
  refine ⟨?_, ?_, ?_⟩
  · have hitems : m.tick.forget.stack.items = m.stack.items.map Cell.forget := rfl
    rw [hitems, List.forall₂_map_right_iff]
    exact h.stack
  · have hloc : m.tick.forget.locals = m.locals.map Value.forget := rfl
    rw [hloc, List.length_map]
    exact h.room
  · intro i
    have hi : (m.tick.forget.getLocal i).val = (m.getLocal i).val := by
      have hloc : m.tick.forget.locals = m.locals.map Value.forget := rfl
      unfold Machine.getLocal
      rw [hloc, List.getD_eq_getElem?_getD, List.getD_eq_getElem?_getD, List.getElem?_map]
      cases m.locals[i]? <;> rfl
    rw [hi]
    exact h.locals i

end Covers

/-! ## One operation -/

section Step

variable {M : Type} [MemModel M] {W : World} {s : State} {m m' : Machine} {ctl : Control}

theorem covers_pushVal (h : Covers s m) {v : Int} {ty : TypeId}
    (hex : pushVal m v ty = .ok (m', ctl)) {slot : Slot} (hslot : slot.Describes v) :
    Covers (s.push slot) m' := by
  unfold pushVal at hex
  simp only [bind_eq_ok, pure_eq_ok, Prod.mk.injEq] at hex
  obtain ⟨m₁, hpush, rfl, -⟩ := hex
  exact h.push hpush hslot

theorem covers_binop (h : Covers s m) {ty : TypeId} {f : Int → Int → Int}
    {g : Interval → Interval → Interval} (hex : binop m ty f = .ok (m', ctl))
    (hfg : ∀ {a b : Interval} {x y : Int}, a.contains x = true → b.contains y = true →
      (g a b).contains (f x y) = true) : Covers (s.binop g) m' := by
  unfold binop at hex
  simp only [bind_eq_ok, pure_eq_ok, Prod.exists, Prod.mk.injEq] at hex
  obtain ⟨b, m₁, hb, a, m₂, ha, m₃, hpush, rfl, -⟩ := hex
  obtain ⟨hsb, h₁⟩ := h.pop hb
  obtain ⟨hsa, h₂⟩ := h₁.pop ha
  exact h₂.push hpush (hfg hsa hsb)

theorem covers_readTop (h : Covers s m) {ty : TypeId} {f : Int → Int}
    (hex : readTop m ty f = .ok (m', ctl)) {iv : Interval}
    (hiv : ∀ c rest, m.stack.items = c :: rest → iv.contains (f c.val) = true) :
    Covers (s.popVal.2.push (.computed iv)) m' := by
  unfold readTop at hex
  simp only [bind_eq_ok, pure_eq_ok, Prod.exists, Prod.mk.injEq] at hex
  obtain ⟨a, m₁, ha, m₂, hpush, rfl, -⟩ := hex
  exact (h.pop ha).2.push hpush (hiv a m₁.stack.items (Machine.of_pop ha).1)

theorem covers_pop2 (h : Covers s m) {a b : Cell} {m₁ m₂ : Machine} (hb : m.pop = .ok (b, m₁))
    (ha : m₁.pop = .ok (a, m₂)) : Covers s.pop2Val.2.2 m₂ := ((h.pop hb).2.pop ha).2

/-- What an operation reads, of memory or of a register, lies in the answer of the memory
model. -/
def ReadAnswered (W : World) (s : State) (kind : OpKind) (wordBits : Nat) (mem : M) (m : Machine) :
    Prop :=
  ∀ c rest, m.stack.items = c :: rest →
    match kind with
    | .load _ =>
      (MemModel.load mem s.popVal.1.iv wordBits).contains (W.load m.clock m.mem c.val) = true
    | .mmioVolLoad _ place _ _ _ | .mmioVolLoadField _ _ place _ _ _ _ _ =>
      (MemModel.apertureRead mem place wordBits).1.contains (W.mmioRead m.clock m.mem kind) = true
    | _ => True

theorem contains_of_eq_top {iv : Interval} {v : Int} (h : iv = .top) : iv.contains v = true := by
  rw [h, Interval.contains_top]

theorem readAnswered_of_blind [BlindMem M] (W : World) (s : State) (kind : OpKind)
    (wordBits : Nat) (mem : M) (m : Machine) : ReadAnswered W s kind wordBits mem m := by
  intro c rest _
  cases kind with
  | load ty => exact contains_of_eq_top (BlindMem.load_top _ _ _)
  | mmioVolLoad ty place rk am bar => exact contains_of_eq_top (BlindMem.read_top _ _ _)
  | mmioVolLoadField regTy fieldTy place mask shift rk am bar =>
    exact contains_of_eq_top (BlindMem.read_top _ _ _)
  | _ => trivial

/-- **One operation.**  The transfer of an operation describes the machine after it. -/
theorem step_covers_of {kind : OpKind} {sr : SubtypeRange} {wordBits : Nat} {mem : M}
    (h : Covers s m) (hcast : CastInRange sr kind m) (hread : ReadAnswered W s kind wordBits mem m)
    (hex : execOp W kind m = .ok (m', ctl)) (hctl : ∀ code, ctl ≠ .trap code) :
    Covers (s.step kind sr wordBits mem).1 m' := by
  cases kind with
  | constI64 v => exact covers_pushVal h hex (Interval.contains_constVal v)
  | constBool b => exact covers_pushVal h hex (Interval.contains_constVal (boolVal b))
  | constStr span => exact covers_pushVal h hex (Slot.describes_top _)
  | addrOf place isMut base => exact covers_pushVal h hex (Slot.describes_top _)
  | scopedEnter ty len => exact covers_pushVal h hex (Slot.describes_top _)
  | taskSpawn name taskTy => exact covers_pushVal h hex (Slot.describes_top _)
  | mmioPlace place aperture offset =>
    simp only [execOp, bind_eq_ok, pure_eq_ok, Prod.mk.injEq] at hex
    obtain ⟨m₁, hpush, rfl, -⟩ := hex
    exact h.push hpush (Slot.describes_top _)
  | ptrAddConst ty offset =>
    simp only [execOp, bind_eq_ok, pure_eq_ok, Prod.exists, Prod.mk.injEq] at hex
    obtain ⟨p, m₁, hpop, m₂, hpush, rfl, -⟩ := hex
    exact (h.pop hpop).2.push hpush (Slot.describes_top _)
  | ptrAddIndex ty scale =>
    simp only [execOp, bind_eq_ok, pure_eq_ok, Prod.exists, Prod.mk.injEq] at hex
    obtain ⟨i, m₁, hpop₁, p, m₂, hpop₂, m₃, hpush, rfl, -⟩ := hex
    exact (covers_pop2 h hpop₁ hpop₂).push hpush (Slot.describes_top _)
  | dup ty =>
    simp only [execOp, bind_eq_ok, pure_eq_ok, Prod.exists, Prod.mk.injEq] at hex
    obtain ⟨c, m₁, hpop, m₂, hpush₁, m₃, hpush₂, rfl, -⟩ := hex
    obtain ⟨hc, h₁⟩ := h.pop hpop
    exact (h₁.push hpush₁ hc).push hpush₂ hc
  | drop ty =>
    simp only [execOp, bind_eq_ok, pure_eq_ok, Prod.exists, Prod.mk.injEq] at hex
    obtain ⟨c, m₁, hpop, rfl, -⟩ := hex
    exact (h.pop hpop).2
  | swap a b =>
    simp only [execOp, bind_eq_ok, pure_eq_ok, Prod.exists, Prod.mk.injEq] at hex
    obtain ⟨cb, m₁, hpop₁, ca, m₂, hpop₂, m₃, hpush₁, m₄, hpush₂, rfl, -⟩ := hex
    obtain ⟨hb, h₁⟩ := h.pop hpop₁
    obtain ⟨ha, h₂⟩ := h₁.pop hpop₂
    exact (h₂.push hpush₁ hb).push hpush₂ ha
  | addI64 =>
    rw [execOp] at hex
    exact covers_binop h hex Interval.contains_add
  | subI64 =>
    rw [execOp] at hex
    exact covers_binop h hex Interval.contains_sub
  | mulI64 =>
    rw [execOp] at hex
    exact covers_binop h hex Interval.contains_mul
  | cmp out k =>
    rw [execOp] at hex
    exact covers_binop h hex fun hx hy => boolIv_contains (triCmp_allows hx hy)
  | andBool =>
    rw [execOp] at hex
    exact covers_binop h hex fun hx hy =>
      boolIv_contains (triAnd_allows (triFromBoolIv_allows hx) (triFromBoolIv_allows hy))
  | orBool =>
    rw [execOp] at hex
    exact covers_binop h hex fun hx hy =>
      boolIv_contains (triOr_allows (triFromBoolIv_allows hx) (triFromBoolIv_allows hy))
  | notBool =>
    simp only [execOp, bind_eq_ok, pure_eq_ok, Prod.exists, Prod.mk.injEq] at hex
    obtain ⟨a, m₁, hpop, m₂, hpush, rfl, -⟩ := hex
    obtain ⟨ha, h₁⟩ := h.pop hpop
    have hnot := triNot_allows (triFromBoolIv_allows ha)
    have hval : (!(a.val != 0)) = (a.val == 0) := by
      rw [bne, Bool.not_not]
    rw [hval] at hnot
    exact h₁.push hpush (boolIv_contains hnot)
  | interruptDisable =>
    cases pure_eq_ok.mp hex
    exact h
  | interruptEnable =>
    cases pure_eq_ok.mp hex
    exact h
  | localSet slot ty =>
    simp only [execOp, bind_eq_ok, pure_eq_ok, Prod.exists, Prod.mk.injEq] at hex
    obtain ⟨c, m₁, hpop, rfl, -⟩ := hex
    obtain ⟨hc, h₁⟩ := h.pop hpop
    exact h₁.setLocal hc slot
  | localGet slot ty =>
    simp only [execOp, bind_eq_ok, pure_eq_ok, Prod.mk.injEq] at hex
    obtain ⟨m₁, hpush, rfl, -⟩ := hex
    exact h.push hpush (h.locals slot)
  | cast src tgt =>
    simp only [execOp, bind_eq_ok, pure_eq_ok, Prod.exists, Prod.mk.injEq] at hex
    obtain ⟨c, m₁, hpop, m₂, hpush, rfl, -⟩ := hex
    obtain ⟨hc, h₁⟩ := h.pop hpop
    refine h₁.push hpush ?_
    cases hsr : sr tgt with
    | none => exact hc
    | some r =>
      obtain ⟨lo, hi⟩ := r
      obtain ⟨hlo, hhi⟩ := hcast src tgt lo hi c m₁.stack.items rfl hsr (Machine.of_pop hpop).1
      exact Interval.contains_castNarrow hc hlo hhi
  | bitcast src tgt =>
    simp only [execOp, bind_eq_ok, pure_eq_ok, Prod.exists, Prod.mk.injEq] at hex
    obtain ⟨c, m₁, hpop, m₂, hpush, rfl, -⟩ := hex
    obtain ⟨hc, h₁⟩ := h.pop hpop
    exact h₁.push hpush hc
  | call name sig performs requires bound =>
    simp only [execOp, bind_eq_ok, Prod.exists] at hex
    obtain ⟨args, m₁, hpop, hex⟩ := hex
    have h₁ := h.popVals hpop
    split at hex
    · cases pure_eq_ok.mp hex
      exact absurd rfl (hctl _)
    · simp only [bind_eq_ok, pure_eq_ok, Prod.mk.injEq] at hex
      obtain ⟨m₂, hpush, rfl, -⟩ := hex
      have h₂ := h₁.pushTops hpush
      rw [callResults, List.length_mapIdx] at h₂
      exact h₂
  | load ty => exact covers_readTop h hex hread
  | store ty =>
    simp only [execOp, bind_eq_ok, pure_eq_ok, Prod.exists, Prod.mk.injEq] at hex
    obtain ⟨v, m₁, hpop₁, a, m₂, hpop₂, rfl, -⟩ := hex
    obtain ⟨hst, hroom, hloc⟩ := covers_pop2 h hpop₁ hpop₂
    exact ⟨hst, hroom, hloc⟩
  | mmioVolLoad ty place rk am bar =>
    rw [execOp] at hex
    exact covers_readTop h hex hread
  | mmioVolLoadField regTy fieldTy place mask shift rk am bar =>
    rw [execOp] at hex
    exact covers_readTop h hex hread
  | mmioVolStore ty place wk rk am bar =>
    simp only [execOp, bind_eq_ok, pure_eq_ok, Prod.exists, Prod.mk.injEq] at hex
    obtain ⟨v, m₁, hpop₁, a, m₂, hpop₂, rfl, -⟩ := hex
    exact covers_pop2 h hpop₁ hpop₂
  | mmioVolStoreField regTy fieldTy place mask shift wk rk am bar =>
    simp only [execOp, bind_eq_ok, pure_eq_ok, Prod.exists, Prod.mk.injEq] at hex
    obtain ⟨v, m₁, hpop₁, a, m₂, hpop₂, rfl, -⟩ := hex
    exact covers_pop2 h hpop₁ hpop₂
  | trapIfFalse code =>
    simp only [execOp, bind_eq_ok, pure_eq_ok, Prod.exists, Prod.mk.injEq] at hex
    obtain ⟨c, m₁, hpop, rfl, -⟩ := hex
    exact (h.pop hpop).2
  | br target =>
    cases pure_eq_ok.mp hex
    exact h
  | brIf thenTgt elseTgt =>
    simp only [execOp, bind_eq_ok, pure_eq_ok, Prod.exists, Prod.mk.injEq] at hex
    obtain ⟨c, m₁, hpop, rfl, -⟩ := hex
    exact (h.pop hpop).2
  | ret =>
    cases pure_eq_ok.mp hex
    exact h

theorem step_covers [BlindMem M] {kind : OpKind} {sr : SubtypeRange} {wordBits : Nat} {mem : M}
    (h : Covers s m) (hcast : CastInRange sr kind m) (hex : execOp W kind m = .ok (m', ctl))
    (hctl : ∀ code, ctl ≠ .trap code) : Covers (s.step kind sr wordBits mem).1 m' :=
  step_covers_of h hcast (readAnswered_of_blind W s kind wordBits mem m) hex hctl

end Step

namespace State

theorem popVal_length (s : State) : s.popVal.2.stack.length = s.stack.length - 1 := by
  unfold popVal
  split <;> simp_all

@[simp] theorem popVal_locals (s : State) : s.popVal.2.locals = s.locals := by
  unfold popVal
  split <;> rfl

theorem popVals_length (s : State) (n : Nat) :
    (s.popVals n).2.stack.length = s.stack.length - n := by
  induction n generalizing s with
  | zero => rfl
  | succ n ih =>
    show (s.popVal.2.popVals n).2.stack.length = _
    rw [ih, popVal_length]
    omega

@[simp] theorem popVals_locals (s : State) (n : Nat) : (s.popVals n).2.locals = s.locals := by
  induction n generalizing s with
  | zero => rfl
  | succ n ih => exact (ih s.popVal.2).trans s.popVal_locals

theorem push_length {s : State} (slot : Slot) (h : s.stack.length < MAX_SLOTS) :
    (s.push slot).stack.length = s.stack.length + 1 := by
  unfold push
  rw [if_neg (Nat.not_le.mpr h), List.length_cons]

@[simp] theorem push_locals (s : State) (slot : Slot) : (s.push slot).locals = s.locals := by
  unfold push
  split <;> rfl

theorem pushVals_length {s : State} (slots : List Slot)
    (h : s.stack.length + slots.length ≤ MAX_SLOTS) :
    (s.pushVals slots).stack.length = s.stack.length + slots.length := by
  induction slots generalizing s with
  | nil => rfl
  | cons x xs ih =>
    rw [List.length_cons] at h
    have hpush := push_length (s := s) x (by omega)
    show ((s.push x).pushVals xs).stack.length = _
    rw [ih (by omega), hpush, List.length_cons]
    omega

@[simp] theorem pushVals_locals (s : State) (slots : List Slot) :
    (s.pushVals slots).locals = s.locals := by
  induction slots generalizing s with
  | nil => rfl
  | cons x xs ih => exact (ih (s.push x)).trans (s.push_locals x)

section StepLength

variable {M : Type} [MemModel M]

/-- The transfer of an operation takes and leaves as many entries as the operation;
entries that are missing are not taken. -/
theorem step_length {s : State} {kind : OpKind} {sr : SubtypeRange} {wordBits : Nat} {mem : M}
    (h : s.stack.length - kind.pops + kind.pushes ≤ MAX_SLOTS) :
    (s.step kind sr wordBits mem).1.stack.length = s.stack.length - kind.pops + kind.pushes := by
  have hp := s.popVal_length
  have hp2 := s.popVal.2.popVal_length
  have push := @push_length
  cases kind with
  | call name sig performs requires bound =>
    simp only [OpKind.pops, OpKind.pushes] at h ⊢
    have hpop := s.popVals_length sig.inLen
    show ((s.popVals sig.inLen).2.pushVals _).stack.length = _
    rw [pushVals_length _ (by rw [List.length_replicate]; omega), List.length_replicate, hpop]
  | _ =>
    simp only [OpKind.pops, OpKind.pushes] at h ⊢
    simp only [step, pushTop, binop, pop2Val]
    grind

theorem step_locals_length {s : State} {kind : OpKind} {sr : SubtypeRange} {wordBits : Nat}
    {mem : M} : (s.step kind sr wordBits mem).1.locals.length = s.locals.length := by
  cases kind <;> simp [step, pushTop, binop, pop2Val]

end StepLength

end State

/-! ## Joins -/

section Zip

variable {α : Type} {R : Slot → α → Prop} {f : Slot → Slot → Slot}

theorem zipBottom_eq {n : Nat} {a b : List Slot} (hlen : a.length = b.length)
    (hn : a.length ≤ n) : zipBottom f n a b = List.zipWith f a b := by
  unfold zipBottom
  rw [← List.reverse_zipWith hlen, List.take_of_length_le, List.reverse_reverse]
  rw [List.length_reverse, List.length_zipWith, ← hlen, Nat.min_self]
  exact hn

theorem forall₂_zipWith_left (hf : ∀ x y c, R x c → R (f x y) c) {a b : List Slot} {cs : List α}
    (hlen : a.length = b.length) (h : List.Forall₂ R a cs) :
    List.Forall₂ R (List.zipWith f a b) cs := by
  induction h generalizing b with
  | nil => exact .nil
  | cons hx _ ih =>
    cases b with
    | nil => cases hlen
    | cons y b => exact .cons (hf _ y _ hx) (ih (Nat.succ.inj hlen))

theorem forall₂_zipWith_right (hf : ∀ x y c, R y c → R (f x y) c) {a b : List Slot} {cs : List α}
    (hlen : a.length = b.length) (h : List.Forall₂ R b cs) :
    List.Forall₂ R (List.zipWith f a b) cs := by
  induction h generalizing a with
  | nil => rw [List.zipWith_nil_right]; exact .nil
  | cons hy _ ih =>
    cases a with
    | nil => cases hlen
    | cons x a => exact .cons (hf x _ _ hy) (ih (Nat.succ.inj hlen))

theorem zipPad_length {d : Slot} {a b : List Slot} :
    (zipPad f d a b).length = max a.length b.length := by
  unfold zipPad
  rw [List.length_map, List.length_range]

theorem zipPad_getElem {d : Slot} {a b : List Slot} {i : Nat}
    (hi : i < (zipPad f d a b).length) :
    (zipPad f d a b)[i] = f (a.getD i d) (b.getD i d) := by
  simp only [zipPad, List.getElem_map, List.getElem_range]

theorem zipPad_getD {d : Slot} {a b : List Slot} {i : Nat} (hi : i < max a.length b.length) :
    (zipPad f d a b).getD i d = f (a.getD i d) (b.getD i d) := by
  have hi' : i < (zipPad f d a b).length := by rwa [zipPad_length]
  rw [List.getD_eq_getElem _ _ hi', zipPad_getElem]

theorem forall₂_zipPad_left (hf : ∀ x y c, R x c → R (f x y) c) {d : Slot} {a b : List Slot}
    {cs : List α} (hlen : b.length ≤ a.length) (h : List.Forall₂ R a cs) :
    List.Forall₂ R (zipPad f d a b) cs := by
  obtain ⟨hac, hget⟩ := List.forall₂_iff_get.mp h
  refine List.forall₂_iff_get.mpr ⟨?_, ?_⟩
  · rw [zipPad_length, Nat.max_eq_left hlen, hac]
  · intro i hi hic
    rw [List.get_eq_getElem, zipPad_getElem hi, List.getD_eq_getElem _ _ (by omega)]
    exact hf _ _ _ (hget i (by omega) hic)

theorem forall₂_zipPad_right (hf : ∀ x y c, R y c → R (f x y) c) {d : Slot} {a b : List Slot}
    {cs : List α} (hlen : a.length ≤ b.length) (h : List.Forall₂ R b cs) :
    List.Forall₂ R (zipPad f d a b) cs := by
  obtain ⟨hbc, hget⟩ := List.forall₂_iff_get.mp h
  refine List.forall₂_iff_get.mpr ⟨?_, ?_⟩
  · rw [zipPad_length, Nat.max_eq_right hlen, hbc]
  · intro i hi hic
    rw [List.get_eq_getElem, zipPad_getElem hi,
      List.getD_eq_getElem b _ (show i < b.length by omega)]
    exact hf _ _ _ (hget i (by omega) hic)

end Zip

theorem joinSlot_left {x : Slot} (y : Slot) {v : Int} (h : x.Describes v) :
    (joinSlot x y).Describes v := Interval.contains_join_left h

theorem joinSlot_right (x : Slot) {y : Slot} {v : Int} (h : y.Describes v) :
    (joinSlot x y).Describes v := Interval.contains_join_right h

theorem zipPad_locals {f : Slot → Slot → Slot} {a b : List Slot} {m : Machine}
    (h : ∀ i, (f (a.getD i .top) (b.getD i .top)).Describes (m.getLocal i).val) (i : Nat) :
    ((zipPad f .top a b).getD i .top).Describes (m.getLocal i).val := by
  by_cases hi : i < max a.length b.length
  · rw [zipPad_getD hi]
    exact h i
  · rw [List.getD_eq_default _ _ (by rw [zipPad_length]; omega)]
    exact Slot.describes_top _

theorem Covers.combine_left {f : Slot → Slot → Slot} (hf : ∀ x y v, x.Describes v →
    (f x y).Describes v) {a b : State} {m : Machine} (h : Covers a m)
    (hlocals : b.locals.length ≤ a.locals.length) {stack : List Slot}
    (hstack : List.Forall₂ (fun slot c => slot.Describes c.val) stack m.stack.items) :
    Covers ⟨stack, zipPad f .top a.locals b.locals⟩ m := by
  refine ⟨hstack, ?_, zipPad_locals fun i => hf _ _ _ (h.locals i)⟩
  rw [zipPad_length, Nat.max_eq_left hlocals]
  exact h.room

theorem Covers.combine_right {f : Slot → Slot → Slot} (hf : ∀ x y v, y.Describes v →
    (f x y).Describes v) {a b : State} {m : Machine} (h : Covers b m)
    (hlocals : a.locals.length ≤ b.locals.length) {stack : List Slot}
    (hstack : List.Forall₂ (fun slot c => slot.Describes c.val) stack m.stack.items) :
    Covers ⟨stack, zipPad f .top a.locals b.locals⟩ m := by
  refine ⟨hstack, ?_, zipPad_locals fun i => hf _ _ _ (h.locals i)⟩
  rw [zipPad_length, Nat.max_eq_right hlocals]
  exact h.room

section Merge

variable {a b : State} {m : Machine}

theorem mergeFirstVisit_left (h : Covers a m) (hlen : b.stack.length ≤ a.stack.length)
    (hlocals : b.locals.length ≤ a.locals.length) : Covers (mergeFirstVisit a b) m := by
  refine h.combine_left (fun x y v => joinSlot_left y) hlocals ?_
  rw [← List.forall₂_reverse_iff, List.reverse_reverse]
  refine forall₂_zipPad_left (fun x y c => joinSlot_left y) (by simpa using hlen) ?_
  exact List.forall₂_reverse_iff.mpr h.stack

theorem mergeFirstVisit_right (h : Covers b m) (hlen : a.stack.length ≤ b.stack.length)
    (hlocals : a.locals.length ≤ b.locals.length) : Covers (mergeFirstVisit a b) m := by
  refine h.combine_right (fun x y v => joinSlot_right x) hlocals ?_
  rw [← List.forall₂_reverse_iff, List.reverse_reverse]
  refine forall₂_zipPad_right (fun x y c => joinSlot_right x) (by simpa using hlen) ?_
  exact List.forall₂_reverse_iff.mpr h.stack

theorem widenState_length {n : Nat} (hlen : a.stack.length = b.stack.length)
    (hn : a.stack.length ≤ n) : (widenState a b n).stack.length = a.stack.length := by
  unfold widenState
  rw [zipBottom_eq hlen hn, List.length_zipWith, ← hlen, Nat.min_self]

theorem mergeFirstVisit_length :
    (mergeFirstVisit a b).stack.length = max a.stack.length b.stack.length := by
  unfold mergeFirstVisit
  rw [List.length_reverse, zipPad_length, List.length_reverse, List.length_reverse]

end Merge

end Tyu

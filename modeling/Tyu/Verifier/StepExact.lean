import Tyu.Verifier.InterpSound

/-! # When one transfer is sound -/

namespace Tyu

open Lib

variable {M : Type} [MemModel M]

/-- From this machine the operation traps or leads to what the transfer describes. -/
def StepSound (W : World) (s : State) (kind : OpKind) (sr : SubtypeRange) (wordBits : Nat)
    (mem : M) (m : Machine) : Prop :=
  ∀ m' ctl, execOp W kind m = .ok (m', ctl) →
    (∃ code, ctl = .trap code) ∨ Covers (s.step kind sr wordBits mem).1 m'

theorem Interval.contains_intersect_iff {a b : Interval} {v : Int} :
    (a.intersect b).contains v = true ↔ a.contains v = true ∧ b.contains v = true := by
  refine ⟨fun h => ?_, fun h => contains_intersect h.1 h.2⟩
  cases a with
  | bottom => cases h
  | top => cases b <;> exact ⟨rfl, h⟩
  | range lo hi =>
    cases b with
    | bottom => cases h
    | top => exact ⟨h, rfl⟩
    | range lo' hi' =>
      simp only [intersect] at h
      split at h
      · cases h
      · rw [contains_range] at h
        rw [contains_range, contains_range]
        omega

theorem Interval.contains_castNarrow_iff {iv : Interval} {lo hi v : Int} :
    (iv.castNarrow lo hi).contains v = true ↔ iv.contains v = true ∧ lo ≤ v ∧ v ≤ hi := by
  rw [castNarrow, contains_intersect_iff, contains_range]

section Exact

variable {W : World} {s : State} {m m' : Machine} {sr : SubtypeRange} {wordBits : Nat} {mem : M}

theorem Covers.top_push {slot : Slot} (h : Covers (s.push slot) m') {c : Cell} {rest : List Cell}
    (hitems : m'.stack.items = c :: rest) : slot.Describes c.val := by
  have hstack := h.stack
  rw [hitems] at hstack
  unfold State.push at hstack
  split at hstack <;> exact (List.forall₂_cons.mp hstack).1

theorem Machine.pop_push_ok {c : Cell} {rest : List Cell} (hitems : m.stack.items = c :: rest)
    (d : Cell) : ∃ m₁ m₂, m.pop = .ok (c, m₁) ∧ m₁.push d = .ok m₂ ∧
      m₂.stack.items = d :: rest := by
  have hlen := m.stack.bounded
  rw [hitems, List.length_cons] at hlen
  have hpop : m.stack.pop = some (c, ⟨rest, by omega⟩) := BoundedStack.pop_eq_some.mpr hitems
  have hpush : (⟨rest, by omega⟩ : BoundedStack Cell 64).push d = some ⟨d :: rest, hlen⟩ :=
    BoundedStack.push_eq_some.mpr rfl
  refine ⟨{ m with stack := ⟨rest, by omega⟩ }, { m with stack := ⟨d :: rest, hlen⟩ }, ?_, ?_, rfl⟩
  · rw [Machine.pop, hpop]
  · rw [Machine.push, hpush]

theorem StepSound.replaced {kind : OpKind} (h : StepSound W s kind sr wordBits mem m)
    (iv : Interval) (d : Cell → Cell)
    (hexec : ∀ c m₁ m₂, m.pop = .ok (c, m₁) → m₁.push (d c) = .ok m₂ →
      execOp W kind m = .ok (m₂, .next))
    (hstep : (s.step kind sr wordBits mem).1 = s.popVal.2.push (.computed iv)) {c : Cell}
    {rest : List Cell} (hitems : m.stack.items = c :: rest) : iv.contains (d c).val = true := by
  obtain ⟨m₁, m₂, hpop, hpush, hitems₂⟩ := Machine.pop_push_ok hitems (d c)
  rcases h m₂ .next (hexec c m₁ m₂ hpop hpush) with ⟨code, hcode⟩ | hcov
  · cases hcode
  · rw [hstep] at hcov
    exact hcov.top_push hitems₂

theorem StepSound.castInRange {kind : OpKind} (h : StepSound W s kind sr wordBits mem m) :
    CastInRange sr kind m := by
  intro src tgt lo hi c rest hkind hsr hitems
  subst hkind
  have hcontains := h.replaced (s.popVal.1.iv.castNarrow lo hi) (fun c => ⟨c.value, tgt⟩)
    (fun c m₁ m₂ hpop hpush => bind_eq_ok.mpr ⟨(c, m₁), hpop, bind_eq_ok.mpr ⟨m₂, hpush, rfl⟩⟩)
    (by simp only [State.step, hsr]) hitems
  exact (Interval.contains_castNarrow_iff.mp hcontains).2

theorem StepSound.readAnswered {kind : OpKind} (h : StepSound W s kind sr wordBits mem m) :
    ReadAnswered W s kind wordBits mem m := by
  have hread : ∀ (iv : Interval) (ty : TypeId) (f : Int → Int),
      execOp W kind m = readTop m ty f →
      (s.step kind sr wordBits mem).1 = s.popVal.2.push (.computed iv) →
      ∀ c rest, m.stack.items = c :: rest → iv.contains (f c.val) = true := by
    intro iv ty f hexec hstep c rest hitems
    refine h.replaced iv (fun c => ⟨⟨f c.val, none⟩, ty⟩) (fun c m₁ m₂ hpop hpush => ?_) hstep hitems
    rw [hexec, readTop]
    exact bind_eq_ok.mpr ⟨(c, m₁), hpop, bind_eq_ok.mpr ⟨m₂, hpush, rfl⟩⟩
  cases kind with
  | load ty => exact hread _ ty (fun a => W.load m.clock m.mem a) rfl rfl
  | mmioVolLoad ty place rk am bar =>
    exact hread _ ty (fun _ => W.mmioRead m.clock m.mem (.mmioVolLoad ty place rk am bar)) rfl rfl
  | mmioVolLoadField regTy fieldTy place mask shift rk am bar =>
    exact hread _ fieldTy (fun _ => W.mmioRead m.clock m.mem
      (.mmioVolLoadField regTy fieldTy place mask shift rk am bar)) rfl rfl
  | _ => exact fun _ _ _ => trivial

/-- **One transfer.**  Of a state that describes the machine, the transfer is sound unless the
operation is a cast to a range that the value is outside of, or a read that the memory model
does not answer. -/
theorem stepSound_iff {kind : OpKind} (h : Covers s m) :
    StepSound W s kind sr wordBits mem m ↔
      CastInRange sr kind m ∧ ReadAnswered W s kind wordBits mem m := by
  refine ⟨fun hsound => ⟨hsound.castInRange, hsound.readAnswered⟩, ?_⟩
  rintro ⟨hcast, hread⟩ m' ctl hex
  by_cases hctl : ∃ code, ctl = .trap code
  · exact .inl hctl
  · refine .inr (step_covers_of h hcast hread hex fun code hcode => hctl ⟨code, hcode⟩)

end Exact

def lowestKnown : State := ⟨[.computed (.constVal (-1)), .computed (.constVal I64_MIN)], []⟩

def lowestMachine : Machine :=
  ⟨⟨[⟨⟨-1, none⟩, TY_I64⟩, ⟨⟨I64_MIN, none⟩, TY_I64⟩], by decide⟩, [], ⟨[], 0, 0⟩, 0⟩

/-- The product leaves the 64-bit range: the machine wraps, the interval becomes top. -/
theorem lowest_mul_sound :
    StepSound .reference lowestKnown .mulI64 (fun _ => none) 64 FlatMem.mk lowestMachine := by
  have hcovers : Covers lowestKnown lowestMachine :=
    ⟨.cons rfl (.cons rfl .nil), Nat.zero_le _, fun i => Slot.describes_top _⟩
  refine (stepSound_iff hcovers).mpr ⟨?_, readAnswered_of_blind _ _ _ _ _ _⟩
  intro src tgt lo hi c rest hkind
  cases hkind

def unknownTop : State := ⟨[.top], []⟩

def elevenMachine : Machine := ⟨⟨[⟨⟨11, none⟩, TY_I64⟩], by decide⟩, [], ⟨[], 0, 0⟩, 0⟩

def upToTen : SubtypeRange := fun ty => if ty = ⟨7⟩ then some (0, 10) else none

/-- A cast keeps the eleven, and the transfer says that it lies between 0 and 10. -/
theorem cast_excludes_value : Covers unknownTop elevenMachine ∧
    ¬StepSound .reference unknownTop (.cast TY_I64 ⟨7⟩) upToTen 64 FlatMem.mk elevenMachine := by
  refine ⟨⟨.cons rfl .nil, Nat.zero_le _, fun i => Slot.describes_top _⟩, fun h => ?_⟩
  have hrange := h.castInRange TY_I64 ⟨7⟩ 0 10 _ [] rfl rfl rfl
  exact absurd hrange.2 (by decide)

end Tyu

import Mathlib.Data.Nat.Basic
import Mathlib.Data.List.Basic

/-! # Placing items one behind the other -/

namespace Lib

/-- The first multiple of `a` at or after `n`. -/
def roundUp (a n : Nat) : Nat := (n + (a - 1)) / a * a

theorem dvd_roundUp (a n : Nat) : a ∣ roundUp a n := Nat.dvd_mul_left ..

theorem le_roundUp {a : Nat} (ha : 0 < a) (n : Nat) : n ≤ roundUp a n := by
  have hdiv := Nat.div_add_mod (n + (a - 1)) a
  have hmod := Nat.mod_lt (n + (a - 1)) ha
  rw [Nat.mul_comm] at hdiv
  unfold roundUp
  omega

structure Item where
  size : Nat
  align : Nat

namespace Item

/-- Where the items start when the first free position is `pos`. -/
def starts : List Item → Nat → List Nat
  | [], _ => []
  | i :: rest, pos => roundUp i.align pos :: starts rest (roundUp i.align pos + i.size)

def finish : List Item → Nat → Nat
  | [], pos => pos
  | i :: rest, pos => finish rest (roundUp i.align pos + i.size)

/-- The size of the whole, rounded up to `a`. -/
def extent (items : List Item) (a : Nat) : Nat := roundUp a (finish items 0)

variable {items : List Item}

theorem length_starts {pos : Nat} : (starts items pos).length = items.length := by
  induction items generalizing pos with
  | nil => rfl
  | cons i rest ih => rw [starts, List.length_cons, ih, List.length_cons]

theorem le_finish (ha : ∀ i ∈ items, 0 < i.align) (pos : Nat) : pos ≤ finish items pos := by
  induction items generalizing pos with
  | nil => exact Nat.le_refl _
  | cons i rest ih =>
    have hi := le_roundUp (ha i (List.mem_cons_self ..)) pos
    have hrest := ih (fun j hj => ha j (List.mem_cons_of_mem _ hj))
      (roundUp i.align pos + i.size)
    show pos ≤ finish rest (roundUp i.align pos + i.size)
    omega

/-- A placed item starts at a multiple of its alignment, not before the first free position,
and ends before the whole does. -/
theorem placed (ha : ∀ i ∈ items, 0 < i.align) {pos : Nat} {i : Item} {start : Nat}
    (h : (i, start) ∈ items.zip (starts items pos)) :
    i.align ∣ start ∧ pos ≤ start ∧ start + i.size ≤ finish items pos := by
  induction items generalizing pos with
  | nil => cases h
  | cons j rest ih =>
    have hj := le_roundUp (ha j (List.mem_cons_self ..)) pos
    have hrest : ∀ k ∈ rest, 0 < k.align := fun k hk => ha k (List.mem_cons_of_mem _ hk)
    rw [starts, List.zip_cons_cons] at h
    show i.align ∣ start ∧ pos ≤ start ∧ start + i.size ≤ finish rest (roundUp j.align pos + j.size)
    rcases List.mem_cons.mp h with h | h
    · cases h
      exact ⟨dvd_roundUp .., hj, le_finish hrest _⟩
    · obtain ⟨hdvd, hle, hend⟩ := ih hrest h
      exact ⟨hdvd, by omega, hend⟩

theorem disjoint (ha : ∀ i ∈ items, 0 < i.align) (pos : Nat) :
    (items.zip (starts items pos)).Pairwise fun p q => p.2 + p.1.size ≤ q.2 := by
  induction items generalizing pos with
  | nil => exact List.Pairwise.nil
  | cons j rest ih =>
    have hrest : ∀ k ∈ rest, 0 < k.align := fun k hk => ha k (List.mem_cons_of_mem _ hk)
    rw [starts, List.zip_cons_cons]
    refine List.Pairwise.cons (fun q hq => ?_) (ih hrest _)
    exact (placed hrest hq).2.1

theorem size_le_finish (ha : ∀ i ∈ items, 0 < i.align) {i : Item} (hi : i ∈ items) (pos : Nat) :
    i.size ≤ finish items pos := by
  induction items generalizing pos with
  | nil => cases hi
  | cons j rest ih =>
    have hrest : ∀ k ∈ rest, 0 < k.align := fun k hk => ha k (List.mem_cons_of_mem _ hk)
    show i.size ≤ finish rest (roundUp j.align pos + j.size)
    rcases List.mem_cons.mp hi with rfl | hi
    · have := le_finish hrest (roundUp i.align pos + i.size)
      omega
    · exact ih hrest hi _

theorem finish_le_extent {a : Nat} (ha : 0 < a) : finish items 0 ≤ extent items a := le_roundUp ha _

end Item

end Lib

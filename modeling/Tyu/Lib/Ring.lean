import Mathlib.Algebra.BigOperators.Group.Finset.Basic
import Mathlib.Data.BitVec
import Mathlib.Tactic.Ring

/-! # Ring buffers with running counters -/

namespace Lib

class RingSize (n : Nat) : Prop where
  pos : 0 < n
  dvd : n ∣ 2 ^ 64
  lt : n < 2 ^ 64

instance : RingSize 8 := ⟨by decide, by decide, by decide⟩

instance : RingSize 16 := ⟨by decide, by decide, by decide⟩

instance : RingSize 64 := ⟨by decide, by decide, by decide⟩

/-- The slots, the two counters, and that they are at most a capacity apart. -/
structure Ring (α : Type) (n : Nat) where
  slots : Fin n → α
  head : BitVec 64
  tail : BitVec 64
  bounded : (tail - head).toNat ≤ n

namespace Ring

variable {α : Type} {n : Nat} [RingSize n]

def index (n : Nat) [RingSize n] (k : Nat) : Fin n := ⟨k % n, Nat.mod_lt _ RingSize.pos⟩

def empty (slots : Fin n → α) : Ring α n := ⟨slots, 0, 0, by simp⟩

def size (r : Ring α n) : Nat := (r.tail - r.head).toNat

theorem toNat_succ {a : BitVec 64} (h : a.toNat + 1 < 2 ^ 64) : (a + 1).toNat = a.toNat + 1 := by
  rw [BitVec.toNat_add, show BitVec.toNat (1 : BitVec 64) = 1 from rfl, Nat.mod_eq_of_lt h]

def contents (r : Ring α n) : List α :=
  (List.range r.size).map fun i => r.slots (index n (r.head.toNat + i))

def offer (r : Ring α n) (x : α) : Option (Ring α n) :=
  if h : r.size < n then
    some
      { slots := Function.update r.slots (index n r.tail.toNat) x
        head := r.head
        tail := r.tail + 1
        bounded := by
          have hn := RingSize.lt (n := n)
          unfold size at h
          rw [show r.tail + 1 - r.head = r.tail - r.head + 1 by ring, toNat_succ (by omega)]
          omega }
  else none

def poll (r : Ring α n) : Option (α × Ring α n) :=
  if h : r.head = r.tail then none
  else
    some
      (r.slots (index n r.head.toNat),
        { slots := r.slots
          head := r.head + 1
          tail := r.tail
          bounded := by
            have hn := r.bounded
            bv_omega })

def clear (r : Ring α n) : Ring α n := empty r.slots

/-! ## The ring is a queue -/

@[simp] theorem length_contents (r : Ring α n) : r.contents.length = r.size := by
  simp [contents]

theorem length_contents_le (r : Ring α n) : r.contents.length ≤ n := by
  rw [length_contents]
  exact r.bounded

@[simp] theorem contents_empty (slots : Fin n → α) : (empty slots).contents = [] := by
  simp [contents, size, empty]

@[simp] theorem contents_clear (r : Ring α n) : r.clear.contents = [] := contents_empty _

theorem index_ne {a b : Nat} (h : a < b) (hb : b < a + n) : index n a ≠ index n b := by
  intro he
  have hm : a % n = b % n := congrArg Fin.val he
  have hd : (b - a) % n = 0 := Nat.sub_mod_eq_zero_of_mod_eq hm.symm
  rw [Nat.mod_eq_of_lt (by omega)] at hd
  omega

theorem index_tail (r : Ring α n) : index n (r.head.toNat + r.size) = index n r.tail.toNat := by
  apply Fin.ext
  show (r.head.toNat + r.size) % n = r.tail.toNat % n
  have hw : (r.head.toNat + r.size) % 2 ^ 64 = r.tail.toNat := by
    unfold size
    bv_omega
  rw [← hw, Nat.mod_mod_of_dvd _ RingSize.dvd]

theorem offer_eq_none {r : Ring α n} {x : α} : r.offer x = none ↔ r.contents.length = n := by
  have hb := r.length_contents_le
  rw [length_contents] at *
  unfold offer
  split
  · simp only [reduceCtorEq, false_iff]
    omega
  · simp only [true_iff]
    omega

theorem contents_offer {r r' : Ring α n} {x : α} (h : r.offer x = some r') :
    r'.contents = r.contents ++ [x] := by
  unfold offer at h
  split at h
  · next hlt =>
    obtain rfl := Option.some.inj h
    have hn := RingSize.lt (n := n)
    have hsize : (r.tail + 1 - r.head).toNat = r.size + 1 := by
      unfold size at hlt ⊢
      rw [show r.tail + 1 - r.head = r.tail - r.head + 1 by ring, toNat_succ (by omega)]
    simp only [contents, size] at hsize ⊢
    rw [hsize, List.range_succ, List.map_append]
    change List.map _ (List.range r.size) ++ List.map _ [r.size] = _
    congr 1
    · apply List.map_congr_left
      intro i hi
      have hi := List.mem_range.1 hi
      have hne := index_ne (n := n) (a := r.head.toNat + i) (b := r.head.toNat + r.size)
        (by omega) (by omega)
      rw [index_tail] at hne
      rw [Function.update_of_ne hne]
    · rw [List.map_singleton, r.index_tail, Function.update_self]
  · exact absurd h (by simp)

theorem poll_eq_none {r : Ring α n} : r.poll = none ↔ r.contents = [] := by
  rw [← List.length_eq_zero_iff, length_contents]
  unfold poll size
  split
  · next h => simp [h]
  · next h =>
    simp only [reduceCtorEq, false_iff]
    bv_omega

theorem contents_poll {r r' : Ring α n} {x : α} (h : r.poll = some (x, r')) :
    r.contents = x :: r'.contents := by
  unfold poll at h
  split at h
  · exact absurd h (by simp)
  · next hne =>
    obtain ⟨rfl, rfl⟩ := Prod.mk.inj (Option.some.inj h)
    have hne' : r.tail - r.head ≠ 0 := fun h => hne (sub_eq_zero.1 h).symm
    have hsize : (r.tail - r.head).toNat = (r.tail - (r.head + 1)).toNat + 1 := by
      rw [show r.tail - r.head = r.tail - (r.head + 1) + 1 by ring] at hne' ⊢
      apply toNat_succ
      bv_omega
    simp only [contents, size]
    rw [hsize, List.range_succ_eq_map, List.map_cons, List.map_map]
    congr 1
    apply List.map_congr_left
    intro i _
    apply congrArg r.slots
    apply Fin.ext
    show (r.head.toNat + (i + 1)) % n = ((r.head + 1).toNat + i) % n
    rw [BitVec.toNat_add, ← Nat.mod_mod_of_dvd (r.head.toNat + (i + 1)) (RingSize.dvd (n := n)),
      ← Nat.mod_mod_of_dvd (_ + i) (RingSize.dvd (n := n)), Nat.mod_add_mod]
    congr 2
    have h1 : BitVec.toNat (1 : BitVec 64) = 1 := rfl
    omega

end Ring

theorem sum_update_add {ι σ : Type} [Fintype ι] [DecidableEq ι] (μ : σ → Nat) (f : ι → σ) (i : ι)
    (v : σ) : (∑ j, μ (Function.update f i v j)) + μ (f i) = (∑ j, μ (f j)) + μ v := by
  have hold := Finset.add_sum_erase Finset.univ (fun j => μ (f j)) (Finset.mem_univ i)
  have hnew := Finset.add_sum_erase Finset.univ (fun j => μ (Function.update f i v j))
    (Finset.mem_univ i)
  have hrest : ∑ j ∈ Finset.univ.erase i, μ (Function.update f i v j) =
      ∑ j ∈ Finset.univ.erase i, μ (f j) :=
    Finset.sum_congr rfl fun j hj => by rw [Function.update_of_ne (Finset.ne_of_mem_erase hj)]
  simp only [Function.update_self, hrest] at hnew hold
  omega

end Lib

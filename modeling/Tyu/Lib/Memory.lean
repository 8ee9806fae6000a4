import Mathlib.Data.Nat.Basic
import Mathlib.Tactic.Ring

/-! # A memory of bytes -/

namespace Lib

abbrev Memory := Nat → BitVec 8

namespace Memory

/-- The number in the `n` bytes from `a` on. -/
def read (m : Memory) : Nat → Nat → Nat
  | _, 0 => 0
  | a, n + 1 => (m a).toNat + 256 * read m (a + 1) n

/-- The memory with the number `v` in the `n` bytes from `a` on. -/
def write (m : Memory) (a n v : Nat) : Memory := fun x =>
  if a ≤ x ∧ x < a + n then BitVec.ofNat 8 (v / 256 ^ (x - a)) else m x

variable {m m' : Memory} {a b n k v : Nat}

theorem read_congr (h : ∀ x, a ≤ x → x < a + n → m x = m' x) : m.read a n = m'.read a n := by
  induction n generalizing a with
  | zero => rfl
  | succ n ih =>
    rw [read, read, h a (Nat.le_refl a) (by omega), ih fun x hx hx' => h x (by omega) (by omega)]

theorem write_outside {x : Nat} (h : x < a ∨ a + n ≤ x) : m.write a n v x = m x := by
  have : ¬(a ≤ x ∧ x < a + n) := by omega
  rw [write, if_neg this]

theorem read_write_of_disjoint (h : b + k ≤ a ∨ a + n ≤ b) :
    (m.write a n v).read b k = m.read b k :=
  read_congr fun _ hx hx' => write_outside (by omega)

theorem read_write_from (m : Memory) (a v : Nat) (j k : Nat) :
    (m.write a (j + k) v).read (a + j) k = v / 256 ^ j % 256 ^ k := by
  induction k generalizing j with
  | zero => simp [read, Nat.mod_one]
  | succ k ih =>
    have hnext := ih (j + 1)
    rw [Nat.add_right_comm j 1 k] at hnext
    have hsplit : v / 256 ^ j % (256 * 256 ^ k) =
        v / 256 ^ j % 256 + 256 * (v / 256 ^ j / 256 % 256 ^ k) := Nat.mod_mul
    have hbyte : m.write a (j + k + 1) v (a + j) = BitVec.ofNat 8 (v / 256 ^ j) := by
      rw [write, if_pos (show a ≤ a + j ∧ a + j < a + (j + k + 1) by omega),
        Nat.add_sub_cancel_left]
    rw [read, Nat.add_assoc a j 1, ← Nat.add_assoc j k 1, hnext, hbyte, Nat.pow_succ 256 k,
      Nat.mul_comm (256 ^ k) 256, hsplit, Nat.pow_succ, ← Nat.div_div_eq_div_mul]
    rfl

theorem read_write_same (m : Memory) (a n v : Nat) : (m.write a n v).read a n = v % 256 ^ n := by
  have h := read_write_from m a v 0 n
  simpa using h

theorem write_add (m : Memory) (a n k v : Nat) :
    (m.write a n v).write (a + n) k (v / 256 ^ n) = m.write a (n + k) v := by
  funext x
  unfold write
  by_cases hlow : a ≤ x ∧ x < a + n
  · rw [if_neg (show ¬(a + n ≤ x ∧ x < a + n + k) by omega), if_pos hlow,
      if_pos (show a ≤ x ∧ x < a + (n + k) by omega)]
  · by_cases hhigh : a + n ≤ x ∧ x < a + n + k
    · rw [if_pos hhigh, if_pos (show a ≤ x ∧ x < a + (n + k) by omega), Nat.div_div_eq_div_mul,
        ← Nat.pow_add, show n + (x - (a + n)) = x - a by omega]
    · rw [if_neg hhigh, if_neg hlow, if_neg (show ¬(a ≤ x ∧ x < a + (n + k)) by omega)]

end Memory
end Lib

import Mathlib.Data.Nat.Bitwise

/-! # Branch instructions -/

namespace Lib.Branch

/-- `n` bits of a number, from bit `lo` on. -/
def bits (v lo n : Nat) : Nat := v / 2 ^ lo % 2 ^ n

/-- A number of `n` bits in two's complement. -/
def signed (n v : Nat) : Int := if v < 2 ^ (n - 1) then v else (v : Int) - 2 ^ n

/-- The displacements of a branch: even, with `n + 1` bits. -/
def Reaches (n : Nat) (d : Int) : Prop := d % 2 = 0 ∧ -2 ^ n ≤ d ∧ d < 2 ^ n

instance (n : Nat) (d : Int) : Decidable (Reaches n d) :=
  inferInstanceAs (Decidable (_ ∧ _ ∧ _))

inductive Form where
  | call
  | jump
deriving DecidableEq

/-- The branches of two halfwords: BL and BLX, which call, and B.W, which jumps. -/
def thumbForm (hw0 hw1 : Nat) : Option Form :=
  if bits hw0 11 5 ≠ 0b11110 then none
  else if bits hw1 14 2 = 0b11 ∧ (bits hw1 12 1 = 1 ∨ bits hw1 0 1 = 0) then some .call
  else if bits hw1 14 2 = 0b10 ∧ bits hw1 12 1 = 1 then some .jump
  else none

def thumbBit (j s : Nat) : Nat := if j = s then 1 else 0

/-- Where a branch counts from: four bytes behind it, and for a BLX the word there. -/
def thumbPlace (place hw1 : Nat) : Int :=
  if bits hw1 12 1 = 1 then place + 4 else ((place + 4) / 4 * 4 : Nat)

def thumbDisp (hw0 hw1 : Nat) : Int :=
  let s := bits hw0 10 1
  let i1 := thumbBit (bits hw1 13 1) s
  let i2 := thumbBit (bits hw1 11 1) s
  signed 25 (s * 2 ^ 24 + i1 * 2 ^ 23 + i2 * 2 ^ 22 + bits hw0 0 10 * 2 ^ 12 +
    bits hw1 0 11 * 2)

def jalForm (insn : Nat) : Option Form :=
  if bits insn 0 7 ≠ 0x6F then none
  else if bits insn 7 5 = 0 then some .jump
  else some .call

theorem isSome_jalForm (insn : Nat) : (jalForm insn).isSome = true ↔ bits insn 0 7 = 0x6F := by
  unfold jalForm
  by_cases h : bits insn 0 7 = 0x6F
  · rw [if_neg (not_not_intro h)]
    split <;> exact iff_of_true rfl h
  · rw [if_pos h]
    exact iff_of_false (fun hc => nomatch hc) h

def jalDisp (insn : Nat) : Int :=
  signed 21 (bits insn 31 1 * 2 ^ 20 + bits insn 12 8 * 2 ^ 12 + bits insn 20 1 * 2 ^ 11 +
    bits insn 21 10 * 2)

def branchDisp (insn : Nat) : Int :=
  signed 13 (bits insn 31 1 * 2 ^ 12 + bits insn 7 1 * 2 ^ 11 + bits insn 25 6 * 2 ^ 5 +
    bits insn 8 4 * 2)

def upperImm (insn : Nat) : Int := signed 20 (bits insn 12 20) * 2 ^ 12

def lowImm (insn : Nat) : Int := signed 12 (bits insn 20 12)

theorem and_field (v lo n : Nat) : v &&& (2 ^ n - 1) * 2 ^ lo = bits v lo n * 2 ^ lo := by
  apply Nat.eq_of_testBit_eq
  intro i
  unfold bits
  rw [Nat.testBit_and, Nat.testBit_mul_two_pow, Nat.testBit_mul_two_pow,
    Nat.testBit_two_pow_sub_one, Nat.testBit_mod_two_pow, Nat.testBit_div_two_pow]
  by_cases hi : lo ≤ i
  · rw [Nat.sub_add_cancel hi, Bool.and_left_comm, Bool.and_comm (v.testBit i)]
  · simp [hi]

theorem or_eq_add {a b k : Nat} (hb : b < 2 ^ k) (ha : 2 ^ k ∣ a) : a ||| b = a + b := by
  obtain ⟨m, rfl⟩ := ha
  exact (Nat.two_pow_add_eq_or_of_lt hb m).symm

/-! ## Machine numbers -/

theorem toInt_toInt64 (u : UInt64) : u.toInt64.toInt = signed 64 u.toNat := by
  have hlt := u.toNat_lt
  rw [← Int64.toInt_toBitVec, BitVec.toInt_eq_toNat_cond]
  unfold signed
  show (if 2 * u.toNat < 2 ^ 64 then (u.toNat : Int) else u.toNat - (2 ^ 64 : Nat)) = _
  split <;> split <;> omega

theorem signed_bounds {k v : Nat} (hv : v < 2 ^ (k + 1)) :
    -2 ^ k ≤ signed (k + 1) v ∧ signed (k + 1) v < 2 ^ k := by
  have hcast : ((2 ^ k : Nat) : Int) = 2 ^ k := Int.natCast_pow 2 k
  rw [Nat.pow_succ] at hv
  unfold signed
  rw [Nat.add_sub_cancel, Int.pow_succ, ← hcast]
  split <;> omega

theorem signed_emod {k v : Nat} (hv : v < 2 ^ (k + 1)) : signed (k + 1) v % 2 ^ (k + 1) = v := by
  have hcast : ((2 ^ (k + 1) : Nat) : Int) = 2 ^ (k + 1) := Int.natCast_pow 2 (k + 1)
  have hmod : (v : Int) % 2 ^ (k + 1) = v := by
    rw [← hcast, ← Int.natCast_emod, Nat.mod_eq_of_lt hv]
  unfold signed
  split
  · exact hmod
  · rw [Int.sub_emod_right, hmod]

theorem low_bit (u : UInt64) : u.toInt64 &&& 1 ≠ 0 ↔ signed 64 u.toNat % 2 ≠ 0 := by
  have hand : u.toInt64 &&& 1 = (u &&& 1).toInt64 := rfl
  have hzero : (u &&& 1).toInt64 = 0 ↔ u &&& 1 = 0 :=
    ⟨fun h => congrArg Int64.toUInt64 h, fun h => congrArg UInt64.toInt64 h⟩
  rw [hand, not_iff_not, hzero, ← UInt64.toNat_inj, UInt64.toNat_and]
  show u.toNat &&& 2 ^ 1 - 1 = 0 ↔ _
  rw [Nat.and_two_pow_sub_one_eq_mod]
  unfold signed
  split <;> omega

theorem toInt_half (u : UInt64) : (u.toInt64 >>> 1).toInt = signed 64 u.toNat / 2 := by
  rw [← toInt_toInt64, ← Int64.toInt_toBitVec, Int64.toBitVec_shiftRight]
  show (u.toInt64.toBitVec.sshiftRight 1).toInt = _
  rw [BitVec.toInt_sshiftRight, Int.shiftRight_eq_div_pow]
  rfl

theorem toInt_upper (u : UInt64) : (u.toInt64 >>> 12).toInt = signed 64 u.toNat / 2 ^ 12 := by
  rw [← toInt_toInt64, ← Int64.toInt_toBitVec, Int64.toBitVec_shiftRight]
  show (u.toInt64.toBitVec.sshiftRight 12).toInt = _
  rw [BitVec.toInt_sshiftRight, Int.shiftRight_eq_div_pow]
  rfl

theorem toUInt32_toInt (x : Int64) : (x.toUInt64.toUInt32.toNat : Int) = x.toInt % 2 ^ 32 := by
  have hcond := toInt_toInt64 x.toUInt64
  have hlt := x.toUInt64.toNat_lt
  rw [UInt64.toNat_toUInt32, show x.toInt = signed 64 x.toUInt64.toNat from hcond]
  unfold signed
  split <;> omega

theorem toNat_field (v : UInt32) (k n : Nat) (hk : k < 32) (hn : n < 32) :
    (v >>> UInt32.ofNat k &&& UInt32.ofNat (2 ^ n - 1)).toNat = bits v.toNat k n := by
  have hpow : 2 ^ n < 2 ^ 32 := Nat.pow_lt_pow_right (by decide) hn
  rw [UInt32.toNat_and, UInt32.toNat_shiftRight, UInt32.toNat_ofNat_of_lt' (show k < 2 ^ 32 by omega),
    UInt32.toNat_ofNat_of_lt' (show 2 ^ n - 1 < 2 ^ 32 by omega), Nat.mod_eq_of_lt hk,
    Nat.and_two_pow_sub_one_eq_mod, Nat.shiftRight_eq_div_pow]
  rfl

theorem bits_lt (v lo n : Nat) : bits v lo n < 2 ^ n := Nat.mod_lt _ (Nat.two_pow_pos n)

theorem bits_eq {x h v l k n : Nat} (hx : x = (h * 2 ^ n + v) * 2 ^ k + l) (hl : l < 2 ^ k)
    (hv : v < 2 ^ n) : bits x k n = v := by
  have hdiv : x / 2 ^ k = h * 2 ^ n + v := by
    rw [hx, Nat.add_comm, Nat.add_mul_div_right _ _ (Nat.two_pow_pos k), Nat.div_eq_of_lt hl,
      Nat.zero_add]
  rw [bits, hdiv, Nat.add_comm, Nat.add_mul_mod_self_right, Nat.mod_eq_of_lt hv]

theorem bits_join (v lo m n : Nat) :
    bits v (lo + m) n * 2 ^ m + bits v lo m = bits v lo (m + n) := by
  unfold bits
  rw [Nat.pow_add, ← Nat.div_div_eq_div_mul, Nat.pow_add, Nat.mod_mul, Nat.mul_comm, Nat.add_comm]

theorem thumbDisp_bounds (hw0 hw1 : Nat) :
    -2 ^ 24 ≤ thumbDisp hw0 hw1 ∧ thumbDisp hw0 hw1 < 2 ^ 24 := by
  have hbit (j s : Nat) : thumbBit j s ≤ 1 := by
    unfold thumbBit
    split <;> omega
  have hs := bits_lt hw0 10 1
  have h1 := hbit (bits hw1 13 1) (bits hw0 10 1)
  have h2 := hbit (bits hw1 11 1) (bits hw0 10 1)
  have h10 := bits_lt hw0 0 10
  have h11 := bits_lt hw1 0 11
  exact signed_bounds (k := 24) (by omega)

end Lib.Branch

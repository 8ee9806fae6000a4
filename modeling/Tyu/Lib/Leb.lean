import Mathlib
import Tyu.Lib.Wire

/-! # Variable-length integers -/

namespace Lib.Leb

open Wire

/-- An unsigned integer of `N` bits, and the bytes behind it. -/
def readUnsigned : Nat → Bytes → Option (Nat × Bytes)
  | _, [] => none
  | N, b :: rest =>
    if b.toNat < 2 ^ 7 then
      if b.toNat < 2 ^ N then some (b.toNat, rest) else none
    else if 7 < N then
      (readUnsigned (N - 7) rest).map fun p => (2 ^ 7 * p.1 + (b.toNat - 2 ^ 7), p.2)
    else none

/-- A signed integer of `N` bits, and the bytes behind it. -/
def readSigned : Nat → Bytes → Option (Int × Bytes)
  | _, [] => none
  | N, b :: rest =>
    if b.toNat < 2 ^ 6 then
      if b.toNat < 2 ^ (N - 1) then some (b.toNat, rest) else none
    else if b.toNat < 2 ^ 7 then
      if (2 : Int) ^ 7 - 2 ^ (N - 1) ≤ b.toNat then some (b.toNat - 2 ^ 7, rest) else none
    else if 7 < N then
      (readSigned (N - 7) rest).map fun p => (2 ^ 7 * p.1 + (b.toNat - 2 ^ 7), p.2)
    else none

variable {N : Nat} {b : UInt8} {bs rest : Bytes}

theorem readUnsigned_last (hb : b.toNat < 2 ^ 7) (hN : b.toNat < 2 ^ N) :
    readUnsigned N (b :: rest) = some (b.toNat, rest) := by
  unfold readUnsigned
  rw [if_pos hb, if_pos hN]

theorem readUnsigned_more {v : Nat} (hN : 7 < N) (hb : b.toNat = v % 2 ^ 7 + 2 ^ 7)
    (h : readUnsigned (N - 7) bs = some (v / 2 ^ 7, rest)) :
    readUnsigned N (b :: bs) = some (v, rest) := by
  have hvalue : 2 ^ 7 * (v / 2 ^ 7) + (b.toNat - 2 ^ 7) = v := by omega
  unfold readUnsigned
  rw [if_neg (by omega), if_pos hN, h, Option.map_some, hvalue]

theorem readSigned_last {v : Int} (hb : (b.toNat : Int) = v % 2 ^ 7) (hlow : -2 ^ 6 ≤ v)
    (hhigh : v < 2 ^ 6) (hmin : -2 ^ (N - 1) ≤ v) (hmax : v < 2 ^ (N - 1)) :
    readSigned N (b :: rest) = some (v, rest) := by
  have hpow : ((2 ^ (N - 1) : Nat) : Int) = 2 ^ (N - 1) := by norm_cast
  unfold readSigned
  generalize (2 : Int) ^ (N - 1) = M at *
  generalize 2 ^ (N - 1) = m at *
  by_cases hv : 0 ≤ v
  · have hvalue : (b.toNat : Int) = v := by omega
    rw [if_pos (by omega), if_pos (by omega), hvalue]
  · have hvalue : (b.toNat : Int) - 2 ^ 7 = v := by omega
    rw [if_neg (by omega), if_pos (by omega), if_pos (by omega), hvalue]

theorem readSigned_more {v : Int} (hN : 7 < N) (hb : (b.toNat : Int) = v % 2 ^ 7 + 2 ^ 7)
    (h : readSigned (N - 7) bs = some (v / 2 ^ 7, rest)) :
    readSigned N (b :: bs) = some (v, rest) := by
  have hvalue : 2 ^ 7 * (v / 2 ^ 7) + ((b.toNat : Int) - 2 ^ 7) = v := by omega
  unfold readSigned
  rw [if_neg (by omega), if_neg (by omega), if_pos hN, h, Option.map_some, hvalue]

end Lib.Leb

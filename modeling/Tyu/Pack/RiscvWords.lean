import Tyu.Loader.BranchWords
import Tyu.Pack.Pack

/-! # The RISC-V words of the packer -/

namespace Tyu.Pack

open Lib Lib.Wire Lib.Branch Container

theorem toNat_masked (u mask : UInt32) (lo n : Nat) (hmask : mask.toNat = (2 ^ n - 1) * 2 ^ lo) :
    (u &&& mask).toNat = bits u.toNat lo n * 2 ^ lo := by
  rw [UInt32.toNat_and, hmask, and_field]

theorem toNat_moved (u mask : UInt32) (lo n k : Nat)
    (hmask : mask.toNat = (2 ^ n - 1) * 2 ^ lo) (hk : k < 32) (hfits : lo + n + k ≤ 32) :
    ((u &&& mask) <<< UInt32.ofNat k).toNat = bits u.toNat lo n * 2 ^ (lo + k) := by
  have hfield := toNat_masked u mask lo n hmask
  have hlt := bits_lt u.toNat lo n
  have hroom : bits u.toNat lo n * 2 ^ (lo + k) < 2 ^ 32 := by
    calc bits u.toNat lo n * 2 ^ (lo + k) < 2 ^ n * 2 ^ (lo + k) :=
          Nat.mul_lt_mul_of_pos_right hlt (Nat.two_pow_pos _)
      _ = 2 ^ (lo + n + k) := by rw [← Nat.pow_add]; congr 1; omega
      _ ≤ 2 ^ 32 := Nat.pow_le_pow_right (by decide) hfits
  rw [Nat.pow_add, ← Nat.mul_assoc] at hroom
  rw [toNat_shift hk (by rw [hfield]; exact hroom), hfield, Nat.pow_add, Nat.mul_assoc]

theorem siteWord_toNat {insn : Bytes} (hlen : insn.length = 4) :
    (siteWord insn).toNat = getLE insn := by
  have hlt := getLE_lt insn
  rw [hlen] at hlt
  have hslice : slice insn 0 4 = some insn := by
    unfold slice
    rw [if_pos ⟨by omega, by omega⟩, List.drop_zero, List.take_of_length_le (by omega)]
  unfold siteWord u32At
  rw [Nat.zero_add, hslice]
  exact UInt32.toNat_ofNat_of_lt' hlt

theorem encodeRiscvJal_some {insn new : Bytes} {u : UInt64} (hlen : insn.length = 4)
    (h : encodeRiscvJal insn u.toInt64 = some new) :
    Reaches 20 (signed 64 u.toNat) ∧
      ∃ v, ((v : Nat) : Int) = signed 64 u.toNat % 2 ^ 32 ∧
        new = putLE 4 (jalWord v (getLE insn % 2 ^ 12)) := by
  unfold encodeRiscvJal at h
  by_cases hout : u.toInt64 &&& 1 ≠ 0 ∨ u.toInt64 < -0x100000 ∨ u.toInt64 > 0xFFFFF
  · rw [if_pos hout] at h
    cases h
  rw [if_neg hout] at h
  have hreach : Reaches 20 (signed 64 u.toNat) := by
    rw [not_or, not_or, low_bit, gt_iff_lt, Int64.lt_iff_toInt_lt, Int64.lt_iff_toInt_lt,
      toInt_toInt64] at hout
    obtain ⟨heven, hlow, hhigh⟩ := hout
    have hlow' : ¬ signed 64 u.toNat < -0x100000 := hlow
    have hhigh' : ¬ 0xFFFFF < signed 64 u.toNat := hhigh
    unfold Reaches
    omega
  refine ⟨hreach, u.toInt64.toUInt64.toUInt32.toNat, ?_, ?_⟩
  · rw [toUInt32_toInt, toInt_toInt64]
  · rw [← Option.some.inj h]
    generalize u.toInt64.toUInt64.toUInt32 = imm
    have hr : (siteWord insn &&& (0xFFF : UInt32)).toNat = getLE insn % 2 ^ 12 := by
      rw [toNat_masked _ _ 0 12 rfl, siteWord_toNat hlen, Nat.pow_zero, Nat.mul_one]
      unfold bits
      omega
    have h20 := toNat_moved imm 0x100000 20 1 11 rfl (by decide) (by decide)
    have h10 := toNat_moved imm 0x7FE 1 10 20 rfl (by decide) (by decide)
    have h11 := toNat_moved imm 0x800 11 1 9 rfl (by decide) (by decide)
    have h19 := toNat_masked imm 0xFF000 12 8 rfl
    have hor : ((siteWord insn &&& (0xFFF : UInt32)) ||| (imm &&& 0x100000) <<< 11 |||
        (imm &&& 0x7FE) <<< 20 ||| (imm &&& 0x800) <<< 9 ||| (imm &&& 0xFF000)).toNat =
        jalWord imm.toNat (getLE insn % 2 ^ 12) := by
      have hfields := or_fields (bits_lt imm.toNat 1 10) (bits_lt imm.toNat 11 1)
        (bits_lt imm.toNat 12 8) (show getLE insn % 2 ^ 12 < 2 ^ 12 from Nat.mod_lt _ (by decide))
        (a := bits imm.toNat 20 1)
      refine Eq.trans ?_ hfields
      rw [UInt32.toNat_or, UInt32.toNat_or, UInt32.toNat_or, UInt32.toNat_or, hr, h19]
      refine (congrArg₂ _ (congrArg₂ _ (congrArg₂ _ (congrArg _ h20) h10) h11) rfl).trans ?_
      rw [Nat.or_comm (getLE insn % 2 ^ 12), Nat.or_right_comm _ (getLE insn % 2 ^ 12),
        Nat.or_right_comm _ (getLE insn % 2 ^ 12), Nat.or_right_comm _ (getLE insn % 2 ^ 12)]
    exact congrArg (putLE 4) hor

/-! ## Conditional branches -/

/-- A branch by `u` bytes, between the bits `e` of the registers and the opcode `o`. -/
def branchWord (u e o : Nat) : Nat :=
  bits u 12 1 * 2 ^ 31 + bits u 5 6 * 2 ^ 25 + e * 2 ^ 12 + bits u 1 4 * 2 ^ 8 +
    bits u 11 1 * 2 ^ 7 + o

theorem or_branch {a b e c d o : Nat} (hb : b < 2 ^ 6) (he : e < 2 ^ 13) (hc : c < 2 ^ 4)
    (hd : d < 2) (ho : o < 2 ^ 7) :
    a * 2 ^ 31 ||| b * 2 ^ 25 ||| e * 2 ^ 12 ||| c * 2 ^ 8 ||| d * 2 ^ 7 ||| o =
      a * 2 ^ 31 + b * 2 ^ 25 + e * 2 ^ 12 + c * 2 ^ 8 + d * 2 ^ 7 + o := by
  have h1 : a * 2 ^ 31 ||| b * 2 ^ 25 = a * 2 ^ 31 + b * 2 ^ 25 :=
    or_eq_add (k := 31) (by omega) (by omega)
  have h2 : a * 2 ^ 31 + b * 2 ^ 25 ||| e * 2 ^ 12 = a * 2 ^ 31 + b * 2 ^ 25 + e * 2 ^ 12 :=
    or_eq_add (k := 25) (by omega) (by omega)
  have h3 : a * 2 ^ 31 + b * 2 ^ 25 + e * 2 ^ 12 ||| c * 2 ^ 8 =
      a * 2 ^ 31 + b * 2 ^ 25 + e * 2 ^ 12 + c * 2 ^ 8 :=
    or_eq_add (k := 12) (by omega) (by omega)
  have h4 : a * 2 ^ 31 + b * 2 ^ 25 + e * 2 ^ 12 + c * 2 ^ 8 ||| d * 2 ^ 7 =
      a * 2 ^ 31 + b * 2 ^ 25 + e * 2 ^ 12 + c * 2 ^ 8 + d * 2 ^ 7 :=
    or_eq_add (k := 8) (by omega) (by omega)
  rw [h1, h2, h3, h4]
  exact or_eq_add (k := 7) ho (by omega)

theorem toNat_kept (insn : UInt32) :
    (insn &&& (0x01FFF07F : UInt32)).toNat = bits insn.toNat 12 13 * 2 ^ 12 ||| bits insn.toNat 0 7 := by
  have hmask : (0x01FFF07F : UInt32).toNat = (2 ^ 13 - 1) * 2 ^ 12 ||| (2 ^ 7 - 1) * 2 ^ 0 := rfl
  rw [UInt32.toNat_and, hmask, Nat.and_or_distrib_left, and_field, and_field, Nat.pow_zero,
    Nat.mul_one]

theorem branchWord_lt (u : Nat) {e o : Nat} (he : e < 2 ^ 13) (ho : o < 2 ^ 7) :
    branchWord u e o < 2 ^ 32 := by
  have b12 := bits_lt u 12 1
  have b5 := bits_lt u 5 6
  have b1 := bits_lt u 1 4
  have b11 := bits_lt u 11 1
  unfold branchWord
  omega

theorem branchDisp_fields {a b c f e o : Nat} (ha : a < 2 ^ 1) (hb : b < 2 ^ 6)
    (hc : c < 2 ^ 4) (hf : f < 2 ^ 1) (he : e < 2 ^ 13) (ho : o < 2 ^ 7) :
    branchDisp (a * 2 ^ 31 + b * 2 ^ 25 + e * 2 ^ 12 + c * 2 ^ 8 + f * 2 ^ 7 + o) =
      signed 13 ((a * 2 ^ 11 + (f * 2 ^ 10 + (b * 2 ^ 4 + c))) * 2) := by
  have e1 : bits (a * 2 ^ 31 + b * 2 ^ 25 + e * 2 ^ 12 + c * 2 ^ 8 + f * 2 ^ 7 + o) 31 1 = a :=
    bits_eq (h := 0) (l := b * 2 ^ 25 + e * 2 ^ 12 + c * 2 ^ 8 + f * 2 ^ 7 + o) (by omega)
      (by omega) ha
  have e2 : bits (a * 2 ^ 31 + b * 2 ^ 25 + e * 2 ^ 12 + c * 2 ^ 8 + f * 2 ^ 7 + o) 7 1 = f :=
    bits_eq (h := a * 2 ^ 23 + b * 2 ^ 17 + e * 2 ^ 4 + c) (by omega) ho hf
  have e3 : bits (a * 2 ^ 31 + b * 2 ^ 25 + e * 2 ^ 12 + c * 2 ^ 8 + f * 2 ^ 7 + o) 25 6 = b :=
    bits_eq (h := a) (l := e * 2 ^ 12 + c * 2 ^ 8 + f * 2 ^ 7 + o) (by omega) (by omega) hb
  have e4 : bits (a * 2 ^ 31 + b * 2 ^ 25 + e * 2 ^ 12 + c * 2 ^ 8 + f * 2 ^ 7 + o) 8 4 = c :=
    bits_eq (h := a * 2 ^ 19 + b * 2 ^ 13 + e) (l := f * 2 ^ 7 + o) (by omega) (by omega) hc
  unfold branchDisp
  rw [e1, e2, e3, e4]
  congr 1
  omega

theorem branchDisp_branchWord {u e o : Nat} {d : Int} (hu : (u : Int) = d % 2 ^ 32)
    (he : e < 2 ^ 13) (ho : o < 2 ^ 7) (hreach : Reaches 12 d) :
    branchDisp (branchWord u e o) = d := by
  obtain ⟨heven, hlow, hhigh⟩ := hreach
  have hvalue : signed 13 (bits u 1 12 * 2) = d := by
    unfold signed bits
    split <;> omega
  have h1 : bits u 5 6 * 2 ^ 4 + bits u 1 4 = bits u 1 10 := bits_join u 1 4 6
  have h2 : bits u 11 1 * 2 ^ 10 + bits u 1 10 = bits u 1 11 := bits_join u 1 10 1
  have h3 : bits u 12 1 * 2 ^ 11 + bits u 1 11 = bits u 1 12 := bits_join u 1 11 1
  unfold branchWord
  rw [branchDisp_fields (bits_lt u 12 1) (bits_lt u 5 6) (bits_lt u 1 4) (bits_lt u 11 1) he ho, h1,
    h2, h3, hvalue]

theorem encodeRiscvBranch_some {insn new : Bytes} {u : UInt64}
    (h : encodeRiscvBranch insn u.toInt64 = some new) :
    Reaches 12 (signed 64 u.toNat) ∧
      ∃ v, ((v : Nat) : Int) = signed 64 u.toNat % 2 ^ 32 ∧
        new = putLE 4 (branchWord v (bits (siteWord insn).toNat 12 13)
          (bits (siteWord insn).toNat 0 7)) := by
  unfold encodeRiscvBranch at h
  by_cases hout : u.toInt64 &&& 1 ≠ 0 ∨ u.toInt64 < -0x1000 ∨ u.toInt64 > 0xFFE
  · rw [if_pos hout] at h
    cases h
  rw [if_neg hout] at h
  have hreach : Reaches 12 (signed 64 u.toNat) := by
    rw [not_or, not_or, low_bit, gt_iff_lt, Int64.lt_iff_toInt_lt, Int64.lt_iff_toInt_lt,
      toInt_toInt64] at hout
    obtain ⟨heven, hlow, hhigh⟩ := hout
    have hlow' : ¬ signed 64 u.toNat < -0x1000 := hlow
    have hhigh' : ¬ 0xFFE < signed 64 u.toNat := hhigh
    unfold Reaches
    omega
  refine ⟨hreach, u.toInt64.toUInt64.toUInt32.toNat, ?_, ?_⟩
  · rw [toUInt32_toInt, toInt_toInt64]
  · rw [← Option.some.inj h]
    generalize u.toInt64.toUInt64.toUInt32 = imm
    have hkept := toNat_kept (siteWord insn)
    have h12 := toNat_moved imm 0x1000 12 1 19 rfl (by decide) (by decide)
    have h5 := toNat_moved imm 0x7E0 5 6 20 rfl (by decide) (by decide)
    have h1 := toNat_moved imm 0x1E 1 4 7 rfl (by decide) (by decide)
    have h11 : ((imm &&& 0x800) >>> 4).toNat = bits imm.toNat 11 1 * 2 ^ 7 := by
      rw [UInt32.toNat_shiftRight, toNat_masked imm 0x800 11 1 rfl]
      show (bits imm.toNat 11 1 * 2 ^ 11) >>> 4 = _
      rw [Nat.shiftRight_eq_div_pow]
      omega
    have hor : ((siteWord insn &&& (0x01FFF07F : UInt32)) ||| (imm &&& 0x1000) <<< 19 |||
        (imm &&& 0x7E0) <<< 20 ||| (imm &&& 0x1E) <<< 7 ||| (imm &&& 0x800) >>> 4).toNat =
        branchWord imm.toNat (bits (siteWord insn).toNat 12 13)
          (bits (siteWord insn).toNat 0 7) := by
      have hfields := or_branch (bits_lt imm.toNat 5 6) (bits_lt (siteWord insn).toNat 12 13)
        (bits_lt imm.toNat 1 4) (bits_lt imm.toNat 11 1) (bits_lt (siteWord insn).toNat 0 7)
        (a := bits imm.toNat 12 1)
      refine Eq.trans ?_ hfields
      rw [UInt32.toNat_or, UInt32.toNat_or, UInt32.toNat_or, UInt32.toNat_or, hkept, h11]
      refine (congrArg₂ _ (congrArg₂ _ (congrArg₂ _ (congrArg _ h12) h5) h1) rfl).trans ?_
      ac_rfl
    exact congrArg (putLE 4) hor

/-- The upper part of a displacement, rounded to the nearest multiple of 4096. -/
def upperPart (d : Int) : Int := (d + 2 ^ 11) / 2 ^ 12 * 2 ^ 12

theorem upperImm_encode (insn : Bytes) (u : UInt64) :
    ∃ v, v < 2 ^ 32 ∧ encodeRiscvHi20 insn u.toInt64 = putLE 4 v ∧
      upperImm v % 2 ^ 32 = upperPart (signed 64 u.toNat) % 2 ^ 32 ∧
      bits v 0 12 = bits (siteWord insn).toNat 0 12 := by
  have hsum : u.toInt64 + 0x800 = (u + 0x800).toInt64 := rfl
  have hshift := toUInt32_toInt ((u + 0x800).toInt64 >>> 12)
  rw [toInt_upper] at hshift
  generalize hx : ((u + 0x800).toInt64 >>> 12).toUInt64.toUInt32 = x at hshift
  have hhi : ((x &&& 0xFFFFF) <<< 12).toNat = bits x.toNat 0 20 * 2 ^ 12 :=
    toNat_moved x 0xFFFFF 0 20 12 rfl (by decide) (by decide)
  have hlow : (siteWord insn &&& (0xFFF : UInt32)).toNat = bits (siteWord insn).toNat 0 12 := by
    rw [toNat_masked _ _ 0 12 rfl, Nat.pow_zero, Nat.mul_one]
  have hlt := bits_lt (siteWord insn).toNat 0 12
  have hword : ((siteWord insn &&& (0xFFF : UInt32)) ||| (x &&& 0xFFFFF) <<< 12).toNat =
      bits x.toNat 0 20 * 2 ^ 12 + bits (siteWord insn).toNat 0 12 := by
    rw [UInt32.toNat_or, hhi, hlow, Nat.or_comm]
    exact or_eq_add (k := 12) hlt (by omega)
  refine ⟨((siteWord insn &&& (0xFFF : UInt32)) ||| (x &&& 0xFFFFF) <<< 12).toNat,
    UInt32.toNat_lt _, ?_, ?_, ?_⟩
  · unfold encodeRiscvHi20
    rw [hsum, hx]
    rfl
  · have hu := u.toNat_lt
    have hadd : (u + 0x800).toNat = (u.toNat + 2 ^ 11) % 2 ^ 64 := UInt64.toNat_add u 0x800
    have hbits : ((bits x.toNat 0 20 : Nat) : Int) = (signed 64 u.toNat + 2 ^ 11) / 2 ^ 12 % 2 ^ 20 := by
      have hthere := signed_emod ((u + 0x800).toNat_lt)
      have hhere := signed_emod hu
      rw [hadd] at hshift hthere
      generalize signed 64 ((u.toNat + 2 ^ 11) % 2 ^ 64) = there at *
      generalize signed 64 u.toNat = here at *
      unfold bits
      omega
    rw [hword]
    generalize bits (siteWord insn).toNat 0 12 = r at *
    generalize bits x.toNat 0 20 = q at *
    have hfield : bits (q * 2 ^ 12 + r) 12 20 = q % 2 ^ 20 := by unfold bits; omega
    unfold upperImm upperPart
    rw [hfield]
    unfold signed at *
    omega
  · rw [hword]
    unfold bits
    omega

theorem lowImm_encode (insn : Bytes) (u : UInt64) :
    ∃ v, v < 2 ^ 32 ∧ encodeRiscvLo12I insn u.toInt64 = putLE 4 v ∧
      lowImm v = signed 12 (u.toNat % 2 ^ 12) ∧
      bits v 0 20 = bits (siteWord insn).toNat 0 20 := by
  have hshift := toUInt32_toInt u.toInt64
  rw [toInt_toInt64] at hshift
  generalize hx : u.toInt64.toUInt64.toUInt32 = x at hshift
  have hhi : ((x &&& 0xFFF) <<< 20).toNat = bits x.toNat 0 12 * 2 ^ 20 :=
    toNat_moved x 0xFFF 0 12 20 rfl (by decide) (by decide)
  have hlow : (siteWord insn &&& (0xFFFFF : UInt32)).toNat = bits (siteWord insn).toNat 0 20 := by
    rw [toNat_masked _ _ 0 20 rfl, Nat.pow_zero, Nat.mul_one]
  have hlt := bits_lt (siteWord insn).toNat 0 20
  have hword : ((siteWord insn &&& (0xFFFFF : UInt32)) ||| (x &&& 0xFFF) <<< 20).toNat =
      bits x.toNat 0 12 * 2 ^ 20 + bits (siteWord insn).toNat 0 20 := by
    rw [UInt32.toNat_or, hhi, hlow, Nat.or_comm]
    exact or_eq_add (k := 20) hlt (by omega)
  refine ⟨((siteWord insn &&& (0xFFFFF : UInt32)) ||| (x &&& 0xFFF) <<< 20).toNat,
    UInt32.toNat_lt _, ?_, ?_, ?_⟩
  · unfold encodeRiscvLo12I
    rw [hx]
    rfl
  · have hu := u.toNat_lt
    have hbits : bits x.toNat 0 12 = u.toNat % 2 ^ 12 := by
      unfold signed at hshift
      unfold bits
      omega
    rw [hword, ← hbits]
    generalize bits (siteWord insn).toNat 0 20 = r at *
    have hq := bits_lt x.toNat 0 12
    generalize bits x.toNat 0 12 = q at *
    have hfield : bits (q * 2 ^ 20 + r) 20 12 = q := by unfold bits; omega
    unfold lowImm
    rw [hfield]
  · rw [hword]
    unfold bits
    omega

end Tyu.Pack

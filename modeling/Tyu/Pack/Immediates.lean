import Tyu.Pack.Fields

/-! # The immediates that relocations write -/

namespace Tyu.Pack

open Lib Lib.Wire Lib.Branch Container InternalKind

/-! ## The Thumb decoder -/

def decodeBranch (insn : Bytes) : Option (Int × Bool) :=
  if insn.length < 4 then none
  else
    let hw0 := (u16At insn 0).getD 0
    let hw1 := (u16At insn 2).getD 0
    if hw0 &&& 0xF800 ≠ 0xF000 then none
    else if hw1 &&& 0xC000 ≠ 0xC000 then none
    else
      let s := (hw0 >>> 10 &&& 1).toUInt32
      let j1 := (hw1 >>> 13 &&& 1).toUInt32
      let j2 := (hw1 >>> 11 &&& 1).toUInt32
      let imm10 := (hw0 &&& 0x3FF).toUInt32
      let imm11 := (hw1 &&& 0x7FF).toUInt32
      let i1 := j1 ^^^ (s ^^^ 1)
      let i2 := j2 ^^^ (s ^^^ 1)
      let half := s <<< 23 ||| i1 <<< 22 ||| i2 <<< 21 ||| imm10 <<< 11 ||| imm11
      let halfSigned : Int :=
        if half &&& 0x800000 ≠ 0 then half.toNat - 0x1000000 else half.toNat
      some (halfSigned * 2, hw1 &&& 0x1000 ≠ 0)

theorem toNat_field16 (v : UInt16) (k n : Nat) (hk : k < 16) (hn : n < 16) :
    (v >>> UInt16.ofNat k &&& UInt16.ofNat (2 ^ n - 1)).toUInt32.toNat = bits v.toNat k n := by
  have hpow : 2 ^ n < 2 ^ 16 := Nat.pow_lt_pow_right (by decide) hn
  rw [UInt16.toNat_toUInt32, UInt16.toNat_and, UInt16.toNat_shiftRight,
    UInt16.toNat_ofNat_of_lt' (show k < 2 ^ 16 by omega),
    UInt16.toNat_ofNat_of_lt' (show 2 ^ n - 1 < 2 ^ 16 by omega), Nat.mod_eq_of_lt hk,
    Nat.and_two_pow_sub_one_eq_mod, Nat.shiftRight_eq_div_pow]
  rfl

theorem masked16 (v mask : UInt16) (lo n : Nat) (hmask : mask.toNat = (2 ^ n - 1) * 2 ^ lo) :
    (v &&& mask).toNat = bits v.toNat lo n * 2 ^ lo := by
  rw [UInt16.toNat_and, hmask, and_field]

theorem toNat_unflip {j s : UInt32} (hj : j.toNat < 2) (hs : s.toNat < 2) :
    (j ^^^ (s ^^^ 1)).toNat = thumbBit j.toNat s.toNat := by
  have h1 : j.toNat = 0 ∨ j.toNat = 1 := by omega
  have h2 : s.toNat = 0 ∨ s.toNat = 1 := by omega
  rw [UInt32.toNat_xor, UInt32.toNat_xor]
  rcases h1 with h1 | h1 <;> rcases h2 with h2 | h2 <;> rw [h1, h2] <;> rfl

theorem toNat_half {s i1 i2 imm10 imm11 : UInt32} (hs : s.toNat < 2) (h1 : i1.toNat < 2)
    (h2 : i2.toNat < 2) (h10 : imm10.toNat < 2 ^ 10) (h11 : imm11.toNat < 2 ^ 11) :
    (s <<< 23 ||| i1 <<< 22 ||| i2 <<< 21 ||| imm10 <<< 11 ||| imm11).toNat =
      s.toNat * 2 ^ 23 + i1.toNat * 2 ^ 22 + i2.toNat * 2 ^ 21 + imm10.toNat * 2 ^ 11 +
        imm11.toNat := by
  have es : (s <<< 23).toNat = s.toNat * 2 ^ 23 := toNat_shift (k := 23) (by decide) (by omega)
  have e1 : (i1 <<< 22).toNat = i1.toNat * 2 ^ 22 := toNat_shift (k := 22) (by decide) (by omega)
  have e2 : (i2 <<< 21).toNat = i2.toNat * 2 ^ 21 := toNat_shift (k := 21) (by decide) (by omega)
  have e10 : (imm10 <<< 11).toNat = imm10.toNat * 2 ^ 11 :=
    toNat_shift (k := 11) (by decide) (by omega)
  rw [UInt32.toNat_or, UInt32.toNat_or, UInt32.toNat_or, UInt32.toNat_or, es, e1, e2, e10]
  generalize s.toNat = a at *
  generalize i1.toNat = b at *
  generalize i2.toNat = c at *
  generalize imm10.toNat = d at *
  have o1 : a * 2 ^ 23 ||| b * 2 ^ 22 = a * 2 ^ 23 + b * 2 ^ 22 :=
    or_eq_add (k := 23) (by omega) (by omega)
  have o2 : a * 2 ^ 23 + b * 2 ^ 22 ||| c * 2 ^ 21 = a * 2 ^ 23 + b * 2 ^ 22 + c * 2 ^ 21 :=
    or_eq_add (k := 22) (by omega) (by omega)
  have o3 : a * 2 ^ 23 + b * 2 ^ 22 + c * 2 ^ 21 ||| d * 2 ^ 11 =
      a * 2 ^ 23 + b * 2 ^ 22 + c * 2 ^ 21 + d * 2 ^ 11 :=
    or_eq_add (k := 21) (by omega) (by omega)
  rw [o1, o2, o3]
  exact or_eq_add (k := 11) h11 (by omega)

theorem decodeBranch_words {hw0 hw1 : UInt16} (h0 : bits hw0.toNat 11 5 = 0b11110)
    (h1 : bits hw1.toNat 14 2 = 0b11) :
    decodeBranch (put16 hw0 ++ put16 hw1) =
      some (thumbDisp hw0.toNat hw1.toNat, decide (bits hw1.toNat 12 1 = 1)) := by
  have hget0 : u16At (put16 hw0 ++ put16 hw1) 0 = some hw0 := u16At_put hw0 _
  have hget1 : u16At (put16 hw0 ++ put16 hw1) 2 = some hw1 := by
    rw [u16At_skip (by rw [length_put16]), length_put16]
    exact (congrArg (u16At · 0) (List.append_nil (put16 hw1)).symm).trans (u16At_put hw1 [])
  have hfix0 : hw0 &&& 0xF800 = 0xF000 := by
    apply UInt16.toNat_inj.mp
    rw [masked16 hw0 0xF800 11 5 rfl, h0]
    rfl
  have hfix1 : hw1 &&& 0xC000 = 0xC000 := by
    apply UInt16.toNat_inj.mp
    rw [masked16 hw1 0xC000 14 2 rfl, h1]
    rfl
  have hlink : (hw1 &&& 0x1000 ≠ 0) ↔ bits hw1.toNat 12 1 = 1 := by
    have hbit := bit_cases hw1.toNat 12
    rw [Ne, ← UInt16.toNat_inj, masked16 hw1 0x1000 12 1 rfl]
    show ¬ bits hw1.toNat 12 1 * 2 ^ 12 = 0 ↔ _
    omega
  have es : (hw0 >>> 10 &&& 1).toUInt32.toNat = bits hw0.toNat 10 1 :=
    toNat_field16 hw0 10 1 (by decide) (by decide)
  have ej1 : (hw1 >>> 13 &&& 1).toUInt32.toNat = bits hw1.toNat 13 1 :=
    toNat_field16 hw1 13 1 (by decide) (by decide)
  have ej2 : (hw1 >>> 11 &&& 1).toUInt32.toNat = bits hw1.toNat 11 1 :=
    toNat_field16 hw1 11 1 (by decide) (by decide)
  have e10 : (hw0 &&& 0x3FF).toUInt32.toNat = bits hw0.toNat 0 10 := by
    rw [UInt16.toNat_toUInt32, masked16 hw0 0x3FF 0 10 rfl, Nat.pow_zero, Nat.mul_one]
  have e11 : (hw1 &&& 0x7FF).toUInt32.toNat = bits hw1.toNat 0 11 := by
    rw [UInt16.toNat_toUInt32, masked16 hw1 0x7FF 0 11 rfl, Nat.pow_zero, Nat.mul_one]
  have bs := bits_lt hw0.toNat 10 1
  have bj1 := bits_lt hw1.toNat 13 1
  have bj2 := bits_lt hw1.toNat 11 1
  have b10 := bits_lt hw0.toNat 0 10
  have b11 := bits_lt hw1.toNat 0 11
  unfold decodeBranch
  rw [if_neg (by rw [List.length_append, length_put16, length_put16]; decide)]
  dsimp only
  rw [hget0, hget1, Option.getD_some, Option.getD_some, if_neg (not_not_intro hfix0),
    if_neg (not_not_intro hfix1)]
  generalize (hw0 >>> 10 &&& 1).toUInt32 = s at *
  generalize (hw1 >>> 13 &&& 1).toUInt32 = j1 at *
  generalize (hw1 >>> 11 &&& 1).toUInt32 = j2 at *
  generalize (hw0 &&& 0x3FF).toUInt32 = imm10 at *
  generalize (hw1 &&& 0x7FF).toUInt32 = imm11 at *
  have ei1 := toNat_unflip (j := j1) (s := s) (by omega) (by omega)
  have ei2 := toNat_unflip (j := j2) (s := s) (by omega) (by omega)
  generalize j1 ^^^ (s ^^^ 1) = i1 at *
  generalize j2 ^^^ (s ^^^ 1) = i2 at *
  have hbit (a b : Nat) : thumbBit a b < 2 := by
    unfold thumbBit
    split <;> omega
  have hi1 := hbit j1.toNat s.toNat
  have hi2 := hbit j2.toNat s.toNat
  have ehalf := @toNat_half s i1 i2 imm10 imm11
    (by omega) (by omega) (by omega) (by omega) (by omega)
  generalize s <<< 23 ||| i1 <<< 22 ||| i2 <<< 21 ||| imm10 <<< 11 ||| imm11 = half at *
  have hsign : (half &&& 0x800000 ≠ 0) ↔ s.toNat = 1 := by
    rw [Ne, ← UInt32.toNat_inj, toNat_masked half 0x800000 23 1 rfl, ehalf]
    show ¬ bits _ 23 1 * 2 ^ 23 = 0 ↔ _
    unfold bits
    omega
  refine congrArg some (Prod.ext ?_ (decide_eq_decide.mpr hlink))
  unfold thumbDisp
  dsimp only
  rw [← es, ← ej1, ← ej2, ← e10, ← e11, ← ei1, ← ei2]
  show (if half &&& 0x800000 ≠ 0 then (half.toNat : Int) - 0x1000000 else half.toNat) * 2 = _
  unfold signed
  by_cases hs : s.toNat = 1
  · rw [if_pos (hsign.mpr hs), if_neg (by omega)]
    omega
  · rw [if_neg (mt hsign.mp hs), if_pos (by omega)]
    omega

/-- Inside the reach of the field the offset and the link bit come back, and outside it the
encoder refuses. -/
def BranchExact (insn : Bytes) (offset : Int64) (link : Option Bool) : Prop :=
  if Reaches 24 offset.toInt then
    ∃ new, encodeBranch insn offset link = some new ∧
      decodeBranch new = some (offset.toInt, link.getD (linked insn))
  else encodeBranch insn offset link = none

theorem linkBit_eq {insn : Bytes} (hlen : insn.length = 4) (link : Option Bool) :
    (linkBit insn link).toNat = if link.getD (linked insn) then 0x1000 else 0 := by
  cases link with
  | none => exact linkBit_none hlen
  | some l => cases l <;> rfl

theorem decode_encode {insn : Bytes} {u : UInt64} (hlen : insn.length = 4) (link : Option Bool)
    (hreach : Reaches 24 (signed 64 u.toNat)) :
    ∃ new, encodeBranch insn u.toInt64 link = some new ∧
      decodeBranch new = some (innerDisp (signed 64 u.toNat), link.getD (linked insn)) := by
  have hl := linkBit_eq hlen link
  generalize link.getD (linked insn) = l at *
  have hl' : (if l then 0x1000 else 0) = 0 ∨ (if l then 0x1000 else 0) = 0x1000 := by
    cases l
    · exact .inl rfl
    · exact .inr rfl
  obtain ⟨h, hw0, hw1, hhalf, hwords, hsome⟩ := encodeBranch_some link hlen hl hl' hreach
  refine ⟨_, hsome, ?_⟩
  have h10 := bits_lt h 11 10
  have h11 := bits_lt h 0 11
  have hs := bits_lt h 23 1
  have hfix0 : bits hw0.toNat 11 5 = 0b11110 := by
    rw [hwords.hw0]
    generalize bits h 23 1 = s at *
    generalize bits h 11 10 = imm10 at *
    unfold bits
    omega
  have hfix1 : bits hw1.toNat 14 2 = 0b11 ∧ (bits hw1.toNat 12 1 = 1 ↔ l = true) := by
    rw [hwords.hw1]
    generalize bits h 21 1 = i2 at *
    generalize bits h 23 1 = s at *
    generalize bits h 0 11 = imm11 at *
    unfold bits
    cases l
    · exact ⟨by simp only [Bool.false_eq_true, if_false]; omega, by simp; omega⟩
    · exact ⟨by simp only [if_true]; omega, by simp; omega⟩
  have hlink : decide (bits hw1.toNat 12 1 = 1) = l := by
    rw [Bool.eq_iff_iff, decide_eq_true_iff]
    exact hfix1.2
  rw [decodeBranch_words hfix0 hfix1.1, hwords.disp hl', forced_disp hhalf hreach, hlink]

theorem branchExact_iff {insn : Bytes} (hlen : insn.length = 4) (u : UInt64) (link : Option Bool) :
    BranchExact insn u.toInt64 link ↔
      (Reaches 24 (signed 64 u.toNat) → Reaches 23 (signed 64 u.toNat)) := by
  unfold BranchExact
  rw [toInt_toInt64]
  by_cases hreach : Reaches 24 (signed 64 u.toNat)
  · rw [if_pos hreach, ← innerDisp_eq_iff hreach]
    obtain ⟨new, hnew, hdecode⟩ := decode_encode hlen link hreach
    constructor
    · rintro ⟨new', hnew', hdecode'⟩ -
      rw [hnew, Option.some.injEq] at hnew'
      rw [← hnew', hdecode, Option.some.injEq, Prod.mk.injEq] at hdecode'
      exact hdecode'.1
    · intro hinner
      exact ⟨new, hnew, by rw [hdecode, hinner hreach]⟩
  · rw [if_neg hreach]
    exact iff_of_true (encodeBranch_none link hreach) fun h => absurd h hreach

/-! ## RISC-V -/

theorem encodeRiscvJal_isSome {insn : Bytes} {u : UInt64} (hreach : Reaches 20 (signed 64 u.toNat)) :
    ∃ new, encodeRiscvJal insn u.toInt64 = some new := by
  have hin : ¬ (u.toInt64 &&& 1 ≠ 0 ∨ u.toInt64 < -0x100000 ∨ u.toInt64 > 0xFFFFF) := by
    rw [low_bit, gt_iff_lt, Int64.lt_iff_toInt_lt, Int64.lt_iff_toInt_lt, toInt_toInt64]
    show ¬ (_ ∨ signed 64 u.toNat < -0x100000 ∨ 0xFFFFF < signed 64 u.toNat)
    unfold Reaches at hreach
    omega
  unfold encodeRiscvJal
  rw [if_neg hin]
  exact ⟨_, rfl⟩

theorem encodeRiscvBranch_isSome {insn : Bytes} {u : UInt64}
    (hreach : Reaches 12 (signed 64 u.toNat)) :
    ∃ new, encodeRiscvBranch insn u.toInt64 = some new := by
  have hin : ¬ (u.toInt64 &&& 1 ≠ 0 ∨ u.toInt64 < -0x1000 ∨ u.toInt64 > 0xFFE) := by
    rw [low_bit, gt_iff_lt, Int64.lt_iff_toInt_lt, Int64.lt_iff_toInt_lt, toInt_toInt64]
    show ¬ (_ ∨ signed 64 u.toNat < -0x1000 ∨ 0xFFE < signed 64 u.toNat)
    unfold Reaches at hreach
    omega
  unfold encodeRiscvBranch
  rw [if_neg hin]
  exact ⟨_, rfl⟩

/-- The jump of a word is `d`, and its low twelve bits are those of `insn`. -/
def JalIs (d : Int) (insn new : Bytes) : Prop :=
  jalDisp (getLE new) = d ∧ bits (getLE new) 0 12 = bits (getLE insn) 0 12

/-- Every form gives back the values in its range and keeps the other bits: the pair of an upper
and a low immediate modulo 2^32, the jumps of the packer and of the loader, and the branch. -/
structure RiscvExact (insn other : Bytes) (d : Int64) : Prop where
  pair : (upperImm (getLE (encodeRiscvHi20 insn d)) + lowImm (getLE (encodeRiscvLo12I other d))) %
    2 ^ 32 = d.toInt % 2 ^ 32
  upper : bits (getLE (encodeRiscvHi20 insn d)) 0 12 = bits (getLE insn) 0 12
  low : bits (getLE (encodeRiscvLo12I other d)) 0 20 = bits (getLE other) 0 20
  jal : Reaches 20 d.toInt → ∃ new, encodeRiscvJal insn d = some new ∧ JalIs d.toInt insn new
  loaded : Reaches 20 d.toInt → ∃ new, encodeRiscVJal insn d = some new ∧ JalIs d.toInt insn new
  branch : Reaches 12 d.toInt → ∃ new, encodeRiscvBranch insn d = some new ∧
    branchDisp (getLE new) = d.toInt ∧ bits (getLE new) 0 7 = bits (getLE insn) 0 7 ∧
    bits (getLE new) 12 13 = bits (getLE insn) 12 13

theorem jalIs_jalWord {insn : Bytes} {v : Nat} {d : Int} (hv : (v : Int) = d % 2 ^ 32)
    (hreach : Reaches 20 d) : JalIs d insn (putLE 4 (jalWord v (getLE insn % 2 ^ 12))) := by
  have hr : getLE insn % 2 ^ 12 < 2 ^ 12 := Nat.mod_lt _ (by decide)
  unfold JalIs
  rw [getLE_putLE (jalWord_lt v hr)]
  refine ⟨jalDisp_jalWord hv hr hreach, ?_⟩
  unfold jalWord
  generalize bits v 20 1 = a
  generalize bits v 1 10 = b
  generalize bits v 11 1 = c
  generalize bits v 12 8 = e
  unfold bits
  omega

theorem bits_branchWord (u : Nat) {e o : Nat} (he : e < 2 ^ 13) (ho : o < 2 ^ 7) :
    bits (branchWord u e o) 0 7 = o ∧ bits (branchWord u e o) 12 13 = e := by
  have b1 := bits_lt u 1 4
  have b11 := bits_lt u 11 1
  unfold branchWord
  generalize bits u 12 1 = a
  generalize bits u 5 6 = b
  generalize bits u 1 4 = c at *
  generalize bits u 11 1 = f at *
  unfold bits
  omega

theorem riscvExact {insn other : Bytes} (hlen : insn.length = 4) (hlen' : other.length = 4)
    (u : UInt64) : RiscvExact insn other u.toInt64 := by
  obtain ⟨v, hv, hhi, hupper, hkept⟩ := upperImm_encode insn u
  obtain ⟨w, hw, hlo, hlow, hkept'⟩ := lowImm_encode other u
  constructor
  · have hu := u.toNat_lt
    rw [hhi, hlo, getLE_putLE hv, getLE_putLE hw, hlow, toInt_toInt64]
    unfold upperPart at hupper
    unfold signed at *
    split <;> omega
  · rw [hhi, getLE_putLE hv, hkept, siteWord_toNat hlen]
  · rw [hlo, getLE_putLE hw, hkept', siteWord_toNat hlen']
  · intro hreach
    rw [toInt_toInt64] at hreach ⊢
    obtain ⟨new, hnew⟩ : ∃ new, encodeRiscvJal insn u.toInt64 = some new :=
      encodeRiscvJal_isSome hreach
    obtain ⟨-, x, hx, rfl⟩ := encodeRiscvJal_some hlen hnew
    exact ⟨_, hnew, jalIs_jalWord hx hreach⟩
  · intro hreach
    rw [toInt_toInt64] at hreach ⊢
    obtain ⟨x, hx, hnew⟩ := encodeRiscVJal_some hlen hreach
    exact ⟨_, hnew, jalIs_jalWord hx hreach⟩
  · intro hreach
    rw [toInt_toInt64] at hreach ⊢
    obtain ⟨new, hnew⟩ : ∃ new, encodeRiscvBranch insn u.toInt64 = some new :=
      encodeRiscvBranch_isSome hreach
    obtain ⟨-, x, hx, rfl⟩ := encodeRiscvBranch_some hnew
    have he := bits_lt (siteWord insn).toNat 12 13
    have ho := bits_lt (siteWord insn).toNat 0 7
    refine ⟨_, hnew, ?_⟩
    rw [getLE_putLE (branchWord_lt x he ho), (bits_branchWord x he ho).1,
      (bits_branchWord x he ho).2, siteWord_toNat hlen]
    rw [siteWord_toNat hlen] at he ho
    exact ⟨branchDisp_branchWord hx he ho hreach, rfl, rfl⟩

/-- **The codecs of the immediates.**  For every four bytes, every offset and every link mode the
Thumb codec and the RISC-V forms are exact, if and only if the offset is not in the outer half of
the Thumb reach. -/
theorem immediates_exact_iff (b₀ b₁ b₂ b₃ c₀ c₁ c₂ c₃ : UInt8) (offset : Int64)
    (link : Option Bool) :
    BranchExact [b₀, b₁, b₂, b₃] offset link ∧
        RiscvExact [b₀, b₁, b₂, b₃] [c₀, c₁, c₂, c₃] offset ↔
      (Reaches 24 offset.toInt → Reaches 23 offset.toInt) := by
  obtain ⟨u, rfl⟩ : ∃ u : UInt64, offset = u.toInt64 := ⟨offset.toUInt64, rfl⟩
  have hbranch := branchExact_iff (show [b₀, b₁, b₂, b₃].length = 4 from rfl) u link
  rw [hbranch, toInt_toInt64]
  exact and_iff_left (riscvExact rfl rfl u)

/-- A branch by eight mebibytes is decoded as a branch by none. -/
theorem branch_8MiB_lost : ∃ (insn new : Bytes) (offset : Int64), offset.toInt = 0x800000 ∧
    encodeBranch insn offset (some true) = some new ∧ decodeBranch new = some (0, true) ∧
    ¬ BranchExact insn offset (some true) := by
  refine ⟨[0, 0xF0, 0, 0xF8], [0, 0xF0, 0, 0xF8], 0x800000, rfl, by decide, by decide, ?_⟩
  have h := branchExact_iff (show [0, 0xF0, 0, 0xF8].length = 4 from rfl) 0x800000 (some true)
  intro hexact
  exact absurd (h.mp hexact) (by decide)

end Tyu.Pack

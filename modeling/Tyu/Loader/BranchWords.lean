import Tyu.Lib.Branch
import Tyu.Loader.Reloc

/-! # The words of patched branches -/

namespace Tyu

open Lib Lib.Wire Lib.Branch Container

/-! ## The words of a Thumb branch -/

def linkBit (insn : Bytes) (link : Option Bool) : UInt16 :=
  match link with
  | some true => 0x1000
  | some false => 0
  | none => (u16At insn 2).getD 0 &&& 0x1000

/-- The halfwords of a branch by `h` halfwords with the link bit `l`.  The template of the second
one has its bit 13 set, so the bit J1 that belongs there is lost. -/
structure BranchWords (h l : Nat) (hw0 hw1 : UInt16) : Prop where
  hw0 : hw0.toNat = 0xF000 + bits h 23 1 * 1024 + bits h 11 10
  hw1 : hw1.toNat = 0xE000 + l + (1 + bits h 21 1 + bits h 23 1) % 2 * 2048 + bits h 0 11

theorem bit_cases (v lo : Nat) : bits v lo 1 = 0 ∨ bits v lo 1 = 1 := by
  have hlt := bits_lt v lo 1
  omega

variable {k h l r : Nat} {insn : Bytes} {u : UInt64} {hw0 hw1 : UInt16} {d : Int}

theorem toNat_bit {v : UInt32} (hk : k < 32) :
    (v >>> UInt32.ofNat k &&& 1).toUInt16.toNat = bits v.toNat k 1 := by
  have hfield := toNat_field v k 1 hk (by decide)
  have hlt := bits_lt v.toNat k 1
  rw [UInt32.toNat_toUInt16]
  show (v >>> UInt32.ofNat k &&& UInt32.ofNat (2 ^ 1 - 1)).toNat % _ = _
  rw [hfield]
  omega

theorem toNat_flip {i s : UInt16} (hi : i.toNat = bits h k 1) (hs : s.toNat = bits h 23 1) :
    (1 ^^^ i ^^^ s).toNat = (1 + bits h k 1 + bits h 23 1) % 2 := by
  rw [UInt16.toNat_xor, UInt16.toNat_xor, hi, hs]
  rcases bit_cases h k with hx | hx <;> rcases bit_cases h 23 with hy | hy <;> rw [hx, hy] <;> rfl

theorem template_bits {j1 j2 : Nat} (hl : l = 0 ∨ l = 0x1000) (hj1 : j1 < 2) (hj2 : j2 < 2) :
    0xE000 ||| l ||| j1 <<< 13 % 2 ^ 16 ||| j2 <<< 11 % 2 ^ 16 = 0xE000 + l + j2 * 2048 := by
  have h1 : j1 = 0 ∨ j1 = 1 := by omega
  have h2 : j2 = 0 ∨ j2 = 1 := by omega
  rcases hl with rfl | rfl <;> rcases h1 with rfl | rfl <;> rcases h2 with rfl | rfl <;> rfl

theorem words_of_fields {s i1 i2 imm10 imm11 k : UInt16} (hs : s.toNat = bits h 23 1)
    (hi1 : i1.toNat = bits h 22 1) (hi2 : i2.toNat = bits h 21 1)
    (himm10 : imm10.toNat = bits h 11 10) (himm11 : imm11.toNat = bits h 0 11) (hk : k.toNat = l)
    (hl : l = 0 ∨ l = 0x1000) :
    BranchWords h l ((0xF000 : UInt16) ||| s <<< 10 ||| imm10)
      ((0xE000 : UInt16) ||| k ||| (1 ^^^ i1 ^^^ s) <<< 13 ||| (1 ^^^ i2 ^^^ s) <<< 11 ||| imm11) := by
  have h10 := bits_lt h 11 10
  have h11 := bits_lt h 0 11
  constructor
  · rw [UInt16.toNat_or, UInt16.toNat_or, UInt16.toNat_shiftLeft, hs, himm10]
    rcases bit_cases h 23 with hb | hb
    · rw [hb]
      exact or_eq_add (k := 10) h10 (by decide)
    · rw [hb]
      exact or_eq_add (k := 10) h10 (by decide)
  · rw [UInt16.toNat_or, UInt16.toNat_or, UInt16.toNat_or, UInt16.toNat_or,
      UInt16.toNat_shiftLeft, UInt16.toNat_shiftLeft, toNat_flip hi1 hs, toNat_flip hi2 hs,
      himm11, hk]
    have hbits := template_bits hl (show (1 + bits h 22 1 + bits h 23 1) % 2 < 2 by omega)
      (show (1 + bits h 21 1 + bits h 23 1) % 2 < 2 by omega)
    refine (congrArg (· ||| bits h 0 11) hbits).trans (or_eq_add (k := 11) h11 ?_)
    rcases hl with rfl | rfl <;> omega

theorem encodeBranch_none (link : Option Bool) (h : ¬ Reaches 24 (signed 64 u.toNat)) :
    encodeBranch insn u.toInt64 link = none := by
  unfold encodeBranch
  by_cases hlen : insn.length < 4
  · rw [if_pos hlen]
  rw [if_neg hlen]
  by_cases hodd : u.toInt64 &&& 1 ≠ 0
  · rw [if_pos hodd]
  rw [if_neg hodd]
  have heven := (not_congr (low_bit u)).mp hodd
  have hrange : u.toInt64 >>> 1 < -0x800000 ∨ u.toInt64 >>> 1 > 0x7FFFFF := by
    rw [gt_iff_lt, Int64.lt_iff_toInt_lt, Int64.lt_iff_toInt_lt, toInt_half]
    show signed 64 u.toNat / 2 < -0x800000 ∨ 0x7FFFFF < signed 64 u.toNat / 2
    unfold Reaches at h
    omega
  exact if_pos hrange

theorem encodeBranch_some (link : Option Bool) (hlen : insn.length = 4)
    (hl : (linkBit insn link).toNat = l) (hl' : l = 0 ∨ l = 0x1000)
    (hreach : Reaches 24 (signed 64 u.toNat)) :
    ∃ h hw0 hw1, ((h : Nat) : Int) = signed 64 u.toNat / 2 % 2 ^ 32 ∧ BranchWords h l hw0 hw1 ∧
      encodeBranch insn u.toInt64 link = some (put16 hw0 ++ put16 hw1) := by
  obtain ⟨heven, hlow, hhigh⟩ := hreach
  have hshort : ¬ insn.length < 4 := by omega
  have hbit : ¬ (u.toInt64 &&& 1 ≠ 0) := (not_congr (low_bit u)).mpr (not_not_intro heven)
  have hrange : ¬ (u.toInt64 >>> 1 < -0x800000 ∨ u.toInt64 >>> 1 > 0x7FFFFF) := by
    rw [gt_iff_lt, Int64.lt_iff_toInt_lt, Int64.lt_iff_toInt_lt, toInt_half]
    show ¬ (signed 64 u.toNat / 2 < -0x800000 ∨ 0x7FFFFF < signed 64 u.toNat / 2)
    omega
  have hdrop : insn.drop 4 = [] := List.drop_eq_nil_of_le (by omega)
  have hhalf : (((u.toInt64 >>> 1).toUInt64.toUInt32.toNat : Nat) : Int) =
      signed 64 u.toNat / 2 % 2 ^ 32 := by rw [toUInt32_toInt, toInt_half]
  generalize hv : (u.toInt64 >>> 1).toUInt64.toUInt32 = v at hhalf
  have h10 : (v >>> 11 &&& 0x3FF).toUInt16.toNat = bits v.toNat 11 10 := by
    have hfield := toNat_field v 11 10 (by decide) (by decide)
    have hlt := bits_lt v.toNat 11 10
    rw [UInt32.toNat_toUInt16]
    exact (congrArg (· % 2 ^ 16) hfield).trans (Nat.mod_eq_of_lt (by omega))
  have h11 : (v &&& 0x7FF).toUInt16.toNat = bits v.toNat 0 11 := by
    rw [UInt32.toNat_toUInt16, UInt32.toNat_and]
    show (v.toNat &&& 2 ^ 11 - 1) % 2 ^ 16 = _
    rw [Nat.and_two_pow_sub_one_eq_mod]
    unfold bits
    omega
  have hwords := words_of_fields (toNat_bit (v := v) (k := 23) (by decide))
    (toNat_bit (v := v) (k := 22) (by decide)) (toNat_bit (v := v) (k := 21) (by decide))
    h10 h11 hl hl'
  refine ⟨v.toNat, _, _, hhalf, hwords, ?_⟩
  unfold encodeBranch
  rw [if_neg hshort, if_neg hbit]
  dsimp only
  rw [if_neg hrange, hdrop, List.append_nil, hv]
  rfl

theorem BranchWords.form (hw : BranchWords h 0x1000 hw0 hw1) :
    thumbForm hw0.toNat hw1.toNat = some .call := by
  have h10 := bits_lt h 11 10
  have h11 := bits_lt h 0 11
  have hs := bits_lt h 23 1
  unfold thumbForm
  rw [hw.hw0, hw.hw1]
  generalize bits h 23 1 = s at *
  generalize bits h 11 10 = imm10 at *
  generalize bits h 0 11 = imm11 at *
  generalize bits h 21 1 = i2 at *
  unfold bits
  rw [if_neg (by omega), if_pos (by omega)]

theorem BranchWords.link (hw : BranchWords h 0x1000 hw0 hw1) : bits hw1.toNat 12 1 = 1 := by
  have h11 := bits_lt h 0 11
  rw [hw.hw1]
  generalize bits h 0 11 = imm11 at *
  unfold bits
  omega

theorem BranchWords.disp (hw : BranchWords h l hw0 hw1) (hl : l = 0 ∨ l = 0x1000) :
    thumbDisp hw0.toNat hw1.toNat = signed 25 (bits h 23 1 * 2 ^ 24 + bits h 23 1 * 2 ^ 23 +
      bits h 21 1 * 2 ^ 22 + bits h 11 10 * 2 ^ 12 + bits h 0 11 * 2) := by
  have h10 := bits_lt h 11 10
  have h11 := bits_lt h 0 11
  have hs := bit_cases h 23
  have hi2 := bit_cases h 21
  obtain ⟨m, hm, rfl⟩ : ∃ m, m < 2 ∧ l = m * 4096 := by
    rcases hl with rfl | rfl
    · exact ⟨0, by decide, rfl⟩
    · exact ⟨1, by decide, rfl⟩
  unfold thumbDisp thumbBit
  rw [hw.hw0, hw.hw1]
  generalize bits h 23 1 = s at *
  generalize bits h 11 10 = imm10 at *
  generalize bits h 0 11 = imm11 at *
  generalize bits h 21 1 = i2 at *
  have hflip : (1 + i2 + s) % 2 < 2 := Nat.mod_lt _ (by decide)
  obtain ⟨j2, hj2⟩ : ∃ j2, j2 = (1 + i2 + s) % 2 := ⟨_, rfl⟩
  rw [← hj2] at hflip ⊢
  have e1 : bits (0xF000 + s * 1024 + imm10) 10 1 = s :=
    bits_eq (h := 30) (by omega) h10 (by omega)
  have e2 : bits (0xF000 + s * 1024 + imm10) 0 10 = imm10 :=
    bits_eq (h := 60 + s) (l := 0) (by omega) (by decide) h10
  have e3 : bits (0xE000 + m * 4096 + j2 * 2048 + imm11) 13 1 = 1 :=
    bits_eq (h := 3) (l := m * 4096 + j2 * 2048 + imm11) (by omega) (by omega) (by decide)
  have e4 : bits (0xE000 + m * 4096 + j2 * 2048 + imm11) 11 1 = j2 :=
    bits_eq (h := 14 + m) (by omega) h11 hflip
  have e5 : bits (0xE000 + m * 4096 + j2 * 2048 + imm11) 0 11 = imm11 :=
    bits_eq (h := 28 + m * 2 + j2) (l := 0) (by omega) (by decide) h11
  rw [e1, e2, e3, e4, e5, hj2]
  rcases hs with rfl | rfl <;> rcases hi2 with rfl | rfl <;> rfl

/-- What is left of a displacement of 25 bits without the bit below its sign. -/
def innerDisp (d : Int) : Int := if d < 0 then d % 2 ^ 23 - 2 ^ 23 else d % 2 ^ 23

theorem forced_disp (hh : (h : Int) = d / 2 % 2 ^ 32) (hreach : Reaches 24 d) :
    signed 25 (bits h 23 1 * 2 ^ 24 + bits h 23 1 * 2 ^ 23 + bits h 21 1 * 2 ^ 22 +
      bits h 11 10 * 2 ^ 12 + bits h 0 11 * 2) = innerDisp d := by
  obtain ⟨heven, hlow, hhigh⟩ := hreach
  have h1 : bits h 11 10 * 2 ^ 11 + bits h 0 11 = bits h 0 21 := bits_join h 0 11 10
  have h2 : bits h 21 1 * 2 ^ 21 + bits h 0 21 = bits h 0 22 := bits_join h 0 21 1
  have hsum : ∀ s i a b : Nat, s * 2 ^ 24 + s * 2 ^ 23 + i * 2 ^ 22 + a * 2 ^ 12 + b * 2 =
      s * 2 ^ 24 + s * 2 ^ 23 + (i * 2 ^ 21 + (a * 2 ^ 11 + b)) * 2 := by omega
  rw [hsum, h1, h2]
  unfold innerDisp
  unfold signed bits
  split <;> split <;> omega

theorem innerDisp_eq_iff (hreach : Reaches 24 d) : innerDisp d = d ↔ Reaches 23 d := by
  unfold Reaches at *
  unfold innerDisp
  split <;> omega

/-! ## The word of a jump-and-link -/

/-- A JAL by `u` bytes, with the low twelve bits `r`. -/
def jalWord (u r : Nat) : Nat :=
  bits u 20 1 * 2 ^ 31 + bits u 1 10 * 2 ^ 21 + bits u 11 1 * 2 ^ 20 + bits u 12 8 * 2 ^ 12 + r

theorem toNat_shift {x : UInt32} (hk : k < 32) (hx : x.toNat * 2 ^ k < 2 ^ 32) :
    (x <<< UInt32.ofNat k).toNat = x.toNat * 2 ^ k := by
  rw [UInt32.toNat_shiftLeft, UInt32.toNat_ofNat_of_lt' (show k < 2 ^ 32 by omega),
    Nat.mod_eq_of_lt hk, Nat.shiftLeft_eq, Nat.mod_eq_of_lt hx]

theorem or_fields {a b c e : Nat} (hb : b < 2 ^ 10) (hc : c < 2) (he : e < 2 ^ 8) (hr : r < 2 ^ 12)
    :
    a * 2 ^ 31 ||| b * 2 ^ 21 ||| c * 2 ^ 20 ||| e * 2 ^ 12 ||| r =
      a * 2 ^ 31 + b * 2 ^ 21 + c * 2 ^ 20 + e * 2 ^ 12 + r := by
  have h1 : a * 2 ^ 31 ||| b * 2 ^ 21 = a * 2 ^ 31 + b * 2 ^ 21 :=
    or_eq_add (k := 31) (by omega) (by omega)
  have h2 : a * 2 ^ 31 + b * 2 ^ 21 ||| c * 2 ^ 20 = a * 2 ^ 31 + b * 2 ^ 21 + c * 2 ^ 20 :=
    or_eq_add (k := 21) (by omega) (by omega)
  have h3 : a * 2 ^ 31 + b * 2 ^ 21 + c * 2 ^ 20 ||| e * 2 ^ 12 =
      a * 2 ^ 31 + b * 2 ^ 21 + c * 2 ^ 20 + e * 2 ^ 12 :=
    or_eq_add (k := 20) (by omega) (by omega)
  rw [h1, h2, h3]
  exact or_eq_add (k := 12) hr (by omega)

theorem toNat_jalWord {u r : UInt32} (hr : r.toNat < 2 ^ 12) :
    ((u >>> 20 &&& 1) <<< 31 ||| (u >>> 1 &&& 0x3FF) <<< 21 ||| (u >>> 11 &&& 1) <<< 20 |||
      (u >>> 12 &&& 0xFF) <<< 12 ||| r).toNat = jalWord u.toNat r.toNat := by
  have h20 : (u >>> 20 &&& 1).toNat = bits u.toNat 20 1 :=
    toNat_field u 20 1 (by decide) (by decide)
  have h10 : (u >>> 1 &&& 0x3FF).toNat = bits u.toNat 1 10 :=
    toNat_field u 1 10 (by decide) (by decide)
  have h11 : (u >>> 11 &&& 1).toNat = bits u.toNat 11 1 :=
    toNat_field u 11 1 (by decide) (by decide)
  have h19 : (u >>> 12 &&& 0xFF).toNat = bits u.toNat 12 8 :=
    toNat_field u 12 8 (by decide) (by decide)
  have b20 := bits_lt u.toNat 20 1
  have b10 := bits_lt u.toNat 1 10
  have b11 := bits_lt u.toNat 11 1
  have b19 := bits_lt u.toNat 12 8
  have s20 : ((u >>> 20 &&& 1) <<< 31).toNat = bits u.toNat 20 1 * 2 ^ 31 :=
    (toNat_shift (k := 31) (by decide) (by omega)).trans (congrArg (· * 2 ^ 31) h20)
  have s10 : ((u >>> 1 &&& 0x3FF) <<< 21).toNat = bits u.toNat 1 10 * 2 ^ 21 :=
    (toNat_shift (k := 21) (by decide) (by omega)).trans (congrArg (· * 2 ^ 21) h10)
  have s11 : ((u >>> 11 &&& 1) <<< 20).toNat = bits u.toNat 11 1 * 2 ^ 20 :=
    (toNat_shift (k := 20) (by decide) (by omega)).trans (congrArg (· * 2 ^ 20) h11)
  have s19 : ((u >>> 12 &&& 0xFF) <<< 12).toNat = bits u.toNat 12 8 * 2 ^ 12 :=
    (toNat_shift (k := 12) (by decide) (by omega)).trans (congrArg (· * 2 ^ 12) h19)
  rw [UInt32.toNat_or, UInt32.toNat_or, UInt32.toNat_or, UInt32.toNat_or, s20, s10, s11, s19,
    or_fields b10 b11 b19 hr]
  rfl

theorem jalWord_lt (u : Nat) (hr : r < 2 ^ 12) : jalWord u r < 2 ^ 32 := by
  have b20 := bits_lt u 20 1
  have b10 := bits_lt u 1 10
  have b11 := bits_lt u 11 1
  have b19 := bits_lt u 12 8
  unfold jalWord
  omega

theorem jalDisp_fields {a b c e : Nat} (ha : a < 2 ^ 1) (hb : b < 2 ^ 10) (hc : c < 2 ^ 1)
    (he : e < 2 ^ 8) (hr : r < 2 ^ 12) :
    jalDisp (a * 2 ^ 31 + b * 2 ^ 21 + c * 2 ^ 20 + e * 2 ^ 12 + r) =
      signed 21 ((a * 2 ^ 19 + (e * 2 ^ 11 + (c * 2 ^ 10 + b))) * 2) := by
  have e1 : bits (a * 2 ^ 31 + b * 2 ^ 21 + c * 2 ^ 20 + e * 2 ^ 12 + r) 31 1 = a :=
    bits_eq (h := 0) (l := b * 2 ^ 21 + c * 2 ^ 20 + e * 2 ^ 12 + r) (by omega) (by omega) ha
  have e2 : bits (a * 2 ^ 31 + b * 2 ^ 21 + c * 2 ^ 20 + e * 2 ^ 12 + r) 12 8 = e :=
    bits_eq (h := a * 2 ^ 11 + b * 2 + c) (by omega) hr he
  have e3 : bits (a * 2 ^ 31 + b * 2 ^ 21 + c * 2 ^ 20 + e * 2 ^ 12 + r) 20 1 = c :=
    bits_eq (h := a * 2 ^ 10 + b) (l := e * 2 ^ 12 + r) (by omega) (by omega) hc
  have e4 : bits (a * 2 ^ 31 + b * 2 ^ 21 + c * 2 ^ 20 + e * 2 ^ 12 + r) 21 10 = b :=
    bits_eq (h := a) (l := c * 2 ^ 20 + e * 2 ^ 12 + r) (by omega) (by omega) hb
  unfold jalDisp
  rw [e1, e2, e3, e4]
  congr 1
  omega

theorem jalDisp_jalWord {u : Nat} (hu : (u : Int) = d % 2 ^ 32) (hr : r < 2 ^ 12)
    (hreach : Reaches 20 d) : jalDisp (jalWord u r) = d := by
  obtain ⟨heven, hlow, hhigh⟩ := hreach
  have hvalue : signed 21 (bits u 1 20 * 2) = d := by
    unfold signed bits
    split <;> omega
  have h1 : bits u 11 1 * 2 ^ 10 + bits u 1 10 = bits u 1 11 := bits_join u 1 10 1
  have h2 : bits u 12 8 * 2 ^ 11 + bits u 1 11 = bits u 1 19 := bits_join u 1 11 8
  have h3 : bits u 20 1 * 2 ^ 19 + bits u 1 19 = bits u 1 20 := bits_join u 1 19 1
  unfold jalWord
  rw [jalDisp_fields (bits_lt u 20 1) (bits_lt u 1 10) (bits_lt u 11 1) (bits_lt u 12 8) hr, h1, h2,
    h3, hvalue]

theorem jalForm_jalWord (u r : Nat) : jalForm (jalWord u r) = jalForm r := by
  have hopcode : bits (jalWord u r) 0 7 = bits r 0 7 := by
    unfold jalWord
    generalize bits u 20 1 = a
    generalize bits u 1 10 = b
    generalize bits u 11 1 = c
    generalize bits u 12 8 = e
    unfold bits
    omega
  have hrd : bits (jalWord u r) 7 5 = bits r 7 5 := by
    unfold jalWord
    generalize bits u 20 1 = a
    generalize bits u 1 10 = b
    generalize bits u 11 1 = c
    generalize bits u 12 8 = e
    unfold bits
    omega
  unfold jalForm
  rw [hopcode, hrd]

theorem jalForm_mod (v : Nat) : jalForm (v % 2 ^ 12) = jalForm v := by
  have hopcode : bits (v % 2 ^ 12) 0 7 = bits v 0 7 := by unfold bits; omega
  have hrd : bits (v % 2 ^ 12) 7 5 = bits v 7 5 := by unfold bits; omega
  unfold jalForm
  rw [hopcode, hrd]

theorem encodeRiscVJal_none (h : ¬ Reaches 20 (signed 64 u.toNat)) :
    encodeRiscVJal insn u.toInt64 = none := by
  unfold encodeRiscVJal
  by_cases hodd : u.toInt64 &&& 1 ≠ 0
  · rw [if_pos hodd]
  rw [if_neg hodd]
  have heven := (not_congr (low_bit u)).mp hodd
  have hrange : u.toInt64 < -0x100000 ∨ u.toInt64 > 0xFFFFE := by
    rw [gt_iff_lt, Int64.lt_iff_toInt_lt, Int64.lt_iff_toInt_lt, toInt_toInt64]
    show signed 64 u.toNat < -0x100000 ∨ 0xFFFFE < signed 64 u.toNat
    unfold Reaches at h
    omega
  exact if_pos hrange

theorem encodeRiscVJal_some (hlen : insn.length = 4) (hreach : Reaches 20 (signed 64 u.toNat)) :
    ∃ v, ((v : Nat) : Int) = signed 64 u.toNat % 2 ^ 32 ∧
      encodeRiscVJal insn u.toInt64 = some (putLE 4 (jalWord v (getLE insn % 2 ^ 12))) := by
  obtain ⟨heven, hlow, hhigh⟩ := hreach
  have hbit : ¬ (u.toInt64 &&& 1 ≠ 0) := (not_congr (low_bit u)).mpr (not_not_intro heven)
  have hrange : ¬ (u.toInt64 < -0x100000 ∨ u.toInt64 > 0xFFFFE) := by
    rw [gt_iff_lt, Int64.lt_iff_toInt_lt, Int64.lt_iff_toInt_lt, toInt_toInt64]
    show ¬ (signed 64 u.toNat < -0x100000 ∨ 0xFFFFE < signed 64 u.toNat)
    omega
  have hbytes := getLE_lt insn
  rw [hlen] at hbytes
  have hword : u32At insn 0 = some (UInt32.ofNat (getLE insn)) := by
    unfold u32At slice
    rw [if_pos ⟨by omega, by omega⟩, List.drop_zero, List.take_of_length_le (by omega)]
    rfl
  have hr : (UInt32.ofNat (getLE insn) &&& 0xFFF).toNat = getLE insn % 2 ^ 12 := by
    rw [UInt32.toNat_and, UInt32.toNat_ofNat_of_lt' hbytes]
    exact Nat.and_two_pow_sub_one_eq_mod _ 12
  have hfields := toNat_jalWord (u := u.toInt64.toUInt64.toUInt32)
    (r := UInt32.ofNat (getLE insn) &&& 0xFFF) (by omega)
  refine ⟨u.toInt64.toUInt64.toUInt32.toNat, ?_, ?_⟩
  · rw [toUInt32_toInt, toInt_toInt64]
  · unfold encodeRiscVJal
    rw [if_neg hbit, if_neg hrange, hword]
    rw [← hr, ← hfields]
    rfl

end Tyu

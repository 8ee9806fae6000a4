import Tyu.Loader.RelocExact
import Tyu.Pack.RiscvWords

/-! # What a resolved site refers to -/

namespace Tyu.Pack

open Lib Lib.Wire Lib.Branch Container

namespace InternalKind

/-- A site at `place` refers to the address `t`.  Addresses have 64 bits on x86-64 and 32 bits on
the other machines; a Thumb branch leaves out the low bit, and an upper immediate leaves twelve
bits to another instruction. -/
def Refers (kind : InternalKind) (place : Nat) (insn : Bytes) (t : Int) : Prop :=
  match kind with
  | x86_64_64 => (getLE insn : Int) = t % 2 ^ 64
  | x86_64_pc32 => ((place : Int) + signed 32 (getLE insn)) % 2 ^ 64 = t % 2 ^ 64
  | x86_64_plt32 => ((place : Int) + signed 32 (getLE insn)) % 2 ^ 64 = t % 2 ^ 64
  | abs32 => (getLE insn : Int) = t % 2 ^ 32
  | armRel32 => ((place : Int) + getLE insn) % 2 ^ 32 = t % 2 ^ 32
  | armThmCall => ∃ form, readThumb place (halfwords insn).1 (halfwords insn).2 =
      some { form, target := t / 2 * 2 % 2 ^ 32 }
  | armThmJump24 => ∃ form, readThumb place (halfwords insn).1 (halfwords insn).2 =
      some { form, target := t / 2 * 2 % 2 ^ 32 }
  | riscvBranch => ((place : Int) + branchDisp (getLE insn)) % 2 ^ 32 = t % 2 ^ 32
  | riscvJal => ((place : Int) + jalDisp (getLE insn)) % 2 ^ 32 = t % 2 ^ 32
  | riscvPcrelHi20 => ∃ low : Int, -2 ^ 11 ≤ low ∧ low < 2 ^ 11 ∧
      ((place : Int) + upperImm (getLE insn) + low) % 2 ^ 32 = t % 2 ^ 32

/-- The link bit of a Thumb branch; without it the branch is taken for a BLX. -/
def linked (insn : Bytes) : Bool := bits (halfwords insn).2 12 1 = 1

def thumbDisplacement (value site : UInt64) : Int :=
  signed 64 ((value &&& ~~~1) - site - 4).toNat

/-- A branch that was resolved to `value` at `site` leads from `place` to `t`. -/
def ThumbAgrees (value site : UInt64) (insn : Bytes) (place : Nat) (t : Int) : Prop :=
  if linked insn then
    ((place : Int) + 4 + innerDisp (thumbDisplacement value site)) % 2 ^ 32 = t / 2 * 2 % 2 ^ 32
  else
    thumbDisplacement value site % 4 = 0 ∧
      (((place + 4) / 4 * 4 : Nat) + innerDisp (thumbDisplacement value site)) % 2 ^ 32 =
        t / 2 * 2 % 2 ^ 32

/-- The reference to `value` from `site` in the container, as far as the site holds it, is the
reference to `t` from `place`. -/
def Agrees (kind : InternalKind) (value site : UInt64) (insn : Bytes) (place : Nat) (t : Int) :
    Prop :=
  let d := signed 64 (value - site).toNat
  match kind with
  | x86_64_64 => (value.toNat : Int) = t % 2 ^ 64
  | x86_64_pc32 => ((place : Int) + signed 32 ((value - site).toNat % 2 ^ 32)) % 2 ^ 64 = t % 2 ^ 64
  | x86_64_plt32 =>
    ((place : Int) + signed 32 ((value - site).toNat % 2 ^ 32)) % 2 ^ 64 = t % 2 ^ 64
  | abs32 => (value.toNat : Int) % 2 ^ 32 = t % 2 ^ 32
  | armRel32 => (t - place) % 2 ^ 32 = d % 2 ^ 32
  | armThmCall => ThumbAgrees value site insn place t
  | armThmJump24 => ThumbAgrees value site insn place t
  | riscvBranch => (t - place) % 2 ^ 32 = d % 2 ^ 32
  | riscvJal => (t - place) % 2 ^ 32 = d % 2 ^ 32
  | riscvPcrelHi20 => (t - place - upperPart d + 2 ^ 11) % 2 ^ 32 < 2 ^ 12

theorem toNat_low32 (u : UInt64) : u.toUInt32.toNat = u.toNat % 2 ^ 32 := UInt64.toNat_toUInt32 u

theorem wraps_iff {place : Nat} {t d x : Int} (hx : x % 2 ^ 32 = d % 2 ^ 32) :
    ((place : Int) + x) % 2 ^ 32 = t % 2 ^ 32 ↔ (t - place) % 2 ^ 32 = d % 2 ^ 32 := by
  omega

theorem low32_signed (u : UInt64) :
    ((u.toNat % 2 ^ 32 : Nat) : Int) % 2 ^ 32 = signed 64 u.toNat % 2 ^ 32 := by
  unfold signed
  split <;> omega

theorem reaches_low_iff {place : Nat} {t d x : Int} (hx : x % 2 ^ 32 = d % 2 ^ 32) :
    (∃ low : Int, -2 ^ 11 ≤ low ∧ low < 2 ^ 11 ∧ ((place : Int) + x + low) % 2 ^ 32 = t % 2 ^ 32) ↔
      (t - place - d + 2 ^ 11) % 2 ^ 32 < 2 ^ 12 := by
  constructor
  · rintro ⟨low, hlow, hhigh, hsum⟩
    omega
  · intro hlt
    refine ⟨(t - place - d + 2 ^ 11) % 2 ^ 32 - 2 ^ 11, by omega, by omega, by omega⟩

/-! ## Thumb branches -/

theorem linkBit_none {insn : Bytes} (hlen : insn.length = 4) :
    (linkBit insn none).toNat = if linked insn then 0x1000 else 0 := by
  have hword : u16At insn 2 = some (UInt16.ofNat (halfwords insn).2) := by
    unfold u16At slice
    rw [if_pos ⟨by omega, by omega⟩]
    rfl
  have hlt : (halfwords insn).2 < 2 ^ 16 := by
    have hle := getLE_lt ((insn.take 4).drop 2)
    rw [List.length_drop, List.length_take, hlen] at hle
    exact hle
  have hbit : (linkBit insn none).toNat = bits (halfwords insn).2 12 1 * 2 ^ 12 := by
    unfold linkBit
    rw [hword]
    show (UInt16.ofNat (halfwords insn).2 &&& 0x1000).toNat = _
    rw [UInt16.toNat_and, UInt16.toNat_ofNat_of_lt' hlt]
    exact and_field _ 12 1
  rw [hbit]
  unfold linked
  rcases bit_cases (halfwords insn).2 12 with hzero | hone
  · rw [hzero]
    rfl
  · rw [hone]
    rfl

theorem form_unlinked {h : Nat} {hw0 hw1 : UInt16} (hw : BranchWords h 0 hw0 hw1) :
    thumbForm hw0.toNat hw1.toNat = if bits h 0 1 = 0 then some .call else none := by
  have h10 := bits_lt h 11 10
  have h11 := bits_lt h 0 11
  have hs := bits_lt h 23 1
  have hlow : bits h 0 1 = bits h 0 11 % 2 := by unfold bits; omega
  unfold thumbForm
  rw [hw.hw0, hw.hw1, hlow]
  generalize bits h 23 1 = s at *
  generalize bits h 11 10 = imm10 at *
  generalize bits h 0 11 = imm11 at *
  generalize bits h 21 1 = i2 at *
  unfold bits
  rw [if_neg (by omega)]
  by_cases heven : imm11 % 2 = 0
  · rw [if_pos (by omega), if_pos heven]
  · rw [if_neg (by omega), if_neg (by omega), if_neg heven]

theorem place_unlinked {h place : Nat} {hw0 hw1 : UInt16} (hw : BranchWords h 0 hw0 hw1) :
    thumbPlace place hw1.toNat = ((place + 4) / 4 * 4 : Nat) := by
  have h11 := bits_lt h 0 11
  unfold thumbPlace
  rw [hw.hw1]
  generalize bits h 0 11 = imm11 at *
  unfold bits
  rw [if_neg (by omega)]

theorem exists_form_iff {form : Form} {target t : Int} :
    (∃ f, some ({ form := some form, target } : Reference) = some { form := f, target := t }) ↔
      target = t := by
  constructor
  · rintro ⟨f, h⟩
    exact (reference_iff.mp h).2
  · intro h
    exact ⟨some form, reference_iff.mpr ⟨rfl, h⟩⟩

theorem encodeThumb_some {value site : UInt64} {insn new : Bytes} (hlen : insn.length = 4)
    (h : encodeThumb value site insn = some new) :
    Reaches 24 (thumbDisplacement value site) ∧ ∃ half hw0 hw1,
      ((half : Nat) : Int) = thumbDisplacement value site / 2 % 2 ^ 32 ∧
      BranchWords half (if linked insn then 0x1000 else 0) hw0 hw1 ∧
      new = put16 hw0 ++ put16 hw1 := by
  unfold encodeThumb at h
  have hreach : Reaches 24 (thumbDisplacement value site) := by
    by_contra hout
    rw [encodeBranch_none none hout] at h
    cases h
  have hl : (if linked insn then 0x1000 else 0) = 0 ∨
      (if linked insn then 0x1000 else 0) = 0x1000 := by
    split
    · exact Or.inr rfl
    · exact Or.inl rfl
  obtain ⟨half, hw0, hw1, hhalf, hwords, hsome⟩ :=
    encodeBranch_some none hlen (linkBit_none hlen) hl hreach
  rw [hsome] at h
  exact ⟨hreach, half, hw0, hw1, hhalf, hwords, (Option.some.inj h).symm⟩

theorem refers_thumb {value site : UInt64} {insn new : Bytes} {place : Nat} {t : Int}
    (hlen : insn.length = 4) (h : encodeThumb value site insn = some new) :
    (∃ form, readThumb place (halfwords new).1 (halfwords new).2 =
      some { form, target := t / 2 * 2 % 2 ^ 32 }) ↔ ThumbAgrees value site insn place t := by
  obtain ⟨hreach, half, hw0, hw1, hhalf, hwords, rfl⟩ := encodeThumb_some hlen h
  rw [halfwords_put]
  unfold ThumbAgrees readThumb
  by_cases hlinked : linked insn = true
  · rw [if_pos hlinked] at hwords ⊢
    have hdisp := (hwords.disp (Or.inr rfl)).trans (forced_disp hhalf hreach)
    have hplace : thumbPlace place hw1.toNat = place + 4 := if_pos hwords.link
    rw [hwords.form, hplace, hdisp, Option.map_some, exists_form_iff]
  · rw [if_neg hlinked] at hwords ⊢
    have hdisp := (hwords.disp (Or.inl rfl)).trans (forced_disp hhalf hreach)
    have hbit : bits half 0 1 = 0 ↔ thumbDisplacement value site % 4 = 0 := by
      have heven := hreach.1
      unfold bits
      omega
    rw [form_unlinked hwords, place_unlinked hwords, hdisp]
    by_cases hwordwise : thumbDisplacement value site % 4 = 0
    · rw [if_pos (hbit.mpr hwordwise), Option.map_some, exists_form_iff, and_iff_right hwordwise]
    · rw [if_neg (fun hzero => hwordwise (hbit.mp hzero))]
      refine iff_of_false ?_ (fun hand => hwordwise hand.1)
      rintro ⟨form, hform⟩
      cases hform

theorem length_encode {kind : InternalKind} {value site : UInt64} {insn new : Bytes}
    (hlen : insn.length = kind.len) (h : kind.encode value site insn = some new) :
    new.length = kind.len := by
  cases kind with
  | x86_64_64 => rw [← Option.some.inj h]; rfl
  | x86_64_pc32 => rw [← Option.some.inj h]; rfl
  | x86_64_plt32 => rw [← Option.some.inj h]; rfl
  | abs32 => rw [← Option.some.inj h]; rfl
  | armRel32 => rw [← Option.some.inj h]; rfl
  | armThmCall =>
    obtain ⟨-, half, hw0, hw1, -, -, rfl⟩ := encodeThumb_some hlen h
    rfl
  | armThmJump24 =>
    obtain ⟨-, half, hw0, hw1, -, -, rfl⟩ := encodeThumb_some hlen h
    rfl
  | riscvBranch =>
    obtain ⟨-, v, -, rfl⟩ := encodeRiscvBranch_some h
    exact length_putLE 4 _
  | riscvJal =>
    obtain ⟨-, v, -, rfl⟩ := encodeRiscvJal_some hlen h
    exact length_putLE 4 _
  | riscvPcrelHi20 => rw [← Option.some.inj h]; rfl

theorem refers_encode_iff {kind : InternalKind} {value site : UInt64} {insn new : Bytes}
    {place : Nat} {t : Int} (hlen : insn.length = kind.len)
    (h : kind.encode value site insn = some new) :
    kind.Refers place new t ↔ kind.Agrees value site insn place t := by
  have hpc32 (hnew : put32 (value - site).toUInt32 = new) :
      ((place : Int) + signed 32 (getLE new)) % 2 ^ 64 = t % 2 ^ 64 ↔
        ((place : Int) + signed 32 ((value - site).toNat % 2 ^ 32)) % 2 ^ 64 = t % 2 ^ 64 := by
    rw [← hnew, getLE_put32, toNat_low32]
  cases kind with
  | x86_64_64 =>
    rw [← Option.some.inj h]
    show (getLE (put64 value) : Int) = _ ↔ _
    rw [getLE_put64]
    exact Iff.rfl
  | x86_64_pc32 => exact hpc32 (Option.some.inj h)
  | x86_64_plt32 => exact hpc32 (Option.some.inj h)
  | abs32 =>
    rw [← Option.some.inj h]
    show (getLE (put32 value.toUInt32) : Int) = _ ↔ _
    rw [getLE_put32, toNat_low32, Int.natCast_mod]
    exact Iff.rfl
  | armRel32 =>
    rw [← Option.some.inj h]
    show ((place : Int) + getLE (put32 (value - site).toUInt32)) % 2 ^ 32 = _ ↔ _
    rw [getLE_put32, toNat_low32]
    exact wraps_iff (low32_signed _)
  | armThmCall => exact refers_thumb hlen h
  | armThmJump24 => exact refers_thumb hlen h
  | riscvBranch =>
    obtain ⟨hreach, v, hv, rfl⟩ := encodeRiscvBranch_some h
    have he := bits_lt (siteWord insn).toNat 12 13
    have ho := bits_lt (siteWord insn).toNat 0 7
    show ((place : Int) + branchDisp (getLE (putLE 4 (branchWord v _ _)))) % 2 ^ 32 = _ ↔ _
    rw [getLE_putLE (branchWord_lt v he ho), branchDisp_branchWord hv he ho hreach]
    exact wraps_iff rfl
  | riscvJal =>
    obtain ⟨hreach, v, hv, rfl⟩ := encodeRiscvJal_some hlen h
    have hr : getLE insn % 2 ^ 12 < 2 ^ 12 := Nat.mod_lt _ (by decide)
    show ((place : Int) + jalDisp (getLE (putLE 4 (jalWord v _)))) % 2 ^ 32 = _ ↔ _
    rw [getLE_putLE (jalWord_lt v hr), jalDisp_jalWord hv hr hreach]
    exact wraps_iff rfl
  | riscvPcrelHi20 =>
    obtain ⟨v, hv, hword, hupper, -⟩ := upperImm_encode insn (value - site)
    have hnew : putLE 4 v = new := hword.symm.trans (Option.some.inj h)
    rw [← hnew]
    show (∃ low : Int, -2 ^ 11 ≤ low ∧ low < 2 ^ 11 ∧
      ((place : Int) + upperImm (getLE (putLE 4 v)) + low) % 2 ^ 32 = t % 2 ^ 32) ↔ _
    rw [getLE_putLE hv]
    exact reaches_low_iff hupper

end InternalKind

/-- An upper immediate at `place` and a low one together refer to `t`. -/
def PairRefers (place : Nat) (hi lo : Bytes) (t : Int) : Prop :=
  ((place : Int) + upperImm (getLE hi) + lowImm (getLE lo)) % 2 ^ 32 = t % 2 ^ 32

/-- The pair that was resolved for the displacement `d` of the container, with an addend at the
low part, leads from `place` to `t`. -/
def PairAgrees (value site : UInt64) (addend : Int64) (place : Nat) (t : Int) : Prop :=
  ((place : Int) + upperPart (signed 64 (value - site).toNat) +
    signed 12 ((value + addend.toUInt64 - site).toNat % 2 ^ 12)) % 2 ^ 32 = t % 2 ^ 32

theorem pairRefers_encode_iff {value site : UInt64} {addend : Int64} {hi lo : Bytes} {place : Nat}
    {t : Int} :
    PairRefers place (encodeRiscvHi20 hi (value - site).toInt64)
      (encodeRiscvLo12I lo (value + addend.toUInt64 - site).toInt64) t ↔
        PairAgrees value site addend place t := by
  obtain ⟨v, hv, hhi, hupper, -⟩ := upperImm_encode hi (value - site)
  obtain ⟨u, hu, hlo, hlow, -⟩ := lowImm_encode lo (value + addend.toUInt64 - site)
  unfold PairRefers PairAgrees
  rw [hhi, hlo, getLE_putLE hv, getLE_putLE hu, hlow]
  omega

end Tyu.Pack

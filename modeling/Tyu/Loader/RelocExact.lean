import Tyu.Loader.BranchWords

/-!
# What a patched site refers to

A relocation is exact where the patched site, read back as the instruction set reads it, refers to
the symbol and is the same kind of instruction as before.
-/

namespace Tyu

open Lib Lib.Wire Lib.Branch Container

def siteLen (kind : UInt8) : Nat := if kind = R_X86_64_64 then 8 else 4

def isThumbBranch (kind : UInt8) : Prop := kind = R_ARM_THM_CALL ∨ kind = R_ARM_THM_JUMP24

instance (kind : UInt8) : Decidable (isThumbBranch kind) :=
  inferInstanceAs (Decidable (_ ∨ _))

def halfwords (site : Bytes) : Nat × Nat := (getLE (site.take 2), getLE ((site.take 4).drop 2))

def siteForm (kind : UInt8) (site : Bytes) : Option Form :=
  if isThumbBranch kind then thumbForm (halfwords site).1 (halfwords site).2
  else if kind = R_RISCV_CALL then jalForm (getLE site)
  else none

/-- What a site refers to: the address, and the kind of branch where the site is one. -/
structure Reference where
  form : Option Form
  target : Int

/-- The address that a Thumb branch at `place` goes to.  ARM and RISC-V have 32 bits. -/
def readThumb (place hw0 hw1 : Nat) : Option Reference :=
  (thumbForm hw0 hw1).map fun form =>
    { form := some form, target := (thumbPlace place hw1 + thumbDisp hw0 hw1) % 2 ^ 32 }

def readJal (place insn : Nat) : Option Reference :=
  (jalForm insn).map fun form => { form := some form, target := (place + jalDisp insn) % 2 ^ 32 }

/-- The reference of a site at `place`. -/
def readSite (kind : UInt8) (place : UInt64) (site : Bytes) : Option Reference :=
  if kind = R_X86_64_64 then some { form := none, target := getLE site }
  else if kind = R_X86_64_PC32 ∨ kind = R_X86_64_PLT32 then
    some { form := none, target := (place.toNat + signed 32 (getLE site)) % 2 ^ 64 }
  else if kind = R_ARM_REL32 then
    some { form := none, target := ((place.toNat : Int) + getLE site) % 2 ^ 32 }
  else if isThumbBranch kind then readThumb place.toNat (halfwords site).1 (halfwords site).2
  else if kind = R_RISCV_CALL then readJal place.toNat (getLE site)
  else some { form := none, target := getLE site }

/-- Where the site of an exact relocation refers to.  The low bit of the address of a Thumb
function is no part of the address that a branch goes to. -/
def symbolTarget (kind : UInt8) (symAddr : UInt64) : UInt64 :=
  (if isThumbBranch kind then symAddr &&& ~~~1 else symAddr) + (importAddend kind).toUInt64

/-- The patched site refers to the symbol, and is the kind of instruction that it was. -/
def Refers (base : UInt64) (off : Nat) (kind : UInt8) (symAddr : UInt64)
    (code code' : Bytes) : Prop :=
  ∃ site site', slice code off (off + siteLen kind) = some site ∧
    slice code' off (off + siteLen kind) = some site' ∧
    readSite kind (base + UInt64.ofNat off) site' =
      some { form := siteForm kind site, target := (symbolTarget kind symAddr).toNat }

/-- A patch that is refused leaves the code as it was, and one that is applied makes it `good`. -/
def SettlesTo (good : Bytes → Prop) (p : Patch) (code : Bytes) : Prop :=
  match p code with
  | (.error (.error _), code') => code' = code
  | (.error .panic, _) => False
  | (.ok _, code') => good code'

def ExactOrRefused (w : PtrWidth) (base : UInt64) (off : Nat) (kind : UInt8) (symAddr : UInt64)
    (code : Bytes) : Prop :=
  SettlesTo (Refers base off kind symAddr code) (dispatchImportReloc w base off kind symAddr) code

def displacement (base : UInt64) (off : Nat) (kind : UInt8) (symAddr : UInt64) : Int :=
  let d := symbolTarget kind symAddr - (base + UInt64.ofNat off)
  signed 64 (if isThumbBranch kind then d - 4 else d).toNat

def Fits (base : UInt64) (off : Nat) (kind : UInt8) (symAddr : UInt64) (site : Bytes) : Prop :=
  let d := displacement base off kind symAddr
  if kind = R_X86_64_64 then True
  else if kind = R_X86_64_PC32 ∨ kind = R_X86_64_PLT32 then -2 ^ 31 ≤ d ∧ d < 2 ^ 31
  else if isThumbBranch kind then
    Reaches 24 d → Reaches 23 d ∧ symAddr.toNat < 2 ^ 32 ∧ siteForm kind site = some .call
  else if kind = R_RISCV_CALL then
    Reaches 20 d → symAddr.toNat < 2 ^ 32 ∧ bits (getLE site) 0 7 = 0x6F
  else symAddr.toNat < 2 ^ 32

/-- The site lies outside the section and the relocation is refused, or the value has a place in
the site. -/
def SiteFits (w : PtrWidth) (base : UInt64) (off : Nat) (kind : UInt8) (symAddr : UInt64)
    (code : Bytes) : Prop :=
  usize w (off + siteLen kind) > code.length ∨ (off + siteLen kind < w.size ∧
    ∃ site, slice code off (off + siteLen kind) = some site ∧ Fits base off kind symAddr site)

/-! ## Patching a site -/

/-- A site whose end does not lie in the address space is never reached; otherwise the new bytes
decide. -/
theorem settles_patchSite {good : Bytes → Prop} {w : PtrWidth} {off n : Nat}
    {encode : Bytes → Option Bytes} {code : Bytes} (hn : n < w.size) :
    SettlesTo good (patchSite w off n encode) code ↔
      usize w (off + n) > code.length ∨ (off + n < w.size ∧
        ∃ site, slice code off (off + n) = some site ∧
          ∀ site', encode site = some site' → good (patch code off site')) := by
  unfold SettlesTo patchSite
  by_cases hend : usize w (off + n) > code.length
  · rw [if_pos hend]
    exact ⟨fun _ => Or.inl hend, fun _ => rfl⟩
  rw [if_neg hend]
  by_cases hwrap : off + n < w.size
  · have hsame : usize w (off + n) = off + n := Nat.mod_eq_of_lt hwrap
    rw [hsame] at hend ⊢
    have hsome := isSome_slice.mpr (show off ≤ off + n ∧ off + n ≤ code.length by omega)
    obtain ⟨site, hsite⟩ := Option.isSome_iff_exists.mp hsome
    rw [hsite]
    cases hnew : encode site with
    | none =>
      simp only [hnew]
      refine ⟨fun _ => Or.inr ⟨hwrap, site, rfl, fun site' hsite' => ?_⟩, fun _ => rfl⟩
      cases hnew.symm.trans hsite'
    | some new =>
      simp only [hnew]
      constructor
      · intro hgood
        refine Or.inr ⟨hwrap, site, rfl, fun site' hsite' => ?_⟩
        rw [← Option.some.inj (hnew.symm.trans hsite')]
        exact hgood
      · intro h
        rcases h with h | ⟨-, site', hsite', hgood⟩
        · exact absurd h hend
        · rw [← Option.some.inj hsite'] at hgood
          exact hgood new hnew
  · have hlt : usize w (off + n) < off := by
      have hmod := Nat.mod_eq_sub_mod (show w.size ≤ off + n by omega)
      have hle := Nat.mod_le (off + n - w.size) w.size
      show (off + n) % w.size < off
      omega
    have hnone : slice code off (usize w (off + n)) = none := if_neg (by omega)
    rw [hnone]
    constructor
    · exact fun h => h.elim
    · intro h
      rcases h with h | ⟨h, -⟩
      · exact absurd h hend
      · exact absurd h hwrap

theorem refers_patch {base : UInt64} {off : Nat} {kind : UInt8} {symAddr : UInt64}
    {code site site' : Bytes} (hsite : slice code off (off + siteLen kind) = some site)
    (hlen : site'.length = siteLen kind) :
    Refers base off kind symAddr code (patch code off site') ↔
      readSite kind (base + UInt64.ofNat off) site' =
        some { form := siteForm kind site, target := (symbolTarget kind symAddr).toNat } := by
  have hin := (slice_eq_some hsite).2.1
  rw [← hlen] at hin
  have hnew := slice_patch hin
  rw [hlen] at hnew
  constructor
  · rintro ⟨old, new, hold, hnew', href⟩
    rw [Option.some.inj (hsite.symm.trans hold), Option.some.inj (hnew.symm.trans hnew')]
    exact href
  · exact fun href => ⟨site, site', hsite, hnew, href⟩

/-- A kind whose sites are written by `encode` is exact where the refused values and the new bytes
are those that fit. -/
theorem exact_of_encode {w : PtrWidth} {base : UInt64} {off : Nat} {kind : UInt8}
    {symAddr : UInt64} {code : Bytes} (encode : Bytes → Option Bytes)
    (hpatch : dispatchImportReloc w base off kind symAddr = patchSite w off (siteLen kind) encode)
    (hnew : ∀ site, site.length = siteLen kind →
      (encode site = none ∧ Fits base off kind symAddr site) ∨
      ∃ site', encode site = some site' ∧ site'.length = siteLen kind ∧
        (readSite kind (base + UInt64.ofNat off) site' = some
          { form := siteForm kind site, target := (symbolTarget kind symAddr).toNat } ↔
          Fits base off kind symAddr site)) :
    ExactOrRefused w base off kind symAddr code ↔ SiteFits w base off kind symAddr code := by
  have hsize : siteLen kind < w.size := by
    unfold siteLen
    cases w <;> split <;> decide
  unfold ExactOrRefused SiteFits
  rw [hpatch, settles_patchSite hsize]
  refine or_congr_right (and_congr_right fun _ => exists_congr fun site =>
    and_congr_right fun hsite => ?_)
  have hlen : site.length = siteLen kind := by
    rw [length_slice hsite, Nat.add_sub_cancel_left]
  rcases hnew site hlen with ⟨hnone, hfits⟩ | ⟨new, hsome, hlen', hread⟩
  · refine iff_of_true (fun site' hsite' => ?_) hfits
    cases hnone.symm.trans hsite'
  · rw [← hread, ← refers_patch hsite hlen', hsome]
    constructor
    · exact fun h => h new rfl
    · intro h site' hsite'
      rw [← Option.some.inj hsite']
      exact h

theorem exact_of_value {w : PtrWidth} {base : UInt64} {off : Nat} {kind : UInt8}
    {symAddr : UInt64} {code : Bytes} (bytes : Bytes)
    (hpatch : dispatchImportReloc w base off kind symAddr =
      patchSite w off (siteLen kind) fun _ => some bytes)
    (hlen : bytes.length = siteLen kind)
    (hread : ∀ site, readSite kind (base + UInt64.ofNat off) bytes =
        some { form := siteForm kind site, target := (symbolTarget kind symAddr).toNat } ↔
      Fits base off kind symAddr site) :
    ExactOrRefused w base off kind symAddr code ↔ SiteFits w base off kind symAddr code :=
  exact_of_encode _ hpatch fun site _ => Or.inr ⟨bytes, rfl, hlen, hread site⟩

theorem read_abs32 (t : UInt64) : (t.toUInt32.toNat : Int) = t.toNat ↔ t.toNat < 2 ^ 32 := by
  rw [UInt64.toNat_toUInt32]
  omega

theorem read_pc32 (t p : UInt64) :
    ((p.toNat : Int) + signed 32 (t - p).toUInt32.toNat) % 2 ^ 64 = t.toNat ↔
      -2 ^ 31 ≤ signed 64 (t - p).toNat ∧ signed 64 (t - p).toNat < 2 ^ 31 := by
  have ht := t.toNat_lt
  have hp := p.toNat_lt
  rw [UInt64.toNat_toUInt32, UInt64.toNat_sub]
  unfold signed
  split <;> split <;> omega

theorem read_rel32 (t p : UInt64) :
    ((p.toNat : Int) + (t - p).toUInt32.toNat) % 2 ^ 32 = t.toNat ↔ t.toNat < 2 ^ 32 := by
  have ht := t.toNat_lt
  have hp := p.toNat_lt
  rw [UInt64.toNat_toUInt32, UInt64.toNat_sub]
  omega

theorem getLE_put32 (v : UInt32) : getLE (put32 v) = v.toNat :=
  getLE_putLE (show v.toNat < 256 ^ 4 from v.toNat_lt)

theorem getLE_put64 (v : UInt64) : getLE (put64 v) = v.toNat :=
  getLE_putLE (show v.toNat < 256 ^ 8 from v.toNat_lt)

theorem halfwords_put (hw0 hw1 : UInt16) :
    halfwords (put16 hw0 ++ put16 hw1) = (hw0.toNat, hw1.toNat) := by
  have h0 : getLE (put16 hw0) = hw0.toNat := getLE_putLE (show _ < 256 ^ 2 from hw0.toNat_lt)
  have h1 : getLE (put16 hw1) = hw1.toNat := getLE_putLE (show _ < 256 ^ 2 from hw1.toNat_lt)
  have hlow : (put16 hw0 ++ put16 hw1).take 2 = put16 hw0 :=
    List.take_left' (length_put16 hw0)
  have hhigh : ((put16 hw0 ++ put16 hw1).take 4).drop 2 = put16 hw1 := by
    rw [List.take_of_length_le (by simp)]
    exact List.drop_left' (length_put16 hw0)
  unfold halfwords
  rw [hlow, hhigh, h0, h1]

theorem toNat_clear_low (u : UInt64) : (u &&& ~~~1).toNat = u.toNat / 2 * 2 := by
  have hlt := u.toNat_lt
  have hhalf : (u.toNat &&& 2 ^ 64 - 2) / 2 = u.toNat / 2 := by
    have hand : u.toNat / 2 &&& 2 ^ 63 - 1 = u.toNat / 2 := by
      rw [Nat.and_two_pow_sub_one_eq_mod, Nat.mod_eq_of_lt (by omega)]
    have hdiv : (u.toNat &&& 2 ^ 64 - 2) / 2 ^ 1 = u.toNat / 2 ^ 1 &&& (2 ^ 64 - 2) / 2 ^ 1 :=
      Nat.and_div_two_pow
    exact hdiv.trans hand
  have hlow : (u.toNat &&& 2 ^ 64 - 2) % 2 = 0 := by
    have hmod : (u.toNat &&& 2 ^ 64 - 2) % 2 ^ 1 = u.toNat % 2 ^ 1 &&& 0 :=
      Nat.and_mod_two_pow
    rw [Nat.and_zero] at hmod
    exact hmod
  rw [UInt64.toNat_and]
  show u.toNat &&& 2 ^ 64 - 2 = _
  omega

/-! ## The kinds -/

theorem reference_iff {form form' : Option Form} {target target' : Int} :
    (some { form := form, target := target } : Option Reference) =
      some { form := form', target := target' } ↔ form = form' ∧ target = target' := by
  rw [Option.some.injEq, Reference.mk.injEq]

section

variable {w : PtrWidth} {base : UInt64} {off : Nat} {kind : UInt8} {symAddr : UInt64}
  {code : Bytes}

theorem exact_abs64 (hk : kind = R_X86_64_64) :
    ExactOrRefused w base off kind symAddr code ↔ SiteFits w base off kind symAddr code := by
  subst hk
  refine exact_of_value (put64 (symbolTarget R_X86_64_64 symAddr)) rfl rfl fun site => ?_
  have hread : ∀ bytes, readSite R_X86_64_64 (base + UInt64.ofNat off) bytes =
    some { form := none, target := getLE bytes } := fun _ => rfl
  rw [hread, getLE_put64]
  exact iff_of_true rfl trivial

theorem fits_word {site : Bytes} {v : UInt32} {target : Int} {cond : Prop}
    (hform : siteForm kind site = none)
    (hread : readSite kind (base + UInt64.ofNat off) (put32 v) =
      some { form := none, target := target })
    (htarget : target = (symbolTarget kind symAddr).toNat ↔ cond) :
    readSite kind (base + UInt64.ofNat off) (put32 v) =
      some { form := siteForm kind site, target := (symbolTarget kind symAddr).toNat } ↔ cond := by
  rw [hread, hform, reference_iff, htarget]
  exact and_iff_right rfl

theorem exact_pc32 (hk : kind = R_X86_64_PC32 ∨ kind = R_X86_64_PLT32) :
    ExactOrRefused w base off kind symAddr code ↔ SiteFits w base off kind symAddr code := by
  have hfits (site : Bytes) : Fits base off kind symAddr site ↔
      -2 ^ 31 ≤ signed 64 (symbolTarget kind symAddr - (base + UInt64.ofNat off)).toNat ∧
        signed 64 (symbolTarget kind symAddr - (base + UInt64.ofNat off)).toNat < 2 ^ 31 := by
    rcases hk with rfl | rfl <;> rfl
  have hread (v : UInt32) : readSite kind (base + UInt64.ofNat off) (put32 v) = some
      { form := none, target := ((base + UInt64.ofNat off).toNat + signed 32 v.toNat) % 2 ^ 64 } := by
    rw [← getLE_put32 v]
    rcases hk with rfl | rfl <;> rfl
  have hform (site : Bytes) : siteForm kind site = none := by rcases hk with rfl | rfl <;> rfl
  refine exact_of_value (put32 (symbolTarget kind symAddr - (base + UInt64.ofNat off)).toUInt32)
    ?_ ?_ fun site => ?_
  · rcases hk with rfl | rfl <;> rfl
  · rcases hk with rfl | rfl <;> rfl
  · rw [hfits]
    exact fits_word (hform site) (hread _) (read_pc32 _ _)

theorem exact_abs32 (hk : kind = R_ARM_ABS32 ∨ kind = R_RISCV_32) :
    ExactOrRefused w base off kind symAddr code ↔ SiteFits w base off kind symAddr code := by
  have htarget : symbolTarget kind symAddr = symAddr := by
    rcases hk with rfl | rfl <;> exact UInt64.add_zero symAddr
  have hfits (site : Bytes) : Fits base off kind symAddr site ↔
      (symbolTarget kind symAddr).toNat < 2 ^ 32 := by
    rw [htarget]
    rcases hk with rfl | rfl <;> rfl
  have hread (v : UInt32) : readSite kind (base + UInt64.ofNat off) (put32 v) =
      some { form := none, target := v.toNat } := by
    rw [← getLE_put32 v]
    rcases hk with rfl | rfl <;> rfl
  have hform (site : Bytes) : siteForm kind site = none := by rcases hk with rfl | rfl <;> rfl
  refine exact_of_value (put32 (symbolTarget kind symAddr).toUInt32) ?_ ?_ fun site => ?_
  · rcases hk with rfl | rfl <;> rfl
  · rcases hk with rfl | rfl <;> rfl
  · rw [hfits]
    exact fits_word (hform site) (hread _) (read_abs32 _)

theorem exact_rel32 (hk : kind = R_ARM_REL32) :
    ExactOrRefused w base off kind symAddr code ↔ SiteFits w base off kind symAddr code := by
  subst hk
  have htarget : symbolTarget R_ARM_REL32 symAddr = symAddr := UInt64.add_zero symAddr
  have hfits (site : Bytes) : Fits base off R_ARM_REL32 symAddr site ↔
      (symbolTarget R_ARM_REL32 symAddr).toNat < 2 ^ 32 := by
    rw [htarget]
    rfl
  have hread (v : UInt32) : readSite R_ARM_REL32 (base + UInt64.ofNat off) (put32 v) = some
      { form := none, target := (((base + UInt64.ofNat off).toNat : Int) + v.toNat) % 2 ^ 32 } := by
    rw [← getLE_put32 v]
    rfl
  refine exact_of_value (put32 (symbolTarget R_ARM_REL32 symAddr -
    (base + UInt64.ofNat off)).toUInt32) rfl rfl fun site => ?_
  rw [hfits]
  exact fits_word rfl (hread _) (read_rel32 _ _)

theorem signed_sub_four (t p : UInt64) :
    signed 64 (t - p - 4).toNat % 2 ^ 32 = ((t.toNat : Int) - (p.toNat + 4)) % 2 ^ 32 := by
  have hp := p.toNat_lt
  rw [UInt64.toNat_sub, UInt64.toNat_sub]
  show signed 64 ((2 ^ 64 - 4 + (2 ^ 64 - p.toNat + t.toNat) % 2 ^ 64) % 2 ^ 64) % 2 ^ 32 = _
  unfold signed
  split <;> omega

theorem signed_sub (t p : UInt64) :
    signed 64 (t - p).toNat % 2 ^ 32 = ((t.toNat : Int) - p.toNat) % 2 ^ 32 := by
  have hp := p.toNat_lt
  rw [UInt64.toNat_sub]
  unfold signed
  split <;> omega

theorem wrap_target {p x d : Int} {t : Nat} (hd : d % 2 ^ 32 = (t - p) % 2 ^ 32)
    (hx : -2 ^ 24 ≤ x ∧ x < 2 ^ 24) (hdb : -2 ^ 24 ≤ d ∧ d < 2 ^ 24) :
    (p + x) % 2 ^ 32 = t ↔ x = d ∧ t < 2 ^ 32 := by
  omega

/-- A call by a displacement in reach is written, and is read as the displacement in the inner
half of the reach. -/
theorem read_call {t p : UInt64} {site : Bytes} (hlen : site.length = 4)
    (hreach : Reaches 24 (signed 64 (t - p - 4).toNat)) :
    ∃ hw0 hw1 : UInt16, encodeThumbBl site (t - p - 4).toInt64 = some (put16 hw0 ++ put16 hw1) ∧
      ∃ target, readThumb p.toNat hw0.toNat hw1.toNat =
          some { form := some .call, target := target } ∧
        (target = t.toNat ↔ Reaches 23 (signed 64 (t - p - 4).toNat) ∧ t.toNat < 2 ^ 32) := by
  obtain ⟨h, hw0, hw1, hh, hwords, hsome⟩ := encodeBranch_some (some true) hlen rfl
    (Or.inr rfl) hreach
  have hread : readThumb p.toNat hw0.toNat hw1.toNat = some
      { form := some .call, target := (thumbPlace p.toNat hw1.toNat +
        thumbDisp hw0.toNat hw1.toNat) % 2 ^ 32 } := by
    unfold readThumb
    rw [hwords.form]
    rfl
  refine ⟨hw0, hw1, hsome, _, hread, ?_⟩
  have hplace : thumbPlace p.toNat hw1.toNat = p.toNat + 4 := if_pos hwords.link
  have hdisp := (hwords.disp (Or.inr rfl)).trans (forced_disp hh hreach)
  rw [hplace, ← innerDisp_eq_iff hreach, ← hdisp]
  exact wrap_target (signed_sub_four t p) (thumbDisp_bounds _ _) hreach.2

theorem exact_thumb (hk : kind = R_ARM_THM_CALL ∨ kind = R_ARM_THM_JUMP24) :
    ExactOrRefused w base off kind symAddr code ↔ SiteFits w base off kind symAddr code := by
  have htarget : (symbolTarget kind symAddr).toNat < 2 ^ 32 ↔ symAddr.toNat < 2 ^ 32 := by
    have hclear : symbolTarget kind symAddr = symAddr &&& ~~~1 := by
      rcases hk with rfl | rfl <;> exact UInt64.add_zero _
    rw [hclear, toNat_clear_low]
    omega
  have hread (site' : Bytes) : readSite kind (base + UInt64.ofNat off) site' =
      readThumb (base + UInt64.ofNat off).toNat (halfwords site').1 (halfwords site').2 := by
    rcases hk with rfl | rfl <;> rfl
  have hpatch : dispatchImportReloc w base off kind symAddr =
      patchSite w off (siteLen kind) fun insn => encodeThumbBl insn
        (symbolTarget kind symAddr - (base + UInt64.ofNat off) - 4).toInt64 := by
    rcases hk with rfl | rfl <;> rfl
  have hfits (site : Bytes) : Fits base off kind symAddr site ↔
      (Reaches 24 (signed 64 (symbolTarget kind symAddr - (base + UInt64.ofNat off) - 4).toNat) →
        Reaches 23 (signed 64 (symbolTarget kind symAddr - (base + UInt64.ofNat off) - 4).toNat) ∧
          symAddr.toNat < 2 ^ 32 ∧ siteForm kind site = some .call) := by
    rcases hk with rfl | rfl <;> rfl
  have hlen : siteLen kind = 4 := by rcases hk with rfl | rfl <;> rfl
  refine exact_of_encode _ hpatch fun site hsite => ?_
  rw [hfits]
  by_cases hreach : Reaches 24
    (signed 64 (symbolTarget kind symAddr - (base + UInt64.ofNat off) - 4).toNat)
  · obtain ⟨hw0, hw1, hnew, target, hcall, hiff⟩ := read_call (hsite.trans hlen) hreach
    refine Or.inr ⟨_, hnew, hlen.symm, ?_⟩
    rw [hread, halfwords_put, hcall, reference_iff, hiff, htarget, imp_iff_right hreach]
    constructor
    · rintro ⟨hform, hinner, haddr⟩
      exact ⟨hinner, haddr, hform.symm⟩
    · rintro ⟨hinner, haddr, hform⟩
      exact ⟨hform.symm, hinner, haddr⟩
  · exact Or.inl ⟨encodeBranch_none _ hreach, fun h => absurd h hreach⟩

/-- The word of a JAL is read as the displacement, with the opcode and the destination of the
site. -/
theorem read_jump {t p : UInt64} {site : Bytes} {v : Nat}
    (hv : (v : Int) = signed 64 (t - p).toNat % 2 ^ 32)
    (hreach : Reaches 20 (signed 64 (t - p).toNat)) :
    readJal p.toNat (jalWord v (getLE site % 2 ^ 12)) =
        some { form := siteForm R_RISCV_CALL site, target := t.toNat } ↔
      t.toNat < 2 ^ 32 ∧ bits (getLE site) 0 7 = 0x6F := by
  have hform : siteForm R_RISCV_CALL site = jalForm (getLE site) := rfl
  have hbounds : -2 ^ 24 ≤ signed 64 (t - p).toNat ∧ signed 64 (t - p).toNat < 2 ^ 24 := by
    obtain ⟨-, hlow, hhigh⟩ := hreach
    omega
  unfold readJal
  rw [jalForm_jalWord, jalForm_mod, hform, jalDisp_jalWord hv (Nat.mod_lt _ (by decide)) hreach,
    ← isSome_jalForm]
  cases jalForm (getLE site) with
  | none => exact iff_of_false (fun h => nomatch h) (fun h => nomatch h.2)
  | some form =>
    rw [Option.map_some, reference_iff, wrap_target (signed_sub t p) hbounds hbounds]
    exact ⟨fun h => ⟨h.2.2, rfl⟩, fun h => ⟨rfl, rfl, h.1⟩⟩

theorem exact_call (hk : kind = R_RISCV_CALL) :
    ExactOrRefused w base off kind symAddr code ↔ SiteFits w base off kind symAddr code := by
  subst hk
  have htarget : symbolTarget R_RISCV_CALL symAddr = symAddr := UInt64.add_zero _
  have hpatch : dispatchImportReloc w base off R_RISCV_CALL symAddr = patchSite w off 4 fun insn =>
      encodeRiscVJal insn (symbolTarget R_RISCV_CALL symAddr - (base + UInt64.ofNat off)).toInt64 :=
    rfl
  have hfits (site : Bytes) : Fits base off R_RISCV_CALL symAddr site ↔
      (Reaches 20 (signed 64
        (symbolTarget R_RISCV_CALL symAddr - (base + UInt64.ofNat off)).toNat) →
        symAddr.toNat < 2 ^ 32 ∧ bits (getLE site) 0 7 = 0x6F) := Iff.rfl
  have hread (site' : Bytes) : readSite R_RISCV_CALL (base + UInt64.ofNat off) site' =
      readJal (base + UInt64.ofNat off).toNat (getLE site') := rfl
  refine exact_of_encode _ hpatch fun site hsite => ?_
  rw [hfits, htarget]
  by_cases hreach : Reaches 20 (signed 64 (symAddr - (base + UInt64.ofNat off)).toNat)
  · obtain ⟨v, hv, hnew⟩ := encodeRiscVJal_some hsite hreach
    refine Or.inr ⟨_, hnew, length_putLE 4 _, ?_⟩
    have hword : getLE (putLE 4 (jalWord v (getLE site % 2 ^ 12))) =
        jalWord v (getLE site % 2 ^ 12) :=
      getLE_putLE (jalWord_lt v (Nat.mod_lt _ (by decide)))
    rw [hread, hword, imp_iff_right hreach]
    exact read_jump hv hreach
  · exact Or.inl ⟨encodeRiscVJal_none hreach, fun h => absurd h hreach⟩

theorem accepted_kinds (h : 1 ≤ kind ∧ kind ≤ 9) :
    kind = R_X86_64_64 ∨ (kind = R_X86_64_PC32 ∨ kind = R_X86_64_PLT32) ∨
      (kind = R_ARM_ABS32 ∨ kind = R_RISCV_32) ∨
      (kind = R_ARM_THM_CALL ∨ kind = R_ARM_THM_JUMP24) ∨ kind = R_ARM_REL32 ∨
      kind = R_RISCV_CALL := by
  have hlow : 1 ≤ kind.toNat := UInt8.le_iff_toNat_le.mp h.1
  have hhigh : kind.toNat ≤ 9 := UInt8.le_iff_toNat_le.mp h.2
  simp only [← UInt8.toNat_inj]
  show kind.toNat = 1 ∨ (kind.toNat = 2 ∨ kind.toNat = 3) ∨ (kind.toNat = 4 ∨ kind.toNat = 8) ∨
    (kind.toNat = 5 ∨ kind.toNat = 6) ∨ kind.toNat = 7 ∨ kind.toNat = 9
  omega

theorem refuse_of_unknown (h : ¬ (1 ≤ kind ∧ kind ≤ 9)) :
    dispatchImportReloc w base off kind symAddr = refuse := by
  have hout : ¬ (1 ≤ kind.toNat ∧ kind.toNat ≤ 9) := fun hin =>
    h ⟨UInt8.le_iff_toNat_le.mpr hin.1, UInt8.le_iff_toNat_le.mpr hin.2⟩
  have hx86 : ¬ (1 ≤ kind ∧ kind ≤ 3) := by
    rintro ⟨hlow, hhigh⟩
    exact hout ⟨UInt8.le_iff_toNat_le.mp hlow,
      (UInt8.le_iff_toNat_le.mp hhigh).trans (by decide)⟩
  have harm : ¬ (4 ≤ kind ∧ kind ≤ 7) := by
    rintro ⟨hlow, hhigh⟩
    exact hout ⟨Nat.le_trans (by decide) (UInt8.le_iff_toNat_le.mp hlow),
      (UInt8.le_iff_toNat_le.mp hhigh).trans (by decide)⟩
  have hriscv : ¬ (kind = 8 ∨ kind = 9) := by
    rintro (rfl | rfl) <;> exact h (by decide)
  unfold dispatchImportReloc
  rw [if_neg hx86, if_neg harm, if_neg hriscv]

end

/-- Where the loader's relocations are exact or refused. -/
theorem exactOrRefused_iff (w : PtrWidth) (base : UInt64) (off : Nat) (kind : UInt8)
    (symAddr : UInt64) (code : Bytes) :
    ExactOrRefused w base off kind symAddr code ↔
      (1 ≤ kind ∧ kind ≤ 9 → SiteFits w base off kind symAddr code) := by
  by_cases hkind : 1 ≤ kind ∧ kind ≤ 9
  · rw [imp_iff_right hkind]
    rcases accepted_kinds hkind with h | h | h | h | h | h
    · exact exact_abs64 h
    · exact exact_pc32 h
    · exact exact_abs32 h
    · exact exact_thumb h
    · exact exact_rel32 h
    · exact exact_call h
  · refine iff_of_true ?_ (fun h => absurd h hkind)
    unfold ExactOrRefused
    rw [refuse_of_unknown hkind]
    rfl

/-- A call to a symbol eight mebibytes away goes sixteen too short, and a jump becomes a call. -/
theorem patched_branches_miss :
    ¬ ExactOrRefused .w32 0x20000000 0 R_ARM_THM_CALL 0x20800004 [0x00, 0xF0, 0x00, 0xF8] ∧
    ¬ ExactOrRefused .w32 0x20000000 0 R_ARM_THM_JUMP24 0x20000100 [0x00, 0xF0, 0x00, 0xB8] := by
  rw [exact_thumb (Or.inl rfl), exact_thumb (Or.inr rfl)]
  constructor
  · rintro (h | ⟨-, site, hsite, hfits⟩)
    · exact absurd h (by decide)
    · cases hsite
      exact absurd (hfits (by decide)).1 (by decide)
  · rintro (h | ⟨-, site, hsite, hfits⟩)
    · exact absurd h (by decide)
    · cases hsite
      exact absurd (hfits (by decide)).2.2 (by decide)
end Tyu

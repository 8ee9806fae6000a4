import Tyu.Loader.Container

/-! # The layout as sums -/

namespace Tyu

open Lib.Wire

/-- The next multiple of `k`. -/
def alignTo (k n : Nat) : Nat := (n + k - 1) / k * k

structure Lengths where
  encHeader : Nat
  modinfo : Nat
  code : Nat
  rodata : Nat
  data : Nat
  relocCount : Nat

namespace Lengths

def modinfoStart (l : Lengths) : Nat := HEADER_SIZE.toNat + l.encHeader
def codeStart (l : Lengths) : Nat := alignTo 4 (l.modinfoStart + l.modinfo)
def rodataStart (l : Lengths) : Nat := alignTo 8 (l.codeStart + l.code)
def dataStart (l : Lengths) : Nat := alignTo 8 (l.rodataStart + l.rodata)
def relocStart (l : Lengths) : Nat := alignTo 8 (l.dataStart + l.data)

def total (l : Lengths) : Nat := alignTo 8 (l.relocStart + l.relocCount * RELOC_ENTRY_SIZE)

end Lengths

def SectionLens.lengths (s : SectionLens) : Lengths where
  encHeader := s.encHeader.toNat
  modinfo := s.modinfo.toNat
  code := s.code.toNat
  rodata := s.rodata.toNat
  data := s.data.toNat
  relocCount := s.relocCount.toNat

/-! ## Steps -/

variable {k n : Nat} {a b mask off : UInt32}

theorem le_alignTo (hk : 0 < k) : n ≤ alignTo k n := by
  have hdiv := Nat.div_add_mod (n + k - 1) k
  have hmod := Nat.mod_lt (n + k - 1) hk
  unfold alignTo
  rw [Nat.mul_comm]
  omega

theorem addU32_of_lt {mode : Overflow} (h : a.toNat + b.toNat < 2 ^ 32) :
    addU32 mode a b = some (a + b) := by
  cases mode with
  | wraps => rfl
  | stops => exact if_pos h

theorem addU32_stops {c : UInt32} (h : addU32 .stops a b = some c) :
    c.toNat = a.toNat + b.toNat := by
  simp only [addU32] at h
  split at h
  · rename_i hfits
    rw [← Option.some.inj h, UInt32.toNat_add, Nat.mod_eq_of_lt hfits]
  · cases h

theorem toNat_add_of_lt (h : a.toNat + b.toNat < 2 ^ 32) : (a + b).toNat = a.toNat + b.toNat := by
  rw [UInt32.toNat_add, Nat.mod_eq_of_lt h]

theorem and_not_mask (hn : n < 2 ^ 32) (hk : k ≤ 32) :
    n &&& (2 ^ 32 - 1 - (2 ^ k - 1)) = n / 2 ^ k * 2 ^ k := by
  have hmask : 2 ^ 32 - 1 - (2 ^ k - 1) = (2 ^ (32 - k) - 1) * 2 ^ k := by
    have hpow : 2 ^ (32 - k) * 2 ^ k = 2 ^ 32 := by rw [← Nat.pow_add, Nat.sub_add_cancel hk]
    have hpos := Nat.two_pow_pos k
    rw [Nat.sub_mul, hpow, Nat.one_mul]
    omega
  apply Nat.eq_of_testBit_eq
  intro i
  rw [Nat.testBit_and, hmask, Nat.testBit_mul_two_pow, Nat.testBit_mul_two_pow,
    Nat.testBit_two_pow_sub_one, Nat.testBit_div_two_pow]
  by_cases hi : k ≤ i
  · rw [Nat.sub_add_cancel hi]
    by_cases hi' : i < 32
    · simp only [hi, decide_true, Bool.true_and, show i - k < 32 - k by omega, Bool.and_true]
    · rw [Nat.testBit_lt_two_pow (Nat.lt_of_lt_of_le hn (Nat.pow_le_pow_right (by decide)
        (by omega)))]
      simp
  · simp [hi]

theorem toNat_alignDown (hk : k ≤ 32) (hmask : mask.toNat = 2 ^ k - 1) :
    (a &&& ~~~mask).toNat = a.toNat / 2 ^ k * 2 ^ k := by
  rw [UInt32.toNat_and, UInt32.toNat_not, hmask]
  exact and_not_mask a.toNat_lt hk

theorem alignUp_of_lt (mode : Overflow) (hk : k ≤ 32) (hmask : mask.toNat = 2 ^ k - 1)
    (h : off.toNat + mask.toNat < 2 ^ 32) :
    ∃ up, alignUp mode off mask = some up ∧ up.toNat = alignTo (2 ^ k) off.toNat := by
  have hpos := Nat.two_pow_pos k
  refine ⟨(off + mask) &&& ~~~mask, ?_, ?_⟩
  · unfold alignUp
    rw [addU32_of_lt h]
    rfl
  · rw [toNat_alignDown hk hmask, toNat_add_of_lt h, hmask]
    unfold alignTo
    congr 2
    omega

theorem alignUp_stops {up : UInt32} (hk : k ≤ 32) (hmask : mask.toNat = 2 ^ k - 1)
    (h : alignUp .stops off mask = some up) : up.toNat = alignTo (2 ^ k) off.toNat := by
  have hpos := Nat.two_pow_pos k
  unfold alignUp at h
  obtain ⟨sum, hsum, hup⟩ := Option.bind_eq_some_iff.mp h
  rw [← Option.some.inj hup, toNat_alignDown hk hmask, addU32_stops hsum, hmask]
  unfold alignTo
  congr 2
  omega

theorem add_mask_lt (hk : k ≤ 32) (h : alignTo (2 ^ k) n < 2 ^ 32) : n + (2 ^ k - 1) < 2 ^ 32 := by
  have hpos := Nat.two_pow_pos k
  have hdvd : 2 ^ k ∣ 2 ^ 32 := Nat.pow_dvd_pow 2 hk
  obtain ⟨m, hm⟩ := hdvd
  unfold alignTo at h
  by_contra hge
  have hle : m ≤ (n + 2 ^ k - 1) / 2 ^ k := by
    rw [Nat.le_div_iff_mul_le hpos, Nat.mul_comm, ← hm]
    omega
  have hmul := Nat.mul_le_mul_right (2 ^ k) hle
  rw [Nat.mul_comm m, ← hm] at hmul
  omega

theorem pad_of_lt (mode : Overflow) (len : UInt32) {start : Nat} (hk : k ≤ 32)
    (hmask : mask.toNat = 2 ^ k - 1) (hoff : off.toNat = start)
    (h : alignTo (2 ^ k) (start + len.toNat) < 2 ^ 32) :
    ∃ stop up, addU32 mode off len = some stop ∧ alignUp mode stop mask = some up ∧
      up.toNat = alignTo (2 ^ k) (start + len.toNat) := by
  have hroom := add_mask_lt hk h
  have hsum : (off + len).toNat = start + len.toNat := by
    rw [toNat_add_of_lt (by omega), hoff]
  obtain ⟨up, hup, hupNat⟩ := alignUp_of_lt mode hk hmask (show (off + len).toNat + _ < _ by
    rw [hsum, hmask]
    exact hroom)
  exact ⟨off + len, up, addU32_of_lt (by omega), hup, by rw [hupNat, hsum]⟩

theorem pad_stops {len stop up : UInt32} {start : Nat} (hk : k ≤ 32)
    (hmask : mask.toNat = 2 ^ k - 1) (hoff : off.toNat = start)
    (hstop : addU32 .stops off len = some stop) (hup : alignUp .stops stop mask = some up) :
    up.toNat = alignTo (2 ^ k) (start + len.toNat) := by
  rw [alignUp_stops hk hmask hup, addU32_stops hstop, hoff]

/-! ## The whole computation -/

structure LmodHeader.Placed (h : LmodHeader) (abiHash : UInt64) (s : SectionLens) : Prop where
  magic : h.magic = LMOD_MAGIC
  formatVer : h.formatVer = FORMAT_VER
  abiHash : h.abiHash = abiHash
  modinfoOff : h.modinfoOff.toNat = s.lengths.modinfoStart
  modinfoLen : h.modinfoLen = s.modinfo
  codeOff : h.codeOff.toNat = s.lengths.codeStart
  codeLen : h.codeLen = s.code
  rodataOff : h.rodataOff.toNat = s.lengths.rodataStart
  rodataLen : h.rodataLen = s.rodata
  dataOff : h.dataOff.toNat = s.lengths.dataStart
  dataLen : h.dataLen = s.data
  bssLen : h.bssLen = s.bss
  relocOff : h.relocOff.toNat = s.lengths.relocStart
  relocCount : h.relocCount = s.relocCount
  sigLen : h.sigLen = 0
  totalLen : h.totalLen.toNat = s.lengths.total

theorem Lengths.ordered (l : Lengths) :
    l.modinfoStart + l.modinfo ≤ l.codeStart ∧ l.codeStart + l.code ≤ l.rodataStart ∧
      l.rodataStart + l.rodata ≤ l.dataStart ∧ l.dataStart + l.data ≤ l.relocStart ∧
      l.relocStart + l.relocCount * RELOC_ENTRY_SIZE ≤ l.total :=
  ⟨le_alignTo (by decide), le_alignTo (by decide), le_alignTo (by decide), le_alignTo (by decide),
    le_alignTo (by decide)⟩

theorem mask3 : (3 : UInt32).toNat = 2 ^ 2 - 1 := rfl

theorem mask7 : (7 : UInt32).toNat = 2 ^ 3 - 1 := rfl

theorem mulU32_of_lt {mode : Overflow} (h : a.toNat * b.toNat < 2 ^ 32) :
    mulU32 mode a b = some (a * b) := by
  cases mode with
  | wraps => rfl
  | stops => exact if_pos h

theorem toNat_mul16 {n : UInt32} (h : n.toNat * 16 < 2 ^ 32) :
    (n * 16).toNat = n.toNat * RELOC_ENTRY_SIZE := by
  rw [UInt32.toNat_mul]
  exact Nat.mod_eq_of_lt h

theorem computeLayout_of_lt (mode : Overflow) (abiHash : UInt64) {s : SectionLens}
    (h : s.lengths.total < 2 ^ 32) :
    ∃ hdr, computeLayout mode abiHash s = some hdr ∧ hdr.Placed abiHash s := by
  obtain ⟨hcode, hrodata, hdata, hreloc, htotal⟩ := s.lengths.ordered
  have hfirst : HEADER_SIZE.toNat + s.encHeader.toNat = s.lengths.modinfoStart := rfl
  have hentries : s.relocCount.toNat * 16 = s.lengths.relocCount * RELOC_ENTRY_SIZE := rfl
  have hmodinfoOff := toNat_add_of_lt (a := HEADER_SIZE) (b := s.encHeader) (by omega)
  have hmul := toNat_mul16 (n := s.relocCount) (by omega)
  obtain ⟨o₁, codeOff, ho₁, hcodeOff, hcodeNat⟩ := pad_of_lt mode s.modinfo
    (by decide) mask3 hmodinfoOff (show s.lengths.codeStart < 2 ^ 32 by omega)
  obtain ⟨o₂, rodataOff, ho₂, hrodataOff, hrodataNat⟩ := pad_of_lt mode s.code
    (by decide) mask7 hcodeNat (show s.lengths.rodataStart < 2 ^ 32 by omega)
  obtain ⟨o₃, dataOff, ho₃, hdataOff, hdataNat⟩ := pad_of_lt mode s.rodata
    (by decide) mask7 hrodataNat (show s.lengths.dataStart < 2 ^ 32 by omega)
  obtain ⟨o₄, relocOff, ho₄, hrelocOff, hrelocNat⟩ := pad_of_lt mode s.data
    (by decide) mask7 hdataNat (show s.lengths.relocStart < 2 ^ 32 by omega)
  obtain ⟨o₅, sigOff, ho₅, hsigOff, hsigNat⟩ := pad_of_lt mode (s.relocCount * 16)
    (by decide) mask7 hrelocNat (by rw [hmul]; exact h)
  rw [hmul] at hsigNat
  have htotalNat : sigOff.toNat = s.lengths.total := hsigNat
  have hend : sigOff.toNat + (0 : UInt32).toNat < 2 ^ 32 := by
    show sigOff.toNat + 0 < 2 ^ 32
    omega
  refine ⟨{
    abiHash, codeOff, rodataOff, dataOff, relocOff, sigOff
    modinfoOff := HEADER_SIZE + s.encHeader
    totalLen := sigOff + 0
    modinfoLen := s.modinfo
    codeLen := s.code
    rodataLen := s.rodata
    dataLen := s.data
    bssLen := s.bss
    relocCount := s.relocCount
    sigLen := 0 }, ?_, ?_⟩
  · unfold computeLayout
    rw [addU32_of_lt (show HEADER_SIZE.toNat + s.encHeader.toNat < 2 ^ 32 by omega),
      mulU32_of_lt (show s.relocCount.toNat * 16 < 2 ^ 32 by omega)]
    simp only [ho₁, hcodeOff, ho₂, hrodataOff, ho₃, hdataOff, ho₄, hrelocOff, ho₅, hsigOff,
      addU32_of_lt hend, Option.bind_eq_bind, Option.bind_some]
  · exact {
      magic := rfl, formatVer := rfl, abiHash := rfl, modinfoLen := rfl, codeLen := rfl
      rodataLen := rfl, dataLen := rfl, bssLen := rfl, relocCount := rfl, sigLen := rfl
      modinfoOff := hmodinfoOff
      codeOff := hcodeNat
      rodataOff := hrodataNat
      dataOff := hdataNat
      relocOff := hrelocNat
      totalLen := (toNat_add_of_lt hend).trans htotalNat }

theorem total_lt_of_stops {abiHash : UInt64} {s : SectionLens} {hdr : LmodHeader}
    (h : computeLayout .stops abiHash s = some hdr) : s.lengths.total < 2 ^ 32 := by
  unfold computeLayout at h
  simp only [Option.bind_eq_bind, Option.bind_eq_some_iff] at h
  obtain ⟨o₀, ho₀, o₁, ho₁, codeOff, hcodeOff, o₂, ho₂, rodataOff, hrodataOff, o₃, ho₃, dataOff,
    hdataOff, o₄, ho₄, relocOff, hrelocOff, entries, hentries, o₅, ho₅, sigOff, hsigOff, -⟩ := h
  have hcodeNat := pad_stops (by decide) mask3 (addU32_stops ho₀) ho₁ hcodeOff
  have hrodataNat := pad_stops (by decide) mask7 hcodeNat ho₂ hrodataOff
  have hdataNat := pad_stops (by decide) mask7 hrodataNat ho₃ hdataOff
  have hrelocNat := pad_stops (by decide) mask7 hdataNat ho₄ hrelocOff
  have hsigNat := pad_stops (by decide) mask7 hrelocNat ho₅ hsigOff
  have hentriesNat : entries.toNat = s.relocCount.toNat * RELOC_ENTRY_SIZE := by
    simp only [mulU32] at hentries
    split at hentries
    · rename_i hfits
      rw [← Option.some.inj hentries]
      exact toNat_mul16 hfits
    · cases hentries
  rw [hentriesNat] at hsigNat
  show alignTo (2 ^ 3) (_ + s.relocCount.toNat * RELOC_ENTRY_SIZE) < 2 ^ 32
  exact hsigNat ▸ sigOff.toNat_lt

theorem computeLayout_wraps (abiHash : UInt64) (s : SectionLens) :
    ∃ hdr, computeLayout .wraps abiHash s = some hdr := ⟨_, rfl⟩

end Tyu

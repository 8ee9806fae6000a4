import Tyu.Loader.Signature

/-!
# What an accepted container guarantees

The sections of an accepted container lie in it, and no two of them share a byte: the ranges are
sorted by their start, and each ends before the next one starts.
-/

namespace Tyu

open Lib Lib.Wire

namespace Container

structure Part where
  start : Nat
  len : Nat
deriving DecidableEq

def Part.Covers (p : Part) (i : Nat) : Prop := p.start ≤ i ∧ i < p.start + p.len

def Part.Apart (p q : Part) : Prop := ∀ i, ¬ (p.Covers i ∧ q.Covers i)

def sectionTable (hdr : LmodHeader) : List (UInt32 × Nat) :=
  [(hdr.modinfoOff, hdr.modinfoLen.toNat), (hdr.codeOff, hdr.codeLen.toNat),
    (hdr.rodataOff, hdr.rodataLen.toNat), (hdr.dataOff, hdr.dataLen.toNat),
    (hdr.relocOff, hdr.relocCount.toNat * RELOC_ENTRY_SIZE)]

def sectionPart (s : UInt32 × Nat) : Part := { start := s.1.toNat, len := s.2 }

def headerPart : Part := { start := 0, len := HEADER_SIZE.toNat }

def sections (c : Container) : List Part := (sectionTable c.hdr).map sectionPart

def sigPart (c : Container) : Part := { start := c.hdr.sigOff.toNat, len := c.hdr.sigLen.toNat }

def parts (c : Container) : List Part := headerPart :: (c.sections ++ [c.sigPart])

/-- The part of the envelope that the loader looks at, in a build that decrypts. -/
def envelopePart (c : Container) : Part :=
  { start := HEADER_SIZE.toNat, len := envelopeReads (c.bytes.drop HEADER_SIZE.toNat) }

def encrypted (c : Container) : Bool := c.hdr.flags &&& LMOD_FLAG_ENCRYPTED != 0

def reads (c : Container) (encryption : Bool) : List Part :=
  headerPart :: (c.sections ++ if encryption && c.encrypted then [c.envelopePart] else [])

structure Sound (c : Container) (w : PtrWidth) (encryption : Bool) : Prop where
  inside : ∀ p ∈ c.parts, ∀ i, p.Covers i → i < c.bytes.length
  disjoint : c.parts.Pairwise Part.Apart
  modinfo : (c.modinfo w).isSome = true
  code : (c.code w).isSome = true
  rodata : (c.rodata w).isSome = true
  data : (c.data w).isSome = true
  relocRaw : (c.relocRaw w).isSome = true
  relocEntry : ∀ index < c.hdr.relocCount, (c.relocEntry w index).isSome = true
  signed : 0 < c.hdr.sigLen.toNat → ∀ p ∈ c.reads encryption, ∀ i, p.Covers i →
    ¬ c.sigPart.Covers i → i < c.hdr.sigOff.toNat

/-- The trailer of a signed container lies behind every section, and the envelope does not
reach past it. -/
def TrailerLast (c : Container) (encryption : Bool) : Prop :=
  0 < c.hdr.sigLen.toNat →
    (∀ p ∈ c.sections, p.len ≠ 0 → p.start + p.len ≤ c.hdr.sigOff.toNat) ∧
    (encryption = true → c.encrypted = true →
      c.envelopePart.start + c.envelopePart.len ≤ c.sigPart.start + c.sigPart.len)

theorem monotone_pairwise {rs : List (UInt32 × UInt32)} (hmono : monotone rs = true)
    (hsorted : rs.Pairwise fun a b => a.1 ≤ b.1) (hle : ∀ r ∈ rs, r.1 ≤ r.2) :
    rs.Pairwise fun a b => a.1 ≠ 0 → a.2 ≤ b.1 := by
  induction rs with
  | nil => exact .nil
  | cons a rest ih =>
    cases rest with
    | nil => exact List.pairwise_singleton _ _
    | cons b rest =>
      simp only [monotone, Bool.and_eq_true, Bool.not_eq_true', Bool.and_eq_false_iff,
        bne_eq_false_iff_eq, decide_eq_false_iff_not] at hmono
      have hlater := ih hmono.2 (List.pairwise_cons.mp hsorted).2 fun r hr => hle r (by simp [hr])
      have hab := (List.pairwise_cons.mp hsorted).1 b (by simp)
      have ha := hle a (by simp)
      have hb := hle b (by simp)
      rw [UInt32.le_iff_toNat_le] at hab ha hb
      have hfirst : a.1 ≠ 0 → a.2 ≤ b.1 := by
        intro hne
        have hpos : 0 < a.1.toNat := Nat.pos_of_ne_zero fun h => hne (UInt32.toNat_inj.mp h)
        rcases hmono.1 with (hlt | hzero) | hzero
        · exact UInt32.not_lt.mp hlt
        · rw [hzero, UInt32.toNat_zero] at ha
          omega
        · rw [hzero, UInt32.toNat_zero] at hab
          omega
      refine List.pairwise_cons.mpr ⟨fun c hc hne => ?_, hlater⟩
      rcases List.mem_cons.mp hc with rfl | hc
      · exact hfirst hne
      · have hbne : b.1 ≠ 0 := by
          intro hzero
          rw [hzero, UInt32.toNat_zero] at hab
          exact hne (UInt32.toNat_inj.mp (by rw [UInt32.toNat_zero]; omega))
        have hbc := (List.pairwise_cons.mp hlater).1 c hc hbne
        exact UInt32.le_trans (hfirst hne) (UInt32.le_trans (hle b (by simp)) hbc)

theorem le_saturatingAdd (a b : UInt32) : a ≤ saturatingAdd a b := by
  have ha := a.toNat_lt
  unfold saturatingAdd
  rw [UInt32.le_iff_toNat_le]
  split
  · rename_i hfits
    rw [UInt32.toNat_add, Nat.mod_eq_of_lt hfits]
    omega
  · show a.toNat ≤ 4294967295
    omega

def RangesApart (a b : UInt32 × UInt32) : Prop :=
  a.1 ≠ 0 → b.1 ≠ 0 → a.2 ≤ b.1 ∨ b.2 ≤ a.1

theorem ranges_pairwise {hdr : LmodHeader} {n : Nat} (h : monotone (sortRanges (ranges hdr n)) = true) :
    (ranges hdr n).Pairwise RangesApart := by
  have hle : ∀ r ∈ sortRanges (ranges hdr n), r.1 ≤ r.2 := by
    intro r hr
    rw [(sortRanges_perm _).mem_iff] at hr
    simp only [ranges, List.mem_cons, List.not_mem_nil, or_false] at hr
    rcases hr with rfl | rfl | rfl | rfl | rfl | rfl
    · show (0 : UInt32) ≤ 72
      decide
    all_goals exact le_saturatingAdd _ _
  have hsorted := monotone_pairwise h (sortRanges_sorted _) hle
  have hsym : ∀ {a b : UInt32 × UInt32}, RangesApart a b → RangesApart b a :=
    fun hab hb ha => (hab ha hb).symm
  exact ((sortRanges_perm _).pairwise_iff hsym).mp
    (hsorted.imp fun hab ha _ => .inl (hab ha))

def SectionFits (total : Nat) (s : UInt32 × Nat) : Prop :=
  s.2 ≠ 0 → HEADER_SIZE.toNat ≤ s.1.toNat ∧ s.1.toNat + s.2 ≤ total

variable {w : PtrWidth} {bytes : Bytes} {hdr : LmodHeader}

theorem Checked.length_lt (h : Checked w bytes hdr) : bytes.length < 2 ^ 32 := by
  rw [← h.total]
  exact hdr.totalLen.toNat_lt

theorem Checked.section_fits (h : Checked w bytes hdr) :
    ∀ s ∈ sectionTable hdr, SectionFits bytes.length s := by
  have hsection : ∀ off len : UInt32, checkRange bytes.length off len = .ok () →
      SectionFits bytes.length (off, len.toNat) := by
    intro off len hcheck hne
    have hchecked := checkRange_eq_ok.mp hcheck fun hzero => hne (by rw [hzero]; rfl)
    exact ⟨UInt32.le_iff_toNat_le.mp hchecked.2.2, hchecked.2.1⟩
  intro s hs
  simp only [sectionTable, List.mem_cons, List.not_mem_nil, or_false] at hs
  rcases hs with rfl | rfl | rfl | rfl | rfl
  · exact hsection _ _ h.modinfo
  · exact hsection _ _ h.code
  · exact hsection _ _ h.rodata
  · exact hsection _ _ h.dataSection
  · intro hne
    have hchecked := checkTail_eq_ok.mp h.reloc hne
    exact ⟨UInt32.le_iff_toNat_le.mp hchecked.2.2, hchecked.2.1⟩

theorem ranges_eq (hdr : LmodHeader) :
    ranges hdr (hdr.relocCount.toNat * RELOC_ENTRY_SIZE) = (0, HEADER_SIZE) ::
      (sectionTable hdr).map fun s => (s.1, saturatingAdd s.1 (UInt32.ofNat s.2)) := by
  simp [ranges, sectionTable]

theorem sectionPart_apart {total : Nat} {s t : UInt32 × Nat} (htotal : total < 2 ^ 32)
    (hs : SectionFits total s) (ht : SectionFits total t)
    (h : RangesApart (s.1, saturatingAdd s.1 (UInt32.ofNat s.2))
      (t.1, saturatingAdd t.1 (UInt32.ofNat t.2))) :
    (sectionPart s).Apart (sectionPart t) := by
  have hstop : ∀ u : UInt32 × Nat, SectionFits total u → u.2 ≠ 0 →
      u.1 ≠ 0 ∧ (saturatingAdd u.1 (UInt32.ofNat u.2)).toNat = u.1.toNat + u.2 := by
    intro u hu hne
    have hfits := hu hne
    have hlen : (UInt32.ofNat u.2).toNat = u.2 := by
      rw [UInt32.toNat_ofNat']
      exact Nat.mod_eq_of_lt (by omega)
    constructor
    · intro hzero
      rw [hzero] at hfits
      exact absurd hfits.1 (by decide)
    · unfold saturatingAdd
      rw [hlen, if_pos (by omega), UInt32.toNat_add, hlen, Nat.mod_eq_of_lt (by omega)]
  intro i hi
  obtain ⟨⟨hsi, hsi'⟩, hti, hti'⟩ := hi
  simp only [sectionPart] at hsi hsi' hti hti'
  obtain ⟨hsne, hsstop⟩ := hstop s hs (by omega)
  obtain ⟨htne, htstop⟩ := hstop t ht (by omega)
  rcases h hsne htne with hle | hle
  · rw [UInt32.le_iff_toNat_le, hsstop] at hle
    dsimp only at hle
    omega
  · rw [UInt32.le_iff_toNat_le, htstop] at hle
    dsimp only at hle
    omega

theorem Checked.sections_apart (h : Checked w bytes hdr) :
    ((sectionTable hdr).map sectionPart).Pairwise Part.Apart := by
  have hranges := ranges_pairwise h.monotone
  rw [ranges_eq, List.pairwise_cons, List.pairwise_map] at hranges
  rw [List.pairwise_map]
  exact hranges.2.imp_of_mem fun hs ht hst =>
    sectionPart_apart h.length_lt (h.section_fits _ hs) (h.section_fits _ ht) hst

theorem Checked.header_apart (h : Checked w bytes hdr) :
    ∀ p ∈ (sectionTable hdr).map sectionPart, headerPart.Apart p := by
  intro p hp i hi
  obtain ⟨s, hs, rfl⟩ := List.mem_map.mp hp
  obtain ⟨⟨-, hi'⟩, hsi, hsi'⟩ := hi
  simp only [headerPart, sectionPart, Nat.zero_add] at hi' hsi hsi'
  have hfits := h.section_fits s hs (by omega)
  omega

variable {c : Container} {encryption : Bool}

theorem isSome_sectionBytes {off : UInt32} {len : UInt32} (hlt : c.bytes.length < 2 ^ 32)
    (h : SectionFits c.bytes.length (off, len.toNat)) :
    (c.sectionBytes w off len).isSome = true := by
  unfold sectionBytes
  by_cases hzero : len = 0
  · rw [if_pos hzero]
    rfl
  · have hfits := h fun hlen => hzero (UInt32.toNat_inj.mp hlen)
    have hsize := w.le_size
    have hwrap : usize w (off.toNat + len.toNat) = off.toNat + len.toNat :=
      Nat.mod_eq_of_lt (by simp only at hfits; omega)
    rw [if_neg hzero, hwrap, isSome_slice]
    exact ⟨by omega, hfits.2⟩

theorem isSome_decodeEntry {data : Bytes} {off : Nat} (h : off + RELOC_ENTRY_SIZE ≤ data.length) :
    (decodeEntry data off).isSome = true := by
  have h16 : off + 16 ≤ data.length := h
  obtain ⟨siteOff, hsite⟩ := Option.isSome_iff_exists.mp (isSome_u32At.mpr (by omega : off + 4 ≤ data.length))
  obtain ⟨symHash, hhash⟩ := Option.isSome_iff_exists.mp
    (isSome_u64At.mpr (by omega : off + 4 + 8 ≤ data.length))
  have hkind : data[off + 12]? = some data[off + 12] := List.getElem?_eq_getElem (by omega)
  unfold decodeEntry
  rw [if_neg (by omega), hsite, hhash, hkind]
  rfl

/-! ## Soundness -/

theorem Checked.sig_fits (h : Checked w bytes hdr) (hpos : 0 < hdr.sigLen.toNat) :
    HEADER_SIZE.toNat ≤ hdr.sigOff.toNat ∧ hdr.sigOff.toNat + hdr.sigLen.toNat ≤ bytes.length := by
  have hchecked := checkTail_eq_ok.mp h.sig (Nat.ne_of_gt hpos)
  exact ⟨UInt32.le_iff_toNat_le.mp hchecked.2.2, hchecked.2.1⟩

theorem sections_inside (h : Checked w c.bytes c.hdr) :
    ∀ p ∈ c.sections, ∀ i, p.Covers i → i < c.bytes.length := by
  intro p hp i hi
  obtain ⟨s, hs, rfl⟩ := List.mem_map.mp hp
  obtain ⟨hsi, hsi'⟩ := hi
  simp only [sectionPart] at hsi hsi'
  have hfits := h.section_fits s hs (by omega)
  omega

theorem parts_inside (h : Checked w c.bytes c.hdr) :
    ∀ p ∈ c.parts, ∀ i, p.Covers i → i < c.bytes.length := by
  intro p hp i hi
  rcases List.mem_cons.mp hp with rfl | hp
  · have hfits := h.headerFits
    obtain ⟨-, hi'⟩ := hi
    simp only [headerPart, Nat.zero_add] at hi'
    omega
  · rcases List.mem_append.mp hp with hp | hp
    · exact sections_inside h p hp i hi
    · rw [List.mem_singleton.mp hp] at hi
      obtain ⟨hsi, hsi'⟩ := hi
      simp only [sigPart] at hsi hsi'
      have hfits := h.sig_fits (by omega)
      omega

theorem isSome_relocRaw (h : Checked w c.bytes c.hdr) : (c.relocRaw w).isSome = true := by
  have hsize := w.le_size
  have hlen := h.length_lt
  have hn : usize w (c.hdr.relocCount.toNat * RELOC_ENTRY_SIZE) =
      c.hdr.relocCount.toNat * RELOC_ENTRY_SIZE := Nat.mod_eq_of_lt h.relocBytes
  unfold relocRaw
  dsimp only
  rw [hn]
  by_cases hzero : c.hdr.relocCount.toNat * RELOC_ENTRY_SIZE = 0
  · rw [if_pos hzero]
    rfl
  · have hfits := h.section_fits (c.hdr.relocOff, c.hdr.relocCount.toNat * RELOC_ENTRY_SIZE)
      (by simp [sectionTable]) hzero
    dsimp only at hfits
    have hstop : usize w (c.hdr.relocOff.toNat + c.hdr.relocCount.toNat * RELOC_ENTRY_SIZE) =
        c.hdr.relocOff.toNat + c.hdr.relocCount.toNat * RELOC_ENTRY_SIZE :=
      Nat.mod_eq_of_lt (by omega)
    rw [if_neg hzero, hstop, isSome_slice]
    exact ⟨by omega, hfits.2⟩

theorem Checked.entry_fits (h : Checked w c.bytes c.hdr) {index : UInt32}
    (hindex : index < c.hdr.relocCount) :
    usize w (c.hdr.relocOff.toNat + index.toNat * RELOC_ENTRY_SIZE) =
      c.hdr.relocOff.toNat + index.toNat * RELOC_ENTRY_SIZE ∧
    c.hdr.relocOff.toNat + index.toNat * RELOC_ENTRY_SIZE + RELOC_ENTRY_SIZE ≤
      c.bytes.length := by
  have hsize := w.le_size
  have hlen := h.length_lt
  have hentry : (index.toNat + 1) * RELOC_ENTRY_SIZE ≤
      c.hdr.relocCount.toNat * RELOC_ENTRY_SIZE :=
    Nat.mul_le_mul_right _ (UInt32.lt_iff_toNat_lt.mp hindex)
  rw [Nat.add_mul, Nat.one_mul] at hentry
  have hfits := h.section_fits (c.hdr.relocOff, c.hdr.relocCount.toNat * RELOC_ENTRY_SIZE)
    (by simp [sectionTable]) (by unfold RELOC_ENTRY_SIZE at hentry ⊢; omega)
  dsimp only at hfits
  exact ⟨Nat.mod_eq_of_lt (by omega), by omega⟩

theorem isSome_relocEntry (h : Checked w c.bytes c.hdr) {index : UInt32}
    (hindex : index < c.hdr.relocCount) : (c.relocEntry w index).isSome = true := by
  obtain ⟨hoff, hfits⟩ := h.entry_fits hindex
  unfold relocEntry
  rw [if_neg (UInt32.not_le.mpr hindex), hoff]
  exact isSome_decodeEntry hfits

theorem parts_apart (h : Checked w c.bytes c.hdr) (hlast : c.TrailerLast encryption) :
    c.parts.Pairwise Part.Apart := by
  have hsigApart : ∀ p ∈ c.sections, p.Apart c.sigPart := by
    intro p hp i hi
    obtain ⟨⟨hpi, hpi'⟩, hsi, hsi'⟩ := hi
    simp only [sigPart] at hsi hsi'
    have hbefore := (hlast (by omega)).1 p hp (by omega)
    omega
  have hheaderSig : headerPart.Apart c.sigPart := by
    intro i hi
    obtain ⟨⟨-, hi'⟩, hsi, hsi'⟩ := hi
    simp only [headerPart, sigPart, Nat.zero_add] at hi' hsi hsi'
    have hfits := h.sig_fits (by omega)
    omega
  refine List.pairwise_cons.mpr ⟨fun p hp => ?_, List.pairwise_append.mpr
    ⟨h.sections_apart, List.pairwise_singleton _ _, fun p hp q hq => ?_⟩⟩
  · rcases List.mem_append.mp hp with hp | hp
    · exact h.header_apart p hp
    · rw [List.mem_singleton.mp hp]
      exact hheaderSig
  · rw [List.mem_singleton.mp hq]
    exact hsigApart p hp

theorem reads_signed (h : Checked w c.bytes c.hdr) (hlast : c.TrailerLast encryption)
    (hpos : 0 < c.hdr.sigLen.toNat) :
    ∀ p ∈ c.reads encryption, ∀ i, p.Covers i → ¬ c.sigPart.Covers i →
      i < c.hdr.sigOff.toNat := by
  intro p hp i hi hsig
  have hsigFits := h.sig_fits hpos
  rcases List.mem_cons.mp hp with rfl | hp
  · obtain ⟨-, hi'⟩ := hi
    simp only [headerPart, Nat.zero_add] at hi'
    omega
  · rcases List.mem_append.mp hp with hp | hp
    · obtain ⟨hpi, hpi'⟩ := hi
      have hbefore := (hlast hpos).1 p hp (by omega)
      omega
    · have henv : encryption = true ∧ c.encrypted = true ∧ p = c.envelopePart := by
        by_cases hboth : (encryption && c.encrypted) = true
        · rw [if_pos hboth] at hp
          rw [Bool.and_eq_true] at hboth
          exact ⟨hboth.1, hboth.2, List.mem_singleton.mp hp⟩
        · rw [if_neg hboth] at hp
          cases hp
      have hbefore := (hlast hpos).2 henv.1 henv.2.1
      rw [henv.2.2] at hi
      obtain ⟨hpi, hpi'⟩ := hi
      by_contra hge
      apply hsig
      simp only [sigPart] at hbefore
      show c.hdr.sigOff.toNat ≤ i ∧ i < c.hdr.sigOff.toNat + c.hdr.sigLen.toNat
      omega

theorem Sound.trailerLast (h : Checked w c.bytes c.hdr) (hsound : c.Sound w encryption) :
    c.TrailerLast encryption := by
  intro hpos
  refine ⟨fun p hp hne => ?_, fun henc hflag => ?_⟩
  · by_contra hpast
    have hcovers : p.Covers (p.start + p.len - 1) := ⟨by omega, by omega⟩
    by_cases hsig : c.sigPart.Covers (p.start + p.len - 1)
    · have hapart := (List.pairwise_append.mp (List.pairwise_cons.mp hsound.disjoint).2).2.2
        p hp c.sigPart (List.mem_singleton.mpr rfl)
      exact hapart _ ⟨hcovers, hsig⟩
    · have hread : p ∈ c.reads encryption :=
        List.mem_cons_of_mem _ (List.mem_append_left _ hp)
      have hlt := hsound.signed hpos p hread _ hcovers hsig
      omega
  · by_contra hpast
    have hread : c.envelopePart ∈ c.reads encryption := by
      unfold reads
      rw [henc, hflag]
      simp
    have hcovers : c.envelopePart.Covers (c.sigPart.start + c.sigPart.len) := by
      have hfits := h.sig_fits hpos
      exact ⟨by simp only [envelopePart, sigPart]; omega, by omega⟩
    have hsig : ¬ c.sigPart.Covers (c.sigPart.start + c.sigPart.len) := fun hin =>
      Nat.lt_irrefl _ hin.2
    have hlt := hsound.signed hpos _ hread _ hcovers hsig
    simp only [sigPart] at hlt
    omega

/-- Of an accepted container everything is guaranteed but the place of the trailer. -/
theorem sound_iff {c : Container} (h : parse w bytes = .ok c) (encryption : Bool) :
    c.Sound w encryption ↔ c.TrailerLast encryption := by
  obtain ⟨hbytes, hchecked⟩ := parse_eq_ok.mp h
  rw [← hbytes] at hchecked
  have hlen := hchecked.length_lt
  have hsections := hchecked.section_fits
  constructor
  · exact fun hsound => hsound.trailerLast hchecked
  · intro hlast
    exact {
      inside := parts_inside hchecked
      disjoint := parts_apart hchecked hlast
      modinfo := isSome_sectionBytes hlen (hsections _ (by simp [sectionTable]))
      code := isSome_sectionBytes hlen (hsections _ (by simp [sectionTable]))
      rodata := isSome_sectionBytes hlen (hsections _ (by simp [sectionTable]))
      data := isSome_sectionBytes hlen (hsections _ (by simp [sectionTable]))
      relocRaw := isSome_relocRaw hchecked
      relocEntry := fun _ hindex => isSome_relocEntry hchecked hindex
      signed := reads_signed hchecked hlast }

/-- A signed container of four bytes of code; the trailer stands at `sigOff` and the code at
`codeOff`. -/
def signedHeader (codeOff sigOff : UInt32) : LmodHeader where
  flags := LMOD_FLAG_SIGNED
  totalLen := 109
  modinfoOff := 72
  codeOff := codeOff
  codeLen := 4
  rodataOff := 109
  dataOff := 109
  relocOff := 109
  sigOff := sigOff
  sigLen := 33

def signedContainer (codeOff sigOff : UInt32) : Container where
  bytes := headerBytes (signedHeader codeOff sigOff) ++ List.replicate 37 1
  hdr := signedHeader codeOff sigOff

theorem parse_signedContainer (w : PtrWidth) {codeOff sigOff : UInt32}
    (hcode : checkRange 109 codeOff 4 = .ok ()) (hsig : checkRange 109 sigOff 33 = .ok ())
    (hmono : monotone (sortRanges (ranges (signedHeader codeOff sigOff) 0)) = true) :
    parse w (signedContainer codeOff sigOff).bytes = .ok (signedContainer codeOff sigOff) := by
  have hsize := w.le_size
  have hlen : (signedContainer codeOff sigOff).bytes.length = 109 := by
    simp [signedContainer, length_headerBytes]
  refine parse_eq_ok.mpr ⟨rfl, ?_⟩
  exact {
    header := decodeHeader_headerBytes rfl _
    magic := rfl
    formatVer := rfl
    total := hlen.symm
    headerFits := by rw [hlen]; decide
    modinfo := by rw [hlen]; rfl
    code := by rw [hlen]; exact hcode
    rodata := by rw [hlen]; rfl
    dataSection := by rw [hlen]; rfl
    relocBytes := show 0 < w.size by omega
    reloc := rfl
    sig := by
      rw [hlen]
      have hchecked := checkRange_eq_ok.mp hsig (by decide)
      refine checkTail_eq_ok.mpr fun _ => ⟨?_, hchecked.2.1, hchecked.2.2⟩
      have hlt : sigOff.toNat + (33 : UInt32).toNat < 2 ^ 32 := hchecked.1
      exact Nat.lt_of_lt_of_le hlt hsize
    monotone := hmono }

/-- Code behind the trailer: the container is accepted, and no byte of its code is signed. -/
theorem code_behind_trailer :
    parse .w32 (signedContainer 105 72).bytes = .ok (signedContainer 105 72) ∧
      signedRegionLen (signedContainer 105 72).hdr = 72 ∧
      (signedContainer 105 72).code .w32 = some [1, 1, 1, 1] ∧
      ¬ (signedContainer 105 72).Sound .w32 false := by
  refine ⟨parse_signedContainer .w32 rfl rfl (by decide), rfl, by decide, fun hsound => ?_⟩
  have hcode := hsound.signed (by decide) { start := 105, len := 4 } (by decide) 105
    ⟨by decide, by decide⟩ (fun h => absurd h.2 (by decide))
  exact absurd hcode (by decide)

theorem trailer_behind_code :
    (signedContainer 72 76).Sound .w32 false ↔ (signedContainer 72 76).TrailerLast false :=
  sound_iff (parse_signedContainer .w32 rfl rfl (by decide)) false

end Container

end Tyu

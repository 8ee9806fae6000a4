import Tyu.Loader.Layout
import Tyu.Loader.ContainerSound

/-!
# Writing and parsing a container

A container is written by placing its parts at the offsets of the layout, and read back by the
validator and its accessors.
-/

namespace Tyu

open Lib Lib.Wire

structure Contents where
  abiHash : UInt64
  envelope : Bytes
  modinfo : Bytes
  code : Bytes
  rodata : Bytes
  data : Bytes
  bssLen : UInt32
  relocs : List RelocEntry

namespace Contents

def lens (c : Contents) : SectionLens where
  encHeader := UInt32.ofNat c.envelope.length
  modinfo := UInt32.ofNat c.modinfo.length
  code := UInt32.ofNat c.code.length
  rodata := UInt32.ofNat c.rodata.length
  data := UInt32.ofNat c.data.length
  bss := c.bssLen
  relocCount := UInt32.ofNat c.relocs.length

def lengths (c : Contents) : Lengths where
  encHeader := c.envelope.length
  modinfo := c.modinfo.length
  code := c.code.length
  rodata := c.rodata.length
  data := c.data.length
  relocCount := c.relocs.length

def entryPlacements : Nat → List RelocEntry → List (Nat × Bytes)
  | _, [] => []
  | off, e :: es => (off, entryBytes e) :: entryPlacements (off + RELOC_ENTRY_SIZE) es

def placements (c : Contents) (h : LmodHeader) : List (Nat × Bytes) :=
  [(0, headerBytes h), (HEADER_SIZE.toNat, c.envelope), (h.modinfoOff.toNat, c.modinfo),
    (h.codeOff.toNat, c.code), (h.rodataOff.toNat, c.rodata), (h.dataOff.toNat, c.data)] ++
    entryPlacements h.relocOff.toNat c.relocs

def assemble (c : Contents) (h : LmodHeader) : Bytes :=
  patchAll (List.replicate h.totalLen.toNat 0) (c.placements h)

structure ReadBack (c : Contents) (w : PtrWidth) (k : Container) : Prop where
  abiHash : k.hdr.abiHash = c.abiHash
  envelope : slice k.bytes HEADER_SIZE.toNat (HEADER_SIZE.toNat + c.envelope.length) =
    some c.envelope
  modinfo : k.modinfo w = some c.modinfo
  code : k.code w = some c.code
  rodata : k.rodata w = some c.rodata
  data : k.data w = some c.data
  bssLen : k.hdr.bssLen = c.bssLen
  relocCount : k.hdr.relocCount.toNat = c.relocs.length
  relocEntry : ∀ i (h : i < c.relocs.length), k.relocEntry w (UInt32.ofNat i) = some c.relocs[i]
  relocIter : k.relocIter w = c.relocs

/-- Where the padded sum fits the contents are written, accepted and read back, and where it
does not there is no header. -/
def RoundTrips (c : Contents) (mode : Overflow) (w : PtrWidth) : Prop :=
  (c.lengths.total < 2 ^ 32 → ∃ h k, computeLayout mode c.abiHash c.lens = some h ∧
    Container.parse w (c.assemble h) = .ok k ∧ c.ReadBack w k) ∧
  (2 ^ 32 ≤ c.lengths.total → computeLayout mode c.abiHash c.lens = none)

/-! ## The parts in order -/

theorem entryPlacements_ordered (es : List RelocEntry) (off : Nat) :
    (∀ p ∈ entryPlacements off es,
      off ≤ p.1 ∧ p.1 + p.2.length ≤ off + es.length * RELOC_ENTRY_SIZE) ∧
    (entryPlacements off es).Pairwise fun p q => p.1 + p.2.length ≤ q.1 := by
  induction es generalizing off with
  | nil => exact ⟨(fun p hp => nomatch hp), .nil⟩
  | cons e es ih =>
    obtain ⟨hin, hpair⟩ := ih (off + RELOC_ENTRY_SIZE)
    have hsize : RELOC_ENTRY_SIZE = 16 := rfl
    have hlen := length_entryBytes e
    constructor
    · intro p hp
      rw [List.length_cons, Nat.add_mul]
      rcases List.mem_cons.mp hp with rfl | hp
      · dsimp only
        omega
      · have h := hin p hp
        omega
    · refine List.pairwise_cons.mpr ⟨fun p hp => ?_, hpair⟩
      have h := hin p hp
      dsimp only
      omega

theorem entryPlacements_mem {es : List RelocEntry} {i : Nat} (h : i < es.length) (off : Nat) :
    (off + i * RELOC_ENTRY_SIZE, entryBytes es[i]) ∈ entryPlacements off es := by
  induction es generalizing off i with
  | nil => cases h
  | cons e es ih =>
    cases i with
    | zero =>
      rw [Nat.zero_mul]
      exact List.mem_cons_self
    | succ i =>
      rw [Nat.add_mul, Nat.one_mul, Nat.add_comm (i * _), ← Nat.add_assoc]
      exact List.mem_cons_of_mem _ (ih (by simpa using h) _)

variable {c : Contents} {w : PtrWidth} {h : LmodHeader}

theorem lengths_lens (hfits : c.lengths.total < 2 ^ 32) : c.lens.lengths = c.lengths := by
  obtain ⟨hmodinfo, hcode, hrodata, hdata, hreloc⟩ := c.lengths.ordered
  have hfirst : HEADER_SIZE.toNat + c.envelope.length = c.lengths.modinfoStart := rfl
  have hentries : c.lengths.relocStart + c.relocs.length * 16 ≤ c.lengths.total := hreloc
  have hparts : c.lengths.modinfo = c.modinfo.length ∧ c.lengths.code = c.code.length ∧
    c.lengths.rodata = c.rodata.length ∧ c.lengths.data = c.data.length ∧
    c.lengths.relocCount = c.relocs.length := ⟨rfl, rfl, rfl, rfl, rfl⟩
  have hnat : ∀ n : Nat, n < 2 ^ 32 → (UInt32.ofNat n).toNat = n := by
    intro n hn
    rw [UInt32.toNat_ofNat']
    exact Nat.mod_eq_of_lt hn
  simp only [SectionLens.lengths, lens, lengths]
  rw [hnat _ (by omega), hnat _ (by omega), hnat _ (by omega), hnat _ (by omega),
    hnat _ (by omega), hnat _ (by omega)]

structure Laid (c : Contents) (h : LmodHeader) : Prop where
  placed : h.Placed c.abiHash c.lens
  lengths : c.lens.lengths = c.lengths
  fits : c.lengths.total < 2 ^ 32

/-- A container with these contents: each part can be read where it was placed. -/
structure Holds (c : Contents) (h : LmodHeader) (bs : Bytes) : Prop where
  laid : c.Laid h
  length : bs.length = h.totalLen.toNat
  parts : ∀ p ∈ c.placements h, slice bs p.1 (p.1 + p.2.length) = some p.2

namespace Laid

theorem ordered (hl : c.Laid h) :
    HEADER_SIZE.toNat + c.envelope.length = h.modinfoOff.toNat ∧
    h.modinfoOff.toNat + c.modinfo.length ≤ h.codeOff.toNat ∧
    h.codeOff.toNat + c.code.length ≤ h.rodataOff.toNat ∧
    h.rodataOff.toNat + c.rodata.length ≤ h.dataOff.toNat ∧
    h.dataOff.toNat + c.data.length ≤ h.relocOff.toNat ∧
    h.relocOff.toNat + c.relocs.length * RELOC_ENTRY_SIZE ≤ h.totalLen.toNat := by
  have hp := hl.placed
  have ho := c.lengths.ordered
  rw [hp.modinfoOff, hp.codeOff, hp.rodataOff, hp.dataOff, hp.relocOff, hp.totalLen, hl.lengths]
  exact ⟨rfl, ho⟩

theorem pairwise (hl : c.Laid h) :
    (c.placements h).Pairwise fun p q => p.1 + p.2.length ≤ q.1 := by
  obtain ⟨hfirst, hmodinfo, hcode, hrodata, hdata, hreloc⟩ := hl.ordered
  have hheader := length_headerBytes h
  have hsize : HEADER_SIZE.toNat = 72 := rfl
  obtain ⟨hin, hpair⟩ := entryPlacements_ordered c.relocs h.relocOff.toNat
  refine List.pairwise_append.mpr ⟨?_, hpair, fun p hp q hq => ?_⟩
  · simp only [List.pairwise_cons, List.mem_cons, List.not_mem_nil, or_false, forall_eq_or_imp,
      forall_eq, List.Pairwise.nil, and_true, IsEmpty.forall_iff, implies_true]
    omega
  · have hq' := (hin q hq).1
    simp only [List.mem_cons, List.not_mem_nil, or_false] at hp
    rcases hp with rfl | rfl | rfl | rfl | rfl | rfl <;> dsimp only <;> omega

theorem inside (hl : c.Laid h) :
    ∀ p ∈ c.placements h, p.1 + p.2.length ≤ (List.replicate h.totalLen.toNat (0 : UInt8)).length := by
  obtain ⟨hfirst, hmodinfo, hcode, hrodata, hdata, hreloc⟩ := hl.ordered
  have hheader := length_headerBytes h
  have hsize : HEADER_SIZE.toNat = 72 := rfl
  obtain ⟨hin, -⟩ := entryPlacements_ordered c.relocs h.relocOff.toNat
  intro p hp
  rw [List.length_replicate]
  rcases List.mem_append.mp hp with hp | hp
  · simp only [List.mem_cons, List.not_mem_nil, or_false] at hp
    rcases hp with rfl | rfl | rfl | rfl | rfl | rfl <;> dsimp only <;> omega
  · have h := (hin p hp).2
    omega

theorem holds_assemble (hl : c.Laid h) : c.Holds h (c.assemble h) where
  laid := hl
  length := by
    have hlen := length_patchAll hl.inside
    rw [List.length_replicate] at hlen
    exact hlen
  parts := fun _ hp => slice_patchAll hl.inside hl.pairwise hp

end Laid

/-! ## Acceptance -/

theorem sortRanges_of_sorted {rs : List (UInt32 × UInt32)} (h : rs.Pairwise fun a b => a.1 ≤ b.1) :
    Container.sortRanges rs = rs := by
  have hfold : ∀ rs acc : List (UInt32 × UInt32),
      (∀ a ∈ acc, ∀ r ∈ rs, a.1 ≤ r.1) → rs.Pairwise (fun a b => a.1 ≤ b.1) →
      rs.foldl (fun sorted r => sorted.orderedInsert (fun a b => b.1 ≤ a.1) r) acc =
        rs.reverse ++ acc := by
    intro rs
    induction rs with
    | nil => exact fun acc _ _ => rfl
    | cons r rs ih =>
      intro acc hacc hsorted
      obtain ⟨hfirst, hrest⟩ := List.pairwise_cons.mp hsorted
      have hinsert : acc.orderedInsert (fun a b => b.1 ≤ a.1) r = r :: acc := by
        cases acc with
        | nil => rfl
        | cons a acc => exact List.orderedInsert_cons_of_le _ _ (hacc a (by simp) r (by simp))
      rw [List.foldl_cons, hinsert, ih (r :: acc) ?_ hrest, List.reverse_cons, List.append_assoc]
      · rfl
      · intro a ha b hb
        rcases List.mem_cons.mp ha with rfl | ha
        · exact hfirst b hb
        · exact hacc a ha b (by simp [hb])
  unfold Container.sortRanges
  rw [hfold rs [] (fun a ha => nomatch ha) h, List.append_nil, List.reverse_reverse]

theorem monotone_of_pairwise {rs : List (UInt32 × UInt32)} (h : rs.Pairwise fun a b => a.2 ≤ b.1) :
    Container.monotone rs = true := by
  induction rs with
  | nil => rfl
  | cons a rest ih =>
    cases rest with
    | nil => rfl
    | cons b rest =>
      obtain ⟨hfirst, hrest⟩ := List.pairwise_cons.mp h
      have hab := UInt32.not_lt.mpr (hfirst b (by simp))
      simp only [Container.monotone, hab, decide_false, Bool.false_and, Bool.not_false,
        Bool.true_and]
      exact ih hrest

theorem toNat_saturatingAdd {a b : UInt32} (h : a.toNat + b.toNat < 2 ^ 32) :
    (Container.saturatingAdd a b).toNat = a.toNat + b.toNat := by
  unfold Container.saturatingAdd
  rw [if_pos h, toNat_add_of_lt h]

namespace Laid

theorem lens_toNat (hl : c.Laid h) :
    h.modinfoLen.toNat = c.modinfo.length ∧ h.codeLen.toNat = c.code.length ∧
    h.rodataLen.toNat = c.rodata.length ∧ h.dataLen.toNat = c.data.length ∧
    h.relocCount.toNat = c.relocs.length := by
  have hp := hl.placed
  rw [hp.modinfoLen, hp.codeLen, hp.rodataLen, hp.dataLen, hp.relocCount]
  exact ⟨congrArg Lengths.modinfo hl.lengths, congrArg Lengths.code hl.lengths,
    congrArg Lengths.rodata hl.lengths, congrArg Lengths.data hl.lengths,
    congrArg Lengths.relocCount hl.lengths⟩

theorem ranges_pairwise (hl : c.Laid h) :
    (Container.ranges h (c.relocs.length * RELOC_ENTRY_SIZE)).Pairwise fun a b => a.2 ≤ b.1 := by
  obtain ⟨hfirst, hmodinfo, hcode, hrodata, hdata, hreloc⟩ := hl.ordered
  obtain ⟨hm, hc, hr, hd, hn⟩ := hl.lens_toNat
  have htotal := h.totalLen.toNat_lt
  have hm' := toNat_saturatingAdd (a := h.modinfoOff) (b := h.modinfoLen) (by omega)
  have hc' := toNat_saturatingAdd (a := h.codeOff) (b := h.codeLen) (by omega)
  have hr' := toNat_saturatingAdd (a := h.rodataOff) (b := h.rodataLen) (by omega)
  have hd' := toNat_saturatingAdd (a := h.dataOff) (b := h.dataLen) (by omega)
  unfold Container.ranges
  simp only [List.pairwise_cons, List.mem_cons, List.not_mem_nil, or_false, forall_eq_or_imp,
    forall_eq, List.Pairwise.nil, and_true, IsEmpty.forall_iff, implies_true,
    UInt32.le_iff_toNat_le, hm', hc', hr', hd']
  omega

theorem ranges_monotone (hl : c.Laid h) :
    Container.monotone (Container.sortRanges
      (Container.ranges h (c.relocs.length * RELOC_ENTRY_SIZE))) = true := by
  have hranges := hl.ranges_pairwise
  have hle : ∀ r ∈ Container.ranges h (c.relocs.length * RELOC_ENTRY_SIZE), r.1 ≤ r.2 := by
    intro r hr
    simp only [Container.ranges, List.mem_cons, List.not_mem_nil, or_false] at hr
    rcases hr with rfl | rfl | rfl | rfl | rfl | rfl
    · show (0 : UInt32) ≤ 72
      decide
    all_goals exact Container.le_saturatingAdd _ _
  rw [sortRanges_of_sorted (hranges.imp_of_mem fun ha _ hab => UInt32.le_trans (hle _ ha) hab)]
  exact monotone_of_pairwise hranges

theorem parse (hl : c.Laid h) {bs : Bytes} (hlen : bs.length = h.totalLen.toNat)
    (hheader : slice bs 0 72 = some (headerBytes h)) (w : PtrWidth) :
    Container.parse w bs = .ok ⟨bs, h⟩ := by
  obtain ⟨hfirst, hmodinfo, hcode, hrodata, hdata, hreloc⟩ := hl.ordered
  obtain ⟨hm, hc, hr, hd, hn⟩ := hl.lens_toNat
  have htotal := h.totalLen.toNat_lt
  have hsize := w.le_size
  have hsection : ∀ off len : UInt32, HEADER_SIZE.toNat ≤ off.toNat →
      off.toNat + len.toNat ≤ h.totalLen.toNat →
      Container.checkRange bs.length off len = .ok () := by
    intro off len hoff hstop
    refine Container.checkRange_eq_ok.mpr fun _ => ⟨by omega, by omega, ?_⟩
    exact UInt32.le_iff_toNat_le.mpr hoff
  refine Container.parse_eq_ok.mpr ⟨rfl, ?_⟩
  exact {
    header := by
      rw [eq_append_of_slice hheader]
      exact decodeHeader_headerBytes hl.placed.magic _
    magic := hl.placed.magic
    formatVer := hl.placed.formatVer
    total := hlen.symm
    headerFits := by omega
    modinfo := hsection h.modinfoOff h.modinfoLen (by omega) (by omega)
    code := hsection h.codeOff h.codeLen (by omega) (by omega)
    rodata := hsection h.rodataOff h.rodataLen (by omega) (by omega)
    dataSection := hsection h.dataOff h.dataLen (by omega) (by omega)
    relocBytes := by
      show h.relocCount.toNat * RELOC_ENTRY_SIZE < w.size
      rw [hn]
      omega
    reloc := by
      refine Container.checkTail_eq_ok.mpr fun _ => ?_
      show h.relocOff.toNat + h.relocCount.toNat * RELOC_ENTRY_SIZE < w.size ∧
        h.relocOff.toNat + h.relocCount.toNat * RELOC_ENTRY_SIZE ≤ _ ∧ HEADER_SIZE ≤ h.relocOff
      rw [hn, UInt32.le_iff_toNat_le]
      omega
    sig := by
      refine Container.checkTail_eq_ok.mpr fun hne => absurd ?_ hne
      show h.sigLen.toNat = 0
      rw [hl.placed.sigLen]
      rfl
    monotone := by
      show Container.monotone (Container.sortRanges
        (Container.ranges h (h.relocCount.toNat * RELOC_ENTRY_SIZE))) = true
      rw [hn]
      exact hl.ranges_monotone }

end Laid

/-! ## Reading back -/

theorem sectionBytes_of_slice {bs xs : Bytes} {off len : UInt32} (hlen : len.toNat = xs.length)
    (hfits : off.toNat + xs.length < 2 ^ 32)
    (hslice : slice bs off.toNat (off.toNat + xs.length) = some xs) :
    (⟨bs, h⟩ : Container).sectionBytes w off len = some xs := by
  unfold Container.sectionBytes
  by_cases hzero : len = 0
  · rw [hzero, UInt32.toNat_zero] at hlen
    rw [if_pos hzero, List.eq_nil_of_length_eq_zero hlen.symm]
  · have hsize := w.le_size
    have hwrap : Container.usize w (off.toNat + len.toNat) = off.toNat + xs.length := by
      rw [hlen]
      exact Nat.mod_eq_of_lt (by omega)
    rw [if_neg hzero, hwrap]
    exact hslice

namespace Holds

variable {bs : Bytes}

theorem header (hb : c.Holds h bs) : slice bs 0 72 = some (headerBytes h) := by
  have hslice := hb.parts (0, headerBytes h) (by simp [placements])
  rw [length_headerBytes] at hslice
  exact hslice

theorem parse (hb : c.Holds h bs) (w : PtrWidth) : Container.parse w bs = .ok ⟨bs, h⟩ :=
  hb.laid.parse hb.length hb.header w

theorem sectionBytes (hb : c.Holds h bs) {off len : UInt32} {xs : Bytes}
    (hmem : (off.toNat, xs) ∈ c.placements h) (hlen : len.toNat = xs.length) :
    (⟨bs, h⟩ : Container).sectionBytes w off len = some xs := by
  have hin := hb.laid.inside _ hmem
  have htotal := h.totalLen.toNat_lt
  rw [List.length_replicate] at hin
  dsimp only at hin
  exact sectionBytes_of_slice hlen (by omega) (hb.parts _ hmem)

theorem decodeEntry_of_slice {bs : Bytes} {off : Nat} {e : RelocEntry}
    (hfits : off + RELOC_ENTRY_SIZE ≤ bs.length) (h : slice bs off (off + 13) = some (entryBytes e)) :
    decodeEntry bs off = some e := by
  have hsite : u32At bs off = some e.siteOff := by
    rw [← Nat.add_zero off, u32At_within h (by decide)]
    exact u32At_put _ _
  have hhash : u64At bs (off + 4) = some e.symHash := by
    rw [u64At_within h (by decide), entryBytes, u64At_skip (by simp), length_put32]
    exact u64At_put _ _
  have hkind : bs[off + 12]? = some e.kind := by
    rw [getElem?_slice h (by decide), entryBytes, List.getElem?_append_right (by simp),
      List.getElem?_append_right (by simp), length_put32, length_put64]
    rfl
  unfold decodeEntry
  rw [if_neg (by omega), hsite, hhash, hkind]
  rfl

theorem relocEntry (hb : c.Holds h bs) {i : Nat} (hi : i < c.relocs.length) :
    (⟨bs, h⟩ : Container).relocEntry w (UInt32.ofNat i) = some c.relocs[i] := by
  obtain ⟨-, -, -, -, -, hreloc⟩ := hb.laid.ordered
  obtain ⟨-, -, -, -, hn⟩ := hb.laid.lens_toNat
  have hcount := h.relocCount.toNat_lt
  have htotal := h.totalLen.toNat_lt
  have hsize := w.le_size
  have hmem : (h.relocOff.toNat + i * RELOC_ENTRY_SIZE, entryBytes c.relocs[i]) ∈
      c.placements h := List.mem_append_right _ (entryPlacements_mem hi _)
  have hslice := hb.parts _ hmem
  rw [length_entryBytes] at hslice
  have hlast : (i + 1) * RELOC_ENTRY_SIZE ≤ c.relocs.length * RELOC_ENTRY_SIZE :=
    Nat.mul_le_mul_right _ hi
  rw [Nat.add_mul, Nat.one_mul] at hlast
  have hindex : (UInt32.ofNat i).toNat = i := by
    rw [UInt32.toNat_ofNat']
    exact Nat.mod_eq_of_lt (by omega)
  have hbelow : ¬ UInt32.ofNat i ≥ h.relocCount := by
    rw [ge_iff_le, UInt32.le_iff_toNat_le, hindex]
    omega
  have hoff : Container.usize w (h.relocOff.toNat + i * RELOC_ENTRY_SIZE) =
      h.relocOff.toNat + i * RELOC_ENTRY_SIZE := Nat.mod_eq_of_lt (by omega)
  unfold Container.relocEntry
  rw [if_neg hbelow, hindex, hoff]
  exact decodeEntry_of_slice (by rw [hb.length]; omega) hslice

theorem relocFrom (hb : c.Holds h bs) (n i : Nat) (hi : i ≤ c.relocs.length)
    (hn : c.relocs.length < n + i) :
    (⟨bs, h⟩ : Container).relocFrom w n (UInt32.ofNat i) = c.relocs.drop i := by
  obtain ⟨-, -, -, -, hcount⟩ := hb.laid.lens_toNat
  have hlt := h.relocCount.toNat_lt
  induction n generalizing i with
  | zero => omega
  | succ n ih =>
    unfold Container.relocFrom
    by_cases hend : i < c.relocs.length
    · have hnext : UInt32.ofNat i + 1 = UInt32.ofNat (i + 1) := by simp [UInt32.ofNat_add]
      rw [hb.relocEntry hend, hnext, List.drop_eq_getElem_cons hend]
      exact congrArg _ (ih (i + 1) hend (by omega))
    · have hnone : (⟨bs, h⟩ : Container).relocEntry w (UInt32.ofNat i) = none := by
        unfold Container.relocEntry
        apply if_pos
        rw [ge_iff_le, UInt32.le_iff_toNat_le, UInt32.toNat_ofNat', Nat.mod_eq_of_lt (by omega)]
        exact Nat.le_trans (Nat.le_of_eq hcount) (Nat.le_of_not_lt hend)
      rw [hnone, List.drop_of_length_le (Nat.le_of_not_lt hend)]

theorem readBack (hb : c.Holds h bs) (w : PtrWidth) : c.ReadBack w ⟨bs, h⟩ := by
  have hl := hb.laid
  obtain ⟨hm, hc, hr, hd, hn⟩ := hl.lens_toNat
  exact {
    abiHash := hl.placed.abiHash
    envelope := hb.parts (HEADER_SIZE.toNat, c.envelope) (by simp [placements])
    modinfo := hb.sectionBytes (by simp [placements]) hm
    code := hb.sectionBytes (by simp [placements]) hc
    rodata := hb.sectionBytes (by simp [placements]) hr
    data := hb.sectionBytes (by simp [placements]) hd
    bssLen := hl.placed.bssLen
    relocCount := hn
    relocEntry := fun i hi => hb.relocEntry hi
    relocIter := by
      unfold Container.relocIter
      exact hb.relocFrom _ 0 (Nat.zero_le _) (Nat.lt_succ_of_le (Nat.le_of_eq hn.symm)) }

end Holds

/-- Writing and parsing is the identity exactly where the padded sum fits, or where a build
with overflow checks sees that it does not. -/
theorem roundTrips_iff (c : Contents) (mode : Overflow) (w : PtrWidth) :
    c.RoundTrips mode w ↔
      c.lengths.total < 2 ^ 32 ∨ (mode = .stops ∧ 2 ^ 32 ≤ c.lens.lengths.total) := by
  constructor
  · intro hround
    by_cases hfits : c.lengths.total < 2 ^ 32
    · exact .inl hfits
    · have hnone := hround.2 (Nat.le_of_not_lt hfits)
      cases mode with
      | wraps =>
        obtain ⟨hdr, hsome⟩ := computeLayout_wraps c.abiHash c.lens
        rw [hnone] at hsome
        cases hsome
      | stops =>
        refine .inr ⟨rfl, ?_⟩
        by_contra hlt
        obtain ⟨hdr, hsome, -⟩ := computeLayout_of_lt .stops c.abiHash (Nat.lt_of_not_le hlt)
        rw [hnone] at hsome
        cases hsome
  · intro hcond
    constructor
    · intro hfits
      have hlengths := lengths_lens hfits
      obtain ⟨hdr, hsome, hplaced⟩ := computeLayout_of_lt mode c.abiHash (hlengths ▸ hfits)
      have hl : c.Laid hdr := ⟨hplaced, hlengths, hfits⟩
      exact ⟨hdr, _, hsome, hl.holds_assemble.parse w, hl.holds_assemble.readBack w⟩
    · intro hover
      rcases hcond with hfits | ⟨rfl, hcut⟩
      · omega
      · cases hlayout : computeLayout .stops c.abiHash c.lens with
        | none => rfl
        | some hdr =>
          have hlt := total_lt_of_stops hlayout
          omega

def tooLong : Contents where
  abiHash := 0
  envelope := []
  modinfo := []
  code := List.replicate (2 ^ 32 - 72) 0
  rodata := []
  data := []
  bssLen := 0
  relocs := []

/-- The sum wraps to zero, and there is a header all the same. -/
theorem tooLong_has_header :
    2 ^ 32 ≤ tooLong.lengths.total ∧
      (∃ h, computeLayout .wraps tooLong.abiHash tooLong.lens = some h ∧ h.totalLen = 0) ∧
      ¬ tooLong.RoundTrips .wraps .w64 := by
  have hlen : tooLong.code.length = 2 ^ 32 - 72 := List.length_replicate
  have hover : 2 ^ 32 ≤ tooLong.lengths.total := by
    have hcode : tooLong.lengths.codeStart = 72 := rfl
    have hend := tooLong.lengths.ordered
    have hpart : tooLong.lengths.code = 2 ^ 32 - 72 := hlen
    omega
  have hlens : tooLong.lens = ⟨0, 0, UInt32.ofNat (2 ^ 32 - 72), 0, 0, 0, 0⟩ := by
    unfold lens
    rw [hlen]
    rfl
  refine ⟨hover, ⟨_, rfl, ?_⟩, fun hround => ?_⟩
  · rw [hlens]
    rfl
  · have hnone := hround.2 hover
    obtain ⟨hdr, hsome⟩ := computeLayout_wraps tooLong.abiHash tooLong.lens
    rw [hnone] at hsome
    cases hsome

end Contents

end Tyu

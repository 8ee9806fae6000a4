import Tyu.Seal.Envelope

/-!
# What the encryptor writes

Where the lengths fit, every part of the encrypted container is where its layout says,
but for the sealed constants: they follow the sealed code without the padding that the
layout has there.
-/

namespace Tyu.Seal

open Lib Lib.Wire Container

/-! ## Lengths -/

def sealedLengths (hdr : LmodHeader) (encHeader : Nat) : Lengths where
  encHeader := encHeader
  modinfo := hdr.modinfoLen.toNat
  code := hdr.codeLen.toNat
  rodata := hdr.rodataLen.toNat
  data := hdr.dataLen.toNat
  relocCount := hdr.relocCount.toNat

structure Sections (c : Container) (w : PtrWidth) where
  modinfo : Bytes
  code : Bytes
  rodata : Bytes
  data : Bytes
  modinfo_eq : c.modinfo w = some modinfo
  code_eq : c.code w = some code
  rodata_eq : c.rodata w = some rodata
  data_eq : c.data w = some data

variable {mode : Overflow} {c : Container} {layout : LmodHeader} {eh : EncHeader}

theorem length_sectionBytes {off len : UInt32} {xs : Bytes}
    (h : c.sectionBytes host off len = some xs) : xs.length = len.toNat := by
  unfold sectionBytes at h
  by_cases hzero : len = 0
  · rw [if_pos hzero] at h
    rw [← Option.some.inj h, hzero]
    rfl
  · have hoff := off.toNat_lt
    have hlen := len.toNat_lt
    have hwrap : usize host (off.toNat + len.toNat) = off.toNat + len.toNat :=
      Nat.mod_eq_of_lt (show _ < 2 ^ 64 by omega)
    rw [if_neg hzero, hwrap] at h
    rw [length_slice h, Nat.add_sub_cancel_left]

namespace Sections

/-- The contents of the encrypted container, as far as the layout depends on them. -/
def contents (s : Sections c host) (eh : EncHeader) : Contents where
  abiHash := c.hdr.abiHash
  envelope := encHeaderBytes eh
  modinfo := s.modinfo
  code := s.code
  rodata := s.rodata
  data := s.data
  bssLen := c.hdr.bssLen
  relocs := List.replicate c.hdr.relocCount.toNat { siteOff := 0, symHash := 0, kind := 0 }

theorem lens (s : Sections c host) :
    s.modinfo.length = c.hdr.modinfoLen.toNat ∧ s.code.length = c.hdr.codeLen.toNat ∧
      s.rodata.length = c.hdr.rodataLen.toNat ∧ s.data.length = c.hdr.dataLen.toNat :=
  ⟨length_sectionBytes s.modinfo_eq, length_sectionBytes s.code_eq,
    length_sectionBytes s.rodata_eq, length_sectionBytes s.data_eq⟩

theorem lens_contents (s : Sections c host) (heh : eh.Formed) :
    (s.contents eh).lens = sealedLens c.hdr eh.wireLen := by
  obtain ⟨hm, hc, hr, hd⟩ := s.lens
  unfold Contents.lens sealedLens contents
  simp only [hm, hc, hr, hd, length_encHeaderBytes heh, List.length_replicate,
    UInt32.ofNat_toNat]

theorem lengths_contents (s : Sections c host) (heh : eh.Formed) :
    (s.contents eh).lengths = sealedLengths c.hdr eh.wireLen := by
  obtain ⟨hm, hc, hr, hd⟩ := s.lens
  unfold Contents.lengths sealedLengths contents
  simp only [hm, hc, hr, hd, length_encHeaderBytes heh, List.length_replicate]

theorem exists_layout (s : Sections c host) (heh : eh.Formed) (mode : Overflow)
    (hfits : (sealedLengths c.hdr eh.wireLen).total < 2 ^ 32) :
    ∃ layout, computeLayout mode c.hdr.abiHash (sealedLens c.hdr eh.wireLen) = some layout ∧
      (s.contents eh).Laid layout := by
  rw [← s.lengths_contents heh] at hfits
  have hlengths := Contents.lengths_lens hfits
  obtain ⟨layout, hsome, hplaced⟩ := computeLayout_of_lt mode c.hdr.abiHash
    (s := (s.contents eh).lens) (by rw [hlengths]; exact hfits)
  rw [s.lens_contents heh] at hsome
  exact ⟨layout, hsome, hplaced, hlengths, hfits⟩

theorem laid_sealedHeader {s : Sections c host} (hl : (s.contents eh).Laid layout) :
    (s.contents eh).Laid (sealedHeader c.hdr layout) := by
  have hp := hl.placed
  exact ⟨⟨hp.magic, rfl, hp.abiHash, hp.modinfoOff, hp.modinfoLen, hp.codeOff, hp.codeLen,
    hp.rodataOff, hp.rodataLen, hp.dataOff, hp.dataLen, hp.bssLen, hp.relocOff, hp.relocCount,
    hp.sigLen, hp.totalLen⟩, hl.lengths, hl.fits⟩

end Sections

structure Ordered (hdr layout : LmodHeader) (eh : EncHeader) : Prop where
  envelope : 72 + eh.wireLen = layout.modinfoOff.toNat
  modinfo : layout.modinfoOff.toNat + hdr.modinfoLen.toNat ≤ layout.codeOff.toNat
  code : layout.codeOff.toNat + hdr.codeLen.toNat ≤ layout.rodataOff.toNat
  rodata : layout.rodataOff.toNat + hdr.rodataLen.toNat ≤ layout.dataOff.toNat
  data : layout.dataOff.toNat + hdr.dataLen.toNat ≤ layout.relocOff.toNat
  relocs : layout.relocOff.toNat + hdr.relocCount.toNat * RELOC_ENTRY_SIZE ≤ layout.totalLen.toNat

theorem ordered_of_laid {s : Sections c host} (heh : eh.Formed)
    (hl : (s.contents eh).Laid layout) : Ordered c.hdr layout eh := by
  obtain ⟨hm, hc, hr, hd⟩ := s.lens
  obtain ⟨h1, h2, h3, h4, h5, h6⟩ := hl.ordered
  have he : (s.contents eh).envelope.length = eh.wireLen := length_encHeaderBytes heh
  have hn : (s.contents eh).relocs.length = c.hdr.relocCount.toNat := List.length_replicate
  rw [he] at h1
  rw [hn] at h6
  exact ⟨h1, hm ▸ h2, hc ▸ h3, hr ▸ h4, hd ▸ h5, h6⟩

theorem copyInto_of_le {off : Nat} {bytes out : Bytes} (h : off + bytes.length ≤ out.length) :
    copyInto off bytes out = .ok (patch out off bytes) := by
  unfold copyInto require
  rw [if_pos h]
  rfl

theorem range_of_slice {bs xs : Bytes} {start stop : Nat} (h : slice bs start stop = some xs) :
    range bs start stop = .ok xs := by
  unfold range
  rw [h]
  rfl

theorem shiftSites_within (delta : UInt32) {off n : Nat} {out : Bytes}
    (h : off + n * RELOC_ENTRY_SIZE ≤ out.length) :
    ∃ out', shiftSites delta off n out = .ok out' ∧ Within off (n * RELOC_ENTRY_SIZE) out out' := by
  induction n generalizing off out with
  | zero => exact ⟨out, rfl, .refl _ _ _⟩
  | succ n ih =>
    have hsize : (n + 1) * RELOC_ENTRY_SIZE = n * RELOC_ENTRY_SIZE + 16 := Nat.succ_mul _ _
    have hentry : RELOC_ENTRY_SIZE = 16 := rfl
    obtain ⟨site, hsite⟩ := Option.isSome_iff_exists.mp
      (isSome_u32At.mpr (show off + 4 ≤ out.length by omega))
    have hlen := length_put32 (site + delta)
    have hpatch := within_patch
      (show off + (put32 (site + delta)).length ≤ out.length by omega)
    obtain ⟨out', hout', hrest⟩ := ih (show off + RELOC_ENTRY_SIZE +
      n * RELOC_ENTRY_SIZE ≤ (patch out off (put32 (site + delta))).length by
        rw [hpatch.length]
        omega)
    refine ⟨out', ?_, ?_⟩
    · unfold shiftSites
      rw [hsite]
      show (copyInto off (put32 (site + delta)) out >>= _) = _
      rw [copyInto_of_le (by omega)]
      exact hout'
    · exact (hpatch.mono (Nat.le_refl _) (by omega)).trans (hrest.mono (by omega) (by omega))

theorem copyRelocs_within {out : Bytes}
    (h : layout.relocOff.toNat + c.hdr.relocCount.toNat * RELOC_ENTRY_SIZE ≤ out.length) :
    ∃ out', copyRelocs c layout out = .ok out' ∧
      Within layout.relocOff.toNat (c.hdr.relocCount.toNat * RELOC_ENTRY_SIZE) out out' := by
  unfold copyRelocs
  dsimp only
  by_cases hcopy : c.hdr.relocCount.toNat * RELOC_ENTRY_SIZE > 0 ∧
      c.hdr.relocOff.toNat + c.hdr.relocCount.toNat * RELOC_ENTRY_SIZE ≤ c.bytes.length
  · rw [if_pos hcopy]
    obtain ⟨raw, hraw⟩ := Option.isSome_iff_exists.mp (isSome_slice.mpr
      ⟨show c.hdr.relocOff.toNat ≤ c.hdr.relocOff.toNat + c.hdr.relocCount.toNat * RELOC_ENTRY_SIZE
        by omega, hcopy.2⟩)
    have hlen := length_slice hraw
    rw [Nat.add_sub_cancel_left] at hlen
    have hpatch := within_patch (show layout.relocOff.toNat + raw.length ≤ out.length by omega)
    rw [hlen] at hpatch
    rw [range_of_slice hraw]
    show ∃ out', (copyInto layout.relocOff.toNat raw out >>= _) = .ok out' ∧ _
    rw [copyInto_of_le (by omega)]
    show ∃ out', (if layout.codeOff ≠ c.hdr.codeOff then _ else _) = Except.ok out' ∧ _
    by_cases hmoved : layout.codeOff ≠ c.hdr.codeOff
    · rw [if_pos hmoved]
      obtain ⟨out', hout', hshift⟩ := shiftSites_within (layout.codeOff - c.hdr.codeOff)
        (show layout.relocOff.toNat + c.hdr.relocCount.toNat * RELOC_ENTRY_SIZE ≤
          (patch out layout.relocOff.toNat raw).length by
            rw [hpatch.length]
            exact h)
      exact ⟨out', hout', hpatch.trans hshift⟩
    · rw [if_neg hmoved]
      exact ⟨_, rfl, hpatch⟩
  · rw [if_neg hcopy]
    exact ⟨out, rfl, .refl _ _ _⟩

/-! ## The frame -/

structure Framed (hdr layout : LmodHeader) (eh : EncHeader) (mi relocs out : Bytes) : Prop where
  length : out.length = layout.totalLen.toNat
  header : slice out 0 72 = some (headerBytes (sealedHeader hdr layout))
  envelope : slice out 72 (72 + eh.wireLen) = some (encHeaderBytes eh)
  modinfo : slice out layout.modinfoOff.toNat (layout.modinfoOff.toNat + hdr.modinfoLen.toNat) =
    some mi
  relocs : slice out layout.relocOff.toNat
    (layout.relocOff.toNat + hdr.relocCount.toNat * RELOC_ENTRY_SIZE) = some relocs
  zeros : ∀ {a n}, layout.codeOff.toNat ≤ a → a + n ≤ layout.relocOff.toNat →
    slice out a (a + n) = some (List.replicate n 0)

theorem slice_replicate {m a n : Nat} (h : a + n ≤ m) :
    slice (List.replicate m (0 : UInt8)) a (a + n) = some (List.replicate n 0) := by
  unfold slice
  rw [if_pos ⟨by omega, by rw [List.length_replicate]; exact h⟩, List.take_replicate,
    List.drop_replicate]
  congr 2
  omega

/-- The associated data: the header, the envelope without its tag, the module information and the
relocation table. -/
def associated (hdr layout : LmodHeader) (eh : EncHeader) (mi relocs : Bytes) : Bytes :=
  headerBytes (sealedHeader hdr layout) ++
    (encHeaderBytes { eh with tag := List.replicate TAG_LEN 0 } ++ (mi ++ relocs))

theorem frame_eq (s : Sections c host) (heh : eh.Formed) (ho : Ordered c.hdr layout eh) :
    ∃ out relocs, frame c layout (encHeaderBytes eh) =
        .ok (out, associated c.hdr layout eh s.modinfo relocs) ∧
      relocs.length = c.hdr.relocCount.toNat * RELOC_ENTRY_SIZE ∧
      Framed c.hdr layout eh s.modinfo relocs out := by
  obtain ⟨hm, hc, hr, hd⟩ := s.lens
  have h1 := ho.envelope
  have h2 := ho.modinfo
  have h3 := ho.code
  have h4 := ho.rodata
  have h5 := ho.data
  have h6 := ho.relocs
  have hsize : HEADER_SIZE.toNat = 72 := rfl
  have hheader := length_headerBytes (sealedHeader c.hdr layout)
  have henvelope := length_encHeaderBytes heh
  -- the buffer after each step
  let out0 : Bytes := List.replicate layout.totalLen.toNat 0
  have hlen0 : out0.length = layout.totalLen.toNat := List.length_replicate
  let out1 := patch out0 0 (headerBytes (sealedHeader c.hdr layout))
  have hin1 : 0 + (headerBytes (sealedHeader c.hdr layout)).length ≤ out0.length := by omega
  have hw1 : Within 0 72 out0 out1 := by
    rw [← hheader]
    exact within_patch hin1
  have hlen1 := hw1.length
  let out2 := patch out1 72 (encHeaderBytes eh)
  have hin2 : 72 + (encHeaderBytes eh).length ≤ out1.length := by omega
  have hw2 : Within 72 eh.wireLen out1 out2 := by
    rw [← henvelope]
    exact within_patch hin2
  have hlen2 := hw2.length
  let out3 := patch out2 layout.modinfoOff.toNat s.modinfo
  have hin3 : layout.modinfoOff.toNat + s.modinfo.length ≤ out2.length := by omega
  have hw3 : Within layout.modinfoOff.toNat c.hdr.modinfoLen.toNat out2 out3 := by
    rw [← hm]
    exact within_patch hin3
  have hlen3 := hw3.length
  obtain ⟨out, hcopy, hw4⟩ := copyRelocs_within
    (show layout.relocOff.toNat + c.hdr.relocCount.toNat * RELOC_ENTRY_SIZE ≤ out3.length by omega)
  have hlen4 := hw4.length
  obtain ⟨relocs, hrelocs⟩ := Option.isSome_iff_exists.mp (isSome_slice.mpr
    ⟨show layout.relocOff.toNat ≤
        layout.relocOff.toNat + c.hdr.relocCount.toNat * RELOC_ENTRY_SIZE by omega,
      show layout.relocOff.toNat + c.hdr.relocCount.toNat * RELOC_ENTRY_SIZE ≤ out.length by omega⟩)
  have hrelocsLen := length_slice hrelocs
  rw [Nat.add_sub_cancel_left] at hrelocsLen
  have hfirst : slice out1 0 72 = some (headerBytes (sealedHeader c.hdr layout)) := by
    have h := slice_patch hin1
    rwa [hheader] at h
  have hhead : slice out 0 72 = some (headerBytes (sealedHeader c.hdr layout)) := by
    rw [← hfirst]
    have h4 := hw4.apart (a := 0) (m := 72) (Or.inl (by omega))
    have h3 := hw3.apart (a := 0) (m := 72) (Or.inl (by omega))
    exact h4.trans (h3.trans (hw2.apart (a := 0) (m := 72) (Or.inl (Nat.le_refl _))))
  have hframed : Framed c.hdr layout eh s.modinfo relocs out := {
    length := by omega
    header := hhead
    envelope := by
      have h : slice out2 72 (72 + eh.wireLen) = some (encHeaderBytes eh) := by
        rw [← henvelope]
        exact slice_patch hin2
      rw [← h]
      exact (hw4.apart (Or.inl (by omega))).trans (hw3.apart (Or.inl (by omega)))
    modinfo := by
      have h : slice out3 layout.modinfoOff.toNat
          (layout.modinfoOff.toNat + c.hdr.modinfoLen.toNat) = some s.modinfo := by
        rw [← hm]
        exact slice_patch hin3
      rw [← h]
      exact hw4.apart (Or.inl (by omega))
    relocs := hrelocs
    zeros := by
      intro a n hstart hstop
      rw [← slice_replicate (show a + n ≤ layout.totalLen.toNat by omega)]
      exact (hw4.apart (Or.inl hstop)).trans ((hw3.apart (Or.inr (by omega))).trans
        ((hw2.apart (Or.inr (by omega))).trans (hw1.apart (Or.inr (by omega))))) }
  refine ⟨out, relocs, ?_, hrelocsLen, hframed⟩
  have hassociated : Except.ok (ε := EncStop) (out,
      headerBytes (sealedHeader c.hdr layout) ++
        (patch (encHeaderBytes eh) (4 + NONCE_LEN) (List.replicate TAG_LEN 0) ++
          (s.modinfo ++ relocs))) = .ok (out, associated c.hdr layout eh s.modinfo relocs) := by
    rw [patch_tag heh List.length_replicate]
    rfl
  unfold frame
  simp only [bind_eq_ok]
  refine ⟨out1, copyInto_of_le hin1, out2, copyInto_of_le hin2, s.modinfo, by rw [s.modinfo_eq]; rfl,
    out3, copyInto_of_le hin3, out, hcopy, _, range_of_slice hhead, ?_⟩
  by_cases hpos : c.hdr.relocCount.toNat * RELOC_ENTRY_SIZE > 0
  · rw [if_pos hpos, range_of_slice hrelocs]
    exact hassociated
  · rw [List.eq_nil_of_length_eq_zero (show relocs.length = 0 by omega)] at hassociated ⊢
    rw [if_neg hpos]
    exact hassociated

/-! ## The sealed text -/

structure Sealed (hdr layout : LmodHeader) (eh : EncHeader) (mi relocs text tag out : Bytes) :
    Prop where
  length : out.length = layout.totalLen.toNat
  header : slice out 0 72 = some (headerBytes (sealedHeader hdr layout))
  envelope : slice out 72 (72 + eh.wireLen) = some (encHeaderBytes { eh with tag })
  modinfo : slice out layout.modinfoOff.toNat (layout.modinfoOff.toNat + hdr.modinfoLen.toNat) =
    some mi
  relocs : slice out layout.relocOff.toNat
    (layout.relocOff.toNat + hdr.relocCount.toNat * RELOC_ENTRY_SIZE) = some relocs
  code : slice out layout.codeOff.toNat (layout.codeOff.toNat + hdr.codeLen.toNat) =
    some (text.take hdr.codeLen.toNat)
  rodata : slice out (layout.codeOff.toNat + hdr.codeLen.toNat)
    (layout.codeOff.toNat + hdr.codeLen.toNat + hdr.rodataLen.toNat) =
      some ((text.drop hdr.codeLen.toNat).take hdr.rodataLen.toNat)
  gap : ∀ {a n}, layout.codeOff.toNat + hdr.codeLen.toNat + hdr.rodataLen.toNat ≤ a →
    a + n ≤ layout.dataOff.toNat → slice out a (a + n) = some (List.replicate n 0)
  data : slice out layout.dataOff.toNat (layout.dataOff.toNat + hdr.dataLen.toNat) =
    some ((text.drop (hdr.codeLen.toNat + hdr.rodataLen.toNat)).take hdr.dataLen.toNat)

theorem slice_text {text : Bytes} (tag : Bytes) {a n : Nat} (h : a + n ≤ text.length) :
    slice (text ++ tag) a (a + n) = some ((text.drop a).take n) := by
  unfold slice
  rw [if_pos ⟨by omega, by rw [List.length_append]; omega⟩,
    List.take_append_of_le_length h, List.drop_take, Nat.add_sub_cancel_left]

theorem writeRodata_eq {hdr : LmodHeader} {text out : Bytes} (tag : Bytes)
    (htext : hdr.codeLen.toNat + hdr.rodataLen.toNat ≤ text.length)
    (h : layout.codeOff.toNat + hdr.codeLen.toNat + hdr.rodataLen.toNat ≤ out.length) :
    ∃ out', writeRodata hdr layout (text ++ tag) out = .ok out' ∧
      Within (layout.codeOff.toNat + hdr.codeLen.toNat) hdr.rodataLen.toNat out out' ∧
      slice out' (layout.codeOff.toNat + hdr.codeLen.toNat)
        (layout.codeOff.toNat + hdr.codeLen.toNat + hdr.rodataLen.toNat) =
          some ((text.drop hdr.codeLen.toNat).take hdr.rodataLen.toNat) := by
  have hlen : ((text.drop hdr.codeLen.toNat).take hdr.rodataLen.toNat).length =
      hdr.rodataLen.toNat := by
    rw [List.length_take, List.length_drop]
    omega
  unfold writeRodata
  by_cases hpos : hdr.rodataLen > 0
  · rw [if_pos hpos, range_of_slice (slice_text tag htext)]
    have hin : layout.codeOff.toNat + hdr.codeLen.toNat +
        ((text.drop hdr.codeLen.toNat).take hdr.rodataLen.toNat).length ≤ out.length := by omega
    have hw := within_patch hin
    have hs := slice_patch hin
    rw [hlen] at hw hs
    exact ⟨_, copyInto_of_le hin, hw, hs⟩
  · have hzero : hdr.rodataLen.toNat = 0 := by
      rw [gt_iff_lt, UInt32.lt_iff_toNat_lt] at hpos
      exact Nat.eq_zero_of_not_pos hpos
    rw [if_neg hpos]
    refine ⟨out, rfl, .refl _ _ _, ?_⟩
    rw [hzero, List.take_zero]
    unfold slice
    rw [if_pos ⟨by omega, by omega⟩, Nat.add_zero, List.drop_take, Nat.sub_self, List.take_zero]

theorem writeData_eq (mode : Overflow) {hdr : LmodHeader} {text out : Bytes} (tag : Bytes)
    (hsum : hdr.codeLen.toNat + hdr.rodataLen.toNat < 2 ^ 32)
    (htext : hdr.codeLen.toNat + hdr.rodataLen.toNat + hdr.dataLen.toNat ≤ text.length)
    (h : layout.dataOff.toNat + hdr.dataLen.toNat ≤ out.length) :
    ∃ out', writeData mode hdr layout (text ++ tag) out = .ok out' ∧
      Within layout.dataOff.toNat hdr.dataLen.toNat out out' ∧
      slice out' layout.dataOff.toNat (layout.dataOff.toNat + hdr.dataLen.toNat) =
        some ((text.drop (hdr.codeLen.toNat + hdr.rodataLen.toNat)).take hdr.dataLen.toNat) := by
  have hlen : ((text.drop (hdr.codeLen.toNat + hdr.rodataLen.toNat)).take
      hdr.dataLen.toNat).length = hdr.dataLen.toNat := by
    rw [List.length_take, List.length_drop]
    omega
  unfold writeData
  by_cases hpos : hdr.dataLen > 0
  · rw [if_pos hpos, addU32_of_lt hsum]
    show ∃ out', (range (text ++ tag) (hdr.codeLen + hdr.rodataLen).toNat
      ((hdr.codeLen + hdr.rodataLen).toNat + hdr.dataLen.toNat) >>= _) = .ok out' ∧ _
    rw [toNat_add_of_lt hsum, range_of_slice (slice_text tag htext)]
    have hin : layout.dataOff.toNat + ((text.drop (hdr.codeLen.toNat + hdr.rodataLen.toNat)).take
        hdr.dataLen.toNat).length ≤ out.length := by omega
    have hw := within_patch hin
    have hs := slice_patch hin
    rw [hlen] at hw hs
    exact ⟨_, copyInto_of_le hin, hw, hs⟩
  · have hzero : hdr.dataLen.toNat = 0 := by
      rw [gt_iff_lt, UInt32.lt_iff_toNat_lt] at hpos
      exact Nat.eq_zero_of_not_pos hpos
    rw [if_neg hpos]
    refine ⟨out, rfl, .refl _ _ _, ?_⟩
    rw [hzero, List.take_zero]
    unfold slice
    rw [if_pos ⟨by omega, by omega⟩, Nat.add_zero, List.drop_take, Nat.sub_self, List.take_zero]

theorem writeSealed_eq (mode : Overflow) {hdr : LmodHeader} {mi relocs text tag out0 : Bytes} (heh : eh.Formed)
    (ho : Ordered hdr layout eh) (hf : Framed hdr layout eh mi relocs out0)
    (htext : text.length = hdr.codeLen.toNat + hdr.rodataLen.toNat + hdr.dataLen.toNat)
    (htag : tag.length = TAG_LEN) :
    ∃ out, writeSealed mode hdr layout (text ++ tag) out0 = .ok out ∧
      Sealed hdr layout eh mi relocs text tag out := by
  have h1 := ho.envelope
  have h2 := ho.modinfo
  have h3 := ho.code
  have h4 := ho.rodata
  have h5 := ho.data
  have h6 := ho.relocs
  have hlen0 := hf.length
  have htotal := layout.totalLen.toNat_lt
  have hwire : 36 ≤ eh.wireLen := Nat.le_add_right _ _
  have htag16 : tag.length = 16 := htag
  -- the code
  have hcodeLen : (text.take hdr.codeLen.toNat).length = hdr.codeLen.toNat := by
    rw [List.length_take]
    omega
  have hcodeSlice : slice (text ++ tag) 0 hdr.codeLen.toNat = some (text.take hdr.codeLen.toNat) := by
    have h := slice_text tag (show 0 + hdr.codeLen.toNat ≤ text.length by omega)
    rwa [Nat.zero_add, List.drop_zero] at h
  let out1 := patch out0 layout.codeOff.toNat (text.take hdr.codeLen.toNat)
  have hin1 : layout.codeOff.toNat + (text.take hdr.codeLen.toNat).length ≤ out0.length := by omega
  have hw1 : Within layout.codeOff.toNat hdr.codeLen.toNat out0 out1 := by
    have h := within_patch hin1
    rwa [hcodeLen] at h
  have hlen1 := hw1.length
  have hcode : slice out1 layout.codeOff.toNat (layout.codeOff.toNat + hdr.codeLen.toNat) =
      some (text.take hdr.codeLen.toNat) := by
    have h := slice_patch hin1
    rwa [hcodeLen] at h
  -- the constants and the data
  obtain ⟨out2, hro, hw2, hrodata⟩ := writeRodata_eq tag
    (show hdr.codeLen.toNat + hdr.rodataLen.toNat ≤ text.length by omega)
    (show layout.codeOff.toNat + hdr.codeLen.toNat + hdr.rodataLen.toNat ≤ out1.length by omega)
  have hlen2 := hw2.length
  obtain ⟨out3, hrw, hw3, hdata⟩ := writeData_eq mode tag
    (show hdr.codeLen.toNat + hdr.rodataLen.toNat < 2 ^ 32 by omega)
    (show hdr.codeLen.toNat + hdr.rodataLen.toNat + hdr.dataLen.toNat ≤ text.length by omega)
    (show layout.dataOff.toNat + hdr.dataLen.toNat ≤ out2.length by omega)
  have hlen3 := hw3.length
  -- the tag
  have htagSlice : slice (text ++ tag) ((text ++ tag).length - TAG_LEN) (text ++ tag).length =
      some tag := by
    have hstart : (text ++ tag).length - TAG_LEN = text.length := by
      rw [List.length_append, htag, Nat.add_sub_cancel]
    have hmid := slice_middle text tag []
    rw [List.append_nil, ← List.length_append] at hmid
    rw [hstart]
    exact hmid
  have hin4 : HEADER_SIZE.toNat + (4 + NONCE_LEN) + tag.length ≤ out3.length := by
    show 72 + (4 + 12) + tag.length ≤ _
    omega
  have hw4 : Within 72 eh.wireLen out3 (patch out3 (HEADER_SIZE.toNat + (4 + NONCE_LEN)) tag) :=
    (within_patch hin4).mono (Nat.le_add_right _ _) (by
      show 72 + (4 + 12) + tag.length ≤ _
      omega)
  -- what no piece of the text touches
  have hkeep {a n : Nat} (h : a + n ≤ layout.codeOff.toNat ∨ layout.relocOff.toNat ≤ a) :
      slice out3 a (a + n) = slice out0 a (a + n) := by
    have e3 := hw3.apart (a := a) (m := n) (by unfold Apart; omega)
    have e2 := hw2.apart (a := a) (m := n) (by unfold Apart; omega)
    have e1 := hw1.apart (a := a) (m := n) (by unfold Apart; omega)
    exact e3.trans (e2.trans e1)
  have hcode3 : slice out3 layout.codeOff.toNat (layout.codeOff.toNat + hdr.codeLen.toNat) =
      some (text.take hdr.codeLen.toNat) := by
    rw [← hcode]
    exact (hw3.apart (Or.inl (by omega))).trans (hw2.apart (Or.inl (Nat.le_refl _)))
  have hrodata3 := (hw3.apart (a := layout.codeOff.toNat + hdr.codeLen.toNat)
    (m := hdr.rodataLen.toNat) (Or.inl (by omega))).trans hrodata
  refine ⟨patch out3 (HEADER_SIZE.toNat + (4 + NONCE_LEN)) tag, ?_, ?_⟩
  · unfold writeSealed
    simp only [bind_eq_ok]
    exact ⟨_, range_of_slice hcodeSlice, out1, copyInto_of_le hin1, out2, hro, out3, hrw, tag,
      range_of_slice htagSlice, copyInto_of_le hin4⟩
  · exact {
      length := by rw [hw4.length]; omega
      header := by
        rw [← hf.header]
        exact (hw4.apart (a := 0) (m := 72) (Or.inl (Nat.le_refl _))).trans
          (hkeep (a := 0) (n := 72) (Or.inl (by omega)))
      envelope := by
        have h := (hkeep (a := 72) (n := eh.wireLen) (Or.inl (by omega))).trans hf.envelope
        have hin := slice_patch_inside h (show 4 + NONCE_LEN + tag.length ≤ eh.wireLen by
          show 4 + 12 + tag.length ≤ _
          omega)
        rw [patch_tag heh htag] at hin
        exact hin
      modinfo := by
        rw [← hf.modinfo]
        exact (hw4.apart (Or.inr (by omega))).trans (hkeep (Or.inl h2))
      relocs := by
        rw [← hf.relocs]
        exact (hw4.apart (Or.inr (by omega))).trans (hkeep (Or.inr (Nat.le_refl _)))
      code := (hw4.apart (Or.inr (by omega))).trans hcode3
      rodata := (hw4.apart (Or.inr (by omega))).trans hrodata3
      gap := by
        intro a n hstart hstop
        rw [← hf.zeros (a := a) (n := n) (by omega) (by omega)]
        exact (hw4.apart (Or.inr (by omega))).trans ((hw3.apart (Or.inl hstop)).trans
          ((hw2.apart (Or.inr hstart)).trans (hw1.apart (Or.inr (by omega)))))
      data := (hw4.apart (Or.inr (by omega))).trans hdata }

/-! ## The whole -/

def envelopeOf (encMode : EncMode) (rng : Entropy) (wrappedSlots : List WrappedSlot) : EncHeader where
  encMode := encMode
  aeadId := AEAD_CHACHA20POLY1305
  nonce := rng.nonce
  tag := List.replicate TAG_LEN 0
  wrappedSlots := wrappedSlots

def slotsFor (sealText : SealFn) (rng : Entropy) (keks : List Bytes) :
    Except EncStop (List WrappedSlot) :=
  keks.zipIdx.mapM fun (kek, i) =>
    wrapCek sealText kek rng.cek (rng.wrapNonce i) (UInt64.ofNat i)

variable {sealText : SealFn} {openText : OpenFn} {rng : Entropy} {encMode : EncMode}
  {input : Bytes} {keks : List Bytes}

theorem wrapCek_eq_ok {kek nonce : Bytes} {id : UInt64} {slot : WrappedSlot}
    (h : wrapCek sealText kek rng.cek nonce id = .ok slot) :
    ∃ text tag, sealText kek nonce [] rng.cek = some (text, tag) ∧
      slot = { keyId := id, wrapScheme := WRAP_SCHEME_SYMMETRIC_CHACHA20POLY1305
               wrapped := nonce ++ (text ++ tag) } := by
  unfold wrapCek at h
  simp only [bind_eq_ok, expect_eq_ok, pure_eq_ok] at h
  obtain ⟨⟨text, tag⟩, hseal, rfl⟩ := h
  exact ⟨text, tag, hseal, rfl⟩

theorem length_slotsFor {slots : List WrappedSlot} (h : slotsFor sealText rng keks = .ok slots) :
    slots.length = keks.length := by
  rw [length_mapM h, List.length_zipIdx]

theorem formed_envelopeOf (hopens : Opens sealText openText) {slots : List WrappedSlot}
    (h : slotsFor sealText rng keks = .ok slots) : (envelopeOf encMode rng slots).Formed where
  aead := rfl
  nonce := rng.length_nonce
  tag := List.length_replicate
  wrapped := by
    intro s hs
    obtain ⟨⟨kek, i⟩, -, hwrap⟩ := mapM_eq_ok h hs
    obtain ⟨text, tag, hseal, rfl⟩ := wrapCek_eq_ok hwrap
    obtain ⟨htext, htag⟩ := hopens.length hseal
    show (rng.wrapNonce i ++ (text ++ tag)).length = WRAP_LEN
    rw [List.length_append, List.length_append, rng.length_wrapNonce, htext, htag, rng.length_cek]
    rfl

/-- What an encrypted container holds, for the sections of the input and the sealed text. -/
structure Encrypted (mode : Overflow) (sealText : SealFn) (rng : Entropy) (encMode : EncMode)
    (c : Container) (s : Sections c host) (keks : List Bytes) (out : Bytes) where
  slots : List WrappedSlot
  layout : LmodHeader
  relocs : Bytes
  text : Bytes
  tag : Bytes
  wrapped : slotsFor sealText rng keks = .ok slots
  computed : computeLayout mode c.hdr.abiHash
    (sealedLens c.hdr (envelopeOf encMode rng slots).wireLen) = some layout
  laid : (s.contents (envelopeOf encMode rng slots)).Laid layout
  length_relocs : relocs.length = c.hdr.relocCount.toNat * RELOC_ENTRY_SIZE
  sealing : sealText rng.cek rng.nonce
    (associated c.hdr layout (envelopeOf encMode rng slots) s.modinfo relocs)
      (s.code ++ (s.rodata ++ s.data)) = some (text, tag)
  holds : Sealed c.hdr layout (envelopeOf encMode rng slots) s.modinfo relocs text tag out

theorem payloadOf_eq (s : Sections c host) : payloadOf c = .ok (s.code ++ (s.rodata ++ s.data)) := by
  unfold payloadOf
  rw [s.code_eq, s.rodata_eq, s.data_eq]
  rfl

variable (mode encMode) in
theorem encryptFor_eq (hopens : Opens sealText openText)
    (hparse : Container.parse host input = .ok c) (s : Sections c host)
    (hfits : (sealedLengths c.hdr (encHeaderLen keks.length)).total < 2 ^ 32)
    {slots : List WrappedSlot} (hslots : slotsFor sealText rng keks = .ok slots) :
    ∃ layout relocs out0,
      computeLayout mode c.hdr.abiHash
        (sealedLens c.hdr (envelopeOf encMode rng slots).wireLen) = some layout ∧
      (s.contents (envelopeOf encMode rng slots)).Laid layout ∧
      relocs.length = c.hdr.relocCount.toNat * RELOC_ENTRY_SIZE ∧
      Framed c.hdr layout (envelopeOf encMode rng slots) s.modinfo relocs out0 ∧
      encryptFor mode sealText rng encMode input keks =
        expect (sealText rng.cek rng.nonce
          (associated c.hdr layout (envelopeOf encMode rng slots) s.modinfo relocs)
          (s.code ++ (s.rodata ++ s.data))) (.error .payloadEncryptionFailed) >>=
        fun (text, tag) => writeSealed mode c.hdr layout (text ++ tag) out0 := by
  have heh : (envelopeOf encMode rng slots).Formed := formed_envelopeOf hopens hslots
  have hwire : (envelopeOf encMode rng slots).wireLen = encHeaderLen keks.length :=
    congrArg encHeaderLen (length_slotsFor hslots)
  obtain ⟨layout, hlayout, hl⟩ := s.exists_layout heh mode (by rw [hwire]; exact hfits)
  obtain ⟨out0, relocs, hframe, hlen, hframed⟩ := frame_eq s heh (ordered_of_laid heh hl)
  refine ⟨layout, relocs, out0, hlayout, hl, hlen, hframed, ?_⟩
  unfold encryptFor
  rw [hparse]
  show (payloadOf c >>= _) = _
  rw [payloadOf_eq s]
  show (slotsFor sealText rng keks >>= _) = _
  rw [hslots]
  show buildEncryptedContainer mode sealText c _ (envelopeOf encMode rng slots) rng.cek = _
  unfold buildEncryptedContainer
  dsimp only
  rw [hlayout]
  show (frame c layout (encHeaderBytes (envelopeOf encMode rng slots)) >>= _) = _
  rw [hframe]
  rfl

theorem length_text {s : Sections c host} {text tag aad : Bytes} (hopens : Opens sealText openText)
    (h : sealText rng.cek rng.nonce aad (s.code ++ (s.rodata ++ s.data)) = some (text, tag)) :
    text.length = c.hdr.codeLen.toNat + c.hdr.rodataLen.toNat + c.hdr.dataLen.toNat := by
  obtain ⟨-, hc, hr, hd⟩ := s.lens
  rw [(hopens.length h).1, List.length_append, List.length_append, hc, hr, hd, Nat.add_assoc]

theorem encrypted_of_ok (hopens : Opens sealText openText)
    (hparse : Container.parse host input = .ok c) (s : Sections c host)
    (hfits : (sealedLengths c.hdr (encHeaderLen keks.length)).total < 2 ^ 32) {out : Bytes}
    (h : encryptFor mode sealText rng encMode input keks = .ok out) :
    Nonempty (Encrypted mode sealText rng encMode c s keks out) := by
  have hslots : ∃ slots, slotsFor sealText rng keks = .ok slots := by
    unfold encryptFor at h
    simp only [bind_eq_ok] at h
    obtain ⟨_, -, _, -, slots, hslots, -⟩ := h
    exact ⟨slots, hslots⟩
  obtain ⟨slots, hslots⟩ := hslots
  obtain ⟨layout, relocs, out0, hlayout, hl, hlen, hframed, heq⟩ :=
    encryptFor_eq mode encMode hopens hparse s hfits hslots
  rw [heq, bind_eq_ok] at h
  obtain ⟨⟨text, tag⟩, hseal, hwrite⟩ := h
  have hsealing := expect_eq_ok.mp hseal
  have heh : (envelopeOf encMode rng slots).Formed := formed_envelopeOf hopens hslots
  obtain ⟨out', hout', hsealed⟩ := writeSealed_eq mode heh (ordered_of_laid heh hl) hframed
    (length_text hopens hsealing) (hopens.length hsealing).2
  have hsame : out' = out := Except.ok.inj (hout'.symm.trans hwrite)
  rw [hsame] at hsealed
  exact ⟨⟨slots, layout, relocs, text, tag, hslots, hlayout, hl, hlen, hsealing, hsealed⟩⟩

theorem exists_encrypted (mode : Overflow) (rng : Entropy) (encMode : EncMode)
    (hopens : Opens sealText openText)
    (htotal : ∀ key nonce aad msg, (sealText key nonce aad msg).isSome = true)
    (hparse : Container.parse host input = .ok c) (s : Sections c host)
    (hfits : (sealedLengths c.hdr (encHeaderLen keks.length)).total < 2 ^ 32) :
    ∃ out, encryptFor mode sealText rng encMode input keks = .ok out := by
  have hslots : ∀ ks : List (Bytes × Nat), ∃ slots, (ks.mapM fun (kek, i) =>
      wrapCek sealText kek rng.cek (rng.wrapNonce i) (UInt64.ofNat i)) = .ok slots := by
    intro ks
    induction ks with
    | nil => exact ⟨[], rfl⟩
    | cons k ks ih =>
      obtain ⟨rest, hrest⟩ := ih
      obtain ⟨⟨text, tag⟩, hseal⟩ := Option.isSome_iff_exists.mp
        (htotal k.1 (rng.wrapNonce k.2) [] rng.cek)
      let slot : WrappedSlot := {
        keyId := UInt64.ofNat k.2, wrapScheme := WRAP_SCHEME_SYMMETRIC_CHACHA20POLY1305
        wrapped := rng.wrapNonce k.2 ++ (text ++ tag) }
      have hslot : wrapCek sealText k.1 rng.cek (rng.wrapNonce k.2) (UInt64.ofNat k.2) =
          .ok slot := by
        unfold wrapCek
        rw [hseal]
        rfl
      exact ⟨slot :: rest, mapM_cons_eq_ok.mpr ⟨slot, rest, hslot, hrest, rfl⟩⟩
  obtain ⟨slots, hslots⟩ := hslots keks.zipIdx
  obtain ⟨layout, relocs, out0, hlayout, hl, hlen, hframed, heq⟩ :=
    encryptFor_eq mode encMode hopens hparse s hfits hslots
  obtain ⟨⟨text, tag⟩, hseal⟩ := Option.isSome_iff_exists.mp (htotal rng.cek rng.nonce
    (associated c.hdr layout (envelopeOf encMode rng slots) s.modinfo relocs)
    (s.code ++ (s.rodata ++ s.data)))
  have heh : (envelopeOf encMode rng slots).Formed := formed_envelopeOf hopens hslots
  obtain ⟨out, hout, -⟩ := writeSealed_eq mode heh (ordered_of_laid heh hl) hframed
    (length_text hopens hseal) (hopens.length hseal).2
  refine ⟨out, ?_⟩
  rw [heq, hseal]
  exact hout

end Tyu.Seal

import Tyu.Loader.Load

/-! # Sections in memory -/

namespace Tyu

open Lib Lib.Wire Container

variable {σ : Type} {b : Build σ} {c : Container}

def StartsWith (region : Option Region) (bytes : Bytes) : Prop :=
  bytes ≠ [] → ∃ r, region = some r ∧ slice r.bytes 0 bytes.length = some bytes

structure PlacedSections.Stored (s : PlacedSections) (code rodata data : Bytes) : Prop where
  code : slice s.code.bytes 0 code.length = some code
  rodata : StartsWith s.rodata rodata
  data : StartsWith s.data data

theorem slice_zero (bs : Bytes) : slice bs 0 0 = some [] := by
  unfold slice
  rw [if_pos ⟨Nat.le_refl _, Nat.zero_le _⟩]
  rfl

theorem slice_all (bs : Bytes) : slice bs 0 bs.length = some bs := by
  unfold slice
  rw [if_pos ⟨Nat.zero_le _, Nat.le_refl _⟩, List.take_length, List.drop_zero]

theorem sectionBytes_zero {w : PtrWidth} {off len : UInt32} {bytes : Bytes}
    (h : c.sectionBytes w off len = some bytes) (hzero : len.toNat = 0) : bytes = [] := by
  unfold sectionBytes at h
  rw [if_pos (UInt32.toNat_inj.mp hzero)] at h
  exact (Option.some.inj h).symm

theorem copyFrom_eq_some {r r' : Region} {src : Bytes} (h : r.copyFrom src = some r') :
    r'.bytes = src := by
  unfold Region.copyFrom at h
  split at h
  · rw [← Option.some.inj h]
  · cases h

theorem copyPrefix_eq_some {r r' : Region} {src : Bytes} (h : r.copyPrefix src = some r') :
    slice r'.bytes 0 src.length = some src := by
  unfold Region.copyPrefix at h
  split at h
  · rename_i hfits
    rw [← Option.some.inj h]
    have hslice := slice_patch (show 0 + src.length ≤ r.bytes.length by omega)
    rwa [Nat.zero_add] at hslice
  · cases h

theorem allocSection_eq_ok {op : Nat → σ → Except UInt32 Region × σ} {len : Nat}
    {region : Option Region} {s s' : Loader σ} (h : allocSection op len s = (.ok region, s')) :
    region.isSome = true ↔ 0 < len := by
  unfold allocSection at h
  by_cases hpos : len > 0
  · rw [if_pos hpos] at h
    obtain ⟨r, m, -, hpure⟩ := Stoppable.bind_eq_ok.mp h
    rw [← (Stoppable.pure_eq_ok.mp hpure).1]
    exact iff_of_true rfl hpos
  · rw [if_neg hpos] at h
    rw [← (Stoppable.pure_eq_ok.mp h).1]
    exact iff_of_false (by simp) hpos

theorem copyCode_eq_ok {lens : PlacedLens} {code code' : Region} {bytes : Bytes}
    {s s' : Loader σ} (hbytes : c.code b.width = some bytes)
    (hlens : lens.code = c.hdr.codeLen.toNat) (h : copyCode b c lens code s = (.ok code', s')) :
    slice code'.bytes 0 bytes.length = some bytes := by
  unfold copyCode at h
  by_cases hpos : lens.code > 0
  · rw [if_pos hpos] at h
    obtain ⟨src, m, hsrc, hcopy⟩ := Stoppable.bind_eq_ok.mp h
    have hsame : src = bytes := Option.some.inj ((Load.orPanic_eq_ok.mp hsrc).1.symm.trans hbytes)
    have hnew := copyFrom_eq_some (Load.orPanic_eq_ok.mp hcopy).1
    rw [hnew, hsame]
    exact slice_all bytes
  · rw [sectionBytes_zero hbytes (by omega)]
    exact slice_zero _

theorem copyRodata_eq_ok {rodata rodata' : Option Region} {bytes : Bytes} {s s' : Loader σ}
    (hbytes : c.rodata b.width = some bytes)
    (hsome : rodata.isSome = true ↔ 0 < c.hdr.rodataLen.toNat)
    (h : copyRodata b c rodata s = (.ok rodata', s')) : StartsWith rodata' bytes := by
  intro hne
  have hpos : 0 < c.hdr.rodataLen.toNat :=
    Nat.pos_of_ne_zero fun hzero => hne (sectionBytes_zero hbytes hzero)
  obtain ⟨ro, rfl⟩ := Option.isSome_iff_exists.mp (hsome.mpr hpos)
  unfold copyRodata at h
  obtain ⟨src, m, hsrc, h⟩ := Stoppable.bind_eq_ok.mp h
  obtain ⟨ro', m', hcopy, hpure⟩ := Stoppable.bind_eq_ok.mp h
  have hsame : src = bytes := Option.some.inj ((Load.orPanic_eq_ok.mp hsrc).1.symm.trans hbytes)
  have hnew := copyFrom_eq_some (Load.orPanic_eq_ok.mp hcopy).1
  refine ⟨ro', (Stoppable.pure_eq_ok.mp hpure).1.symm, ?_⟩
  rw [hnew, hsame]
  exact slice_all bytes

theorem copyData_eq_ok {lens : PlacedLens} {data data' : Option Region} {bytes : Bytes}
    {s s' : Loader σ} (hbytes : c.data b.width = some bytes)
    (hlens : lens.data = c.hdr.dataLen.toNat) (hsome : 0 < lens.data → data.isSome = true)
    (h : copyData b c lens data s = (.ok data', s')) : StartsWith data' bytes := by
  intro hne
  have hpos : 0 < lens.data :=
    Nat.pos_of_ne_zero fun hzero => hne (sectionBytes_zero hbytes (hlens.symm.trans hzero))
  obtain ⟨rw', rfl⟩ := Option.isSome_iff_exists.mp (hsome hpos)
  unfold copyData at h
  simp only [gt_iff_lt, hpos, if_true] at h
  obtain ⟨src, m, hsrc, h⟩ := Stoppable.bind_eq_ok.mp h
  obtain ⟨r, m', hcopy, hpure⟩ := Stoppable.bind_eq_ok.mp h
  have hsame : src = bytes := Option.some.inj ((Load.orPanic_eq_ok.mp hsrc).1.symm.trans hbytes)
  have hnew := copyPrefix_eq_some (Load.orPanic_eq_ok.mp hcopy).1
  rw [hsame] at hnew
  exact ⟨r, (Stoppable.pure_eq_ok.mp hpure).1.symm, hnew⟩

theorem stored_of_placeSections {code rodata data : Bytes} {sections : PlacedSections}
    {s s' : Loader σ} (hcode : c.code b.width = some code)
    (hrodata : c.rodata b.width = some rodata) (hdata : c.data b.width = some data)
    (hfits : c.hdr.dataLen.toNat + c.hdr.bssLen.toNat < b.width.size)
    (h : placeSections b c (.fromHeader c.hdr) s = (.ok sections, s')) :
    sections.Stored code rodata data := by
  unfold placeSections at h
  obtain ⟨codeRegion, s1, -, h⟩ := Stoppable.bind_eq_ok.mp h
  obtain ⟨roRegion, s2, hro, h⟩ := Stoppable.bind_eq_ok.mp h
  obtain ⟨rwRegion, s3, hrw, h⟩ := Stoppable.bind_eq_ok.mp h
  obtain ⟨codeCopy, s4, hcopy, h⟩ := Stoppable.bind_eq_ok.mp h
  obtain ⟨roCopy, s5, hroCopy, h⟩ := Stoppable.bind_eq_ok.mp h
  obtain ⟨rwCopy, s6, hrwCopy, h⟩ := Stoppable.bind_eq_ok.mp h
  rw [← (Stoppable.pure_eq_ok.mp h).1]
  have hwrap : usize b.width (c.hdr.dataLen.toNat + c.hdr.bssLen.toNat) =
      c.hdr.dataLen.toNat + c.hdr.bssLen.toNat := Nat.mod_eq_of_lt hfits
  have hsome := allocSection_eq_ok hrw
  rw [show usize b.width ((PlacedLens.fromHeader c.hdr).data + (PlacedLens.fromHeader c.hdr).bss) =
    _ from hwrap] at hsome
  exact {
    code := copyCode_eq_ok hcode rfl hcopy
    rodata := copyRodata_eq_ok hrodata (allocSection_eq_ok hro) hroCopy
    data := copyData_eq_ok hdata rfl (fun hpos => hsome.mpr (Nat.add_pos_left hpos _)) hrwCopy }

end Tyu

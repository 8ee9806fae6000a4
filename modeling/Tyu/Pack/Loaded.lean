import Mathlib.Data.List.Pairwise
import Tyu.Loader.Atomic
import Tyu.Loader.RelocFrame
import Tyu.Loader.Stored
import Tyu.Pack.Preserved

/-! # A packed object in memory -/

namespace Tyu.Pack

open Lib Lib.Wire Lib.Branch Container

variable {σ : Type} {b : Build σ}

theorem siteLen_pos (elf : Elf) (type : UInt32) : 0 < elf.siteLen type := by
  unfold Elf.siteLen
  split
  · decide
  · cases InternalKind.ofType elf.machine type with
    | none => decide
    | some kind => cases kind <;> decide

namespace Packing

variable {mode : Overflow} {input record out : Bytes} {k : Packing mode input record out}

theorem eq_of_site_eq (ht : k.Tidy) {f g : Fixup} (hf : f ∈ k.fixups) (hg : g ∈ k.fixups)
    (h : f.site k.elf k.layout = g.site k.elf k.layout) : f = g := by
  by_contra hne
  have hsymm : Std.Symm fun f g : Fixup => (f.rewrite k.elf k.layout k.his).Apart
      (g.rewrite k.elf k.layout k.his) := ⟨fun _ _ => Apart.symm⟩
  have hapart : Apart (f.site k.elf k.layout).toNat (k.elf.siteLen f.type)
      (g.site k.elf k.layout).toNat (k.elf.siteLen g.type) :=
    (List.pairwise_map.mp (apart ht)).forall hf hg hne
  have hflen := siteLen_pos k.elf f.type
  have hglen := siteLen_pos k.elf g.type
  rw [h] at hapart
  unfold Apart at hapart
  omega

theorem hiTargetAt_eq (ht : k.Tidy) {h : Fixup} (hh : h ∈ k.fixups) {value : UInt64}
    (hfound : hiTargetAt k.his (h.site k.elf k.layout) = some value) :
    value = h.value k.elf k.layout := by
  unfold hiTargetAt at hfound
  obtain ⟨hit, hhit, rfl⟩ := Option.map_eq_some_iff.mp hfound
  have hsite := List.find?_some hhit
  have hmem := List.mem_of_find?_eq_some hhit
  unfold his hiTargets at hmem
  split at hmem
  · obtain ⟨g, hg, rfl⟩ := List.mem_map.mp hmem
    have hsame := eq_of_site_eq ht (List.mem_filter.mp hg).1 hh (of_decide_eq_true hsite)
    rw [hsame]
    rfl
  · cases hmem

theorem region_of_loads (ht : k.Tidy) {im : Image} (h : Loads b ⟨out, k.layout⟩ im) {p : Part}
    {a n : Nat} (hn : 0 < n) (hin : a + n ≤ (p.bytes k.parts).length)
    (hapart : p = .code → ∀ i ∈ k.imports, Apart a n i.site.toUInt32.toNat i.len) :
    ∃ region, im.region p = some region ∧ slice region.bytes a (a + n) =
      slice out ((p.offset k.layout).toNat + a) ((p.offset k.layout).toNat + (a + n)) := by
  have hs := ht.toSettled
  obtain ⟨s, s', sections, map, bases, code, hplace, hreloc, rfl⟩ := h
  have hback := (holds hs).readBack b.width
  have hsize := b.width.le_size
  have hlens := (laid_packed hs).lens_toNat
  have hbss : k.layout.bssLen.toNat = 0 := by
    rw [(laid_packed hs).placed.bssLen]
    rfl
  have hstored := stored_of_placeSections hback.code hback.rodata hback.data (by
    show k.layout.dataLen.toNat + k.layout.bssLen.toNat < _
    have hlt := k.layout.dataLen.toNat_lt
    omega) hplace
  have hwhole := slice_packedPart hs p
  have hlen := length_packedPart hs p
  rw [slice_within hwhole hin]
  have hne : k.packedPart p ≠ [] := fun hempty => by
    rw [hempty] at hlen
    have hzero : (p.bytes k.parts).length = 0 := hlen.symm
    omega
  have hstart {bytes : Bytes} (h : slice bytes 0 (k.packedPart p).length =
      some (k.packedPart p)) : slice bytes a (a + n) = slice (k.packedPart p) a (a + n) := by
    have hfirst : slice bytes 0 (0 + (k.packedPart p).length) = some (k.packedPart p) := by
      rwa [Nat.zero_add]
    have hsame := slice_within hfirst (show a + n ≤ (k.packedPart p).length by omega)
    rwa [Nat.zero_add, Nat.zero_add] at hsame
  cases p with
  | code =>
    refine ⟨_, rfl, ?_⟩
    rw [← hstart hstored.code]
    refine slice_applyImportRelocations hreloc fun i hi e he => ?_
    obtain ⟨j, hj, rfl⟩ := List.mem_map.mp hi
    have hcount : k.layout.relocCount.toNat = k.entries.length := hlens.2.2.2.2
    have hjlt : j < k.packed.relocs.length := by
      show j < k.entries.length
      rw [← hcount]
      exact List.mem_range.mp hj
    have hentry := Option.some.inj (he.symm.trans ((holds hs).relocEntry (w := b.width) hjlt))
    obtain ⟨i, hi, hfinal⟩ := mapM_eq_ok k.finished (List.getElem_mem hjlt)
    obtain ⟨hoff, -, hkind⟩ := finalEntry_eq_ok hfinal
    have hsiteOff : (e.siteOff - k.layout.codeOff).toNat = i.site.toUInt32.toNat := by
      rw [hentry, show k.packed.relocs[j].siteOff = _ from hoff, UInt32.add_sub_cancel]
    have hentryLen : relocLen e.kind = i.len := by
      rw [hentry, show k.packed.relocs[j].kind = _ from hkind]
      rfl
    show Apart a n (e.siteOff - k.layout.codeOff).toNat (relocLen e.kind)
    rw [hsiteOff, hentryLen]
    exact hapart rfl i hi
  | rodata =>
    obtain ⟨r, hr, hslice⟩ := hstored.rodata hne
    exact ⟨r, hr, hstart hslice⟩
  | data =>
    obtain ⟨r, hr, hslice⟩ := hstored.data hne
    exact ⟨r, hr, hstart hslice⟩

theorem site_of_loads (ht : k.Tidy) {im : Image} (h : Loads b ⟨out, k.layout⟩ im) {r : Reloc}
    {sym : Symbol} (hd : k.elf.Defines k.symbols r sym) :
    ∃ place insn new, im.place k.elf r = some place ∧ k.elf.siteBytes k.parts r = some insn ∧
      ((k.elf.fixup r sym).rewrite k.elf k.layout k.his).encode insn = some new ∧
      im.siteBytes k.elf r = some new := by
  obtain ⟨hname, habs⟩ := ht.named r sym hd
  have hf : k.elf.fixup r sym ∈ k.fixups := fixup_mem k.scan hd hname habs
  obtain ⟨p, hp, hin⟩ := ht.inside _ hf
  obtain ⟨insn, new, hinsn, hnew, hslice⟩ := site ht hf hp
  obtain ⟨region, hregion, hbytes⟩ := region_of_loads ht h (siteLen_pos k.elf r.type) hin
    fun hcode i hi => ht.imports i hi _ hf (hcode ▸ hp)
  have hpart : k.elf.part r.target = some p := hp
  refine ⟨region.base.toNat + r.offset.toNat, insn, new, ?_, ?_, hnew, ?_⟩
  · unfold Image.place
    rw [hpart]
    show (im.region p >>= _) = _
    rw [hregion]
    rfl
  · unfold Elf.siteBytes
    rw [hpart]
    exact hinsn
  · unfold Image.siteBytes
    rw [hpart]
    show (im.region p >>= _) = _
    rw [hregion]
    exact hbytes.trans hslice

/-! ## References -/

theorem encode_of_kind {his : List (UInt64 × UInt64)} {elf : Elf} {layout : LmodHeader} {f : Fixup}
    {insn new : Bytes} (hlow : ¬ elf.isLow f.type)
    (h : (f.rewrite elf layout his).encode insn = some new) :
    ∃ kind, InternalKind.ofType elf.machine f.type = some kind ∧
      kind.encode (f.value elf layout) (f.site elf layout) insn = some new := by
  have hbind : (InternalKind.ofType elf.machine f.type).bind
      (fun kind => kind.encode (f.value elf layout) (f.site elf layout) insn) = some new := by
    rw [← h]
    show _ = if elf.isLow f.type then _ else _
    rw [if_neg hlow]
  exact Option.bind_eq_some_iff.mp hbind

theorem encode_of_low {his : List (UInt64 × UInt64)} {elf : Elf} {layout : LmodHeader} {f : Fixup}
    {insn new : Bytes} (hlow : elf.isLow f.type)
    (h : (f.rewrite elf layout his).encode insn = some new) :
    ∃ hiTarget, hiTargetAt his (f.symAddr elf layout) = some hiTarget ∧
      new = encodeRiscvLo12I insn
        (hiTarget + f.addend.toUInt64 - f.symAddr elf layout).toInt64 := by
  have hmap : (hiTargetAt his (f.symAddr elf layout)).map (fun hiTarget =>
      encodeRiscvLo12I insn
        (hiTarget + f.addend.toUInt64 - f.symAddr elf layout).toInt64) = some new := by
    rw [← h]
    show _ = if elf.isLow f.type then _ else _
    rw [if_pos hlow]
  obtain ⟨hiTarget, hhi, hnew⟩ := Option.map_eq_some_iff.mp hmap
  exact ⟨hiTarget, hhi, hnew.symm⟩

theorem resolvesOne_iff (ht : k.Tidy) {im : Image} (h : Loads b ⟨out, k.layout⟩ im) {r : Reloc}
    {sym : Symbol} (hd : k.elf.Defines k.symbols r sym) (hlow : ¬ k.elf.isLow r.type) :
    im.ResolvesOne k.elf k.parts r sym ↔ im.AgreesOne k.elf k.parts k.layout r sym := by
  obtain ⟨place, insn, new, hplace, hinsn, hnew, hbytes⟩ := site_of_loads ht h hd
  obtain ⟨kind, hkind, henc⟩ := encode_of_kind hlow hnew
  have hlen : insn.length = kind.len := by
    obtain ⟨p, -, hslice⟩ := Option.bind_eq_some_iff.mp hinsn
    rw [length_slice hslice, Nat.add_sub_cancel_left, siteLen_kind hlow hkind]
  have hiff (t : Int) : kind.Refers place new t ↔ _ := InternalKind.refers_encode_iff hlen henc
  constructor
  · rintro ⟨kind', place', new', t, hkind', hplace', hnew', htarget, hrefers⟩
    obtain rfl := Option.some.inj (hkind.symm.trans hkind')
    obtain rfl := Option.some.inj (hplace.symm.trans hplace')
    obtain rfl := Option.some.inj (hbytes.symm.trans hnew')
    exact ⟨kind, place, insn, t, hkind, hplace, hinsn, htarget, (hiff t).mp hrefers⟩
  · rintro ⟨kind', place', insn', t, hkind', hplace', hinsn', htarget, hagrees⟩
    obtain rfl := Option.some.inj (hkind.symm.trans hkind')
    obtain rfl := Option.some.inj (hplace.symm.trans hplace')
    obtain rfl := Option.some.inj (hinsn.symm.trans hinsn')
    exact ⟨kind, place, new, t, hkind, hplace, hbytes, htarget, (hiff t).mpr hagrees⟩

theorem pair_of_loads (ht : k.Tidy) {im : Image} (h : Loads b ⟨out, k.layout⟩ im) {r : Reloc}
    {label : Symbol} (hd : k.elf.Defines k.symbols r label) (hlow : k.elf.isLow r.type)
    {u : Reloc} {sym : Symbol} (hpairs : k.elf.Pairs k.symbols label u sym) :
    ∃ place hi lo, im.place k.elf u = some place ∧
      im.siteBytes k.elf u = some (encodeRiscvHi20 hi
        ((k.elf.fixup u sym).value k.elf k.layout -
          (k.elf.fixup u sym).site k.elf k.layout).toInt64) ∧
      im.siteBytes k.elf r = some (encodeRiscvLo12I lo
        ((k.elf.fixup u sym).value k.elf k.layout + (k.elf.packedAddend r).toUInt64 -
          (k.elf.fixup u sym).site k.elf k.layout).toInt64) := by
  obtain ⟨place, hi, new, hplace, -, hnew, hbytes⟩ := site_of_loads ht h hpairs.defines
  obtain ⟨-, lo, new', -, -, hnew', hbytes'⟩ := site_of_loads ht h hd
  have htype : (k.elf.fixup u sym).type = 23 := hpairs.type
  have hupper : ¬ k.elf.isLow (k.elf.fixup u sym).type := by
    rw [htype]
    exact fun hlow => absurd hlow.2 (by decide)
  obtain ⟨kind, hkind, henc⟩ := encode_of_kind hupper hnew
  have hhi20 : kind = .riscvPcrelHi20 := by
    rw [htype, hlow.1] at hkind
    exact (Option.some.inj hkind).symm
  rw [hhi20] at henc
  obtain ⟨hiTarget, hfound, hlo⟩ := encode_of_low (f := k.elf.fixup r label) hlow hnew'
  have hsite : (k.elf.fixup r label).symAddr k.elf k.layout =
      (k.elf.fixup u sym).site k.elf k.layout := by
    show k.elf.lmodSectionBase label.shndx.toNat k.layout + label.value =
      k.elf.lmodSectionBase u.target k.layout + u.offset
    rw [hpairs.target, hpairs.offset]
  obtain ⟨hname, habs⟩ := ht.named u sym hpairs.defines
  rw [hsite] at hfound hlo
  rw [hiTargetAt_eq ht (fixup_mem k.scan hpairs.defines hname habs) hfound] at hlo
  refine ⟨place, hi, lo, hplace, ?_, ?_⟩
  · rw [hbytes]
    exact henc.symm
  · rw [hbytes', hlo]
    rfl

theorem resolvesPair_iff (ht : k.Tidy) {im : Image} (h : Loads b ⟨out, k.layout⟩ im) {r : Reloc}
    {label : Symbol} (hd : k.elf.Defines k.symbols r label) (hlow : k.elf.isLow r.type) :
    im.ResolvesPair k.elf k.parts k.symbols r label ↔
      im.AgreesPair k.elf k.parts k.symbols k.layout r label := by
  constructor
  · rintro ⟨u, sym, place, hi, lo, t, hpairs, hplace, hhi, hlo, htarget, hrefers⟩
    obtain ⟨place', hi', lo', hplace', hhi', hlo'⟩ := pair_of_loads ht h hd hlow hpairs
    obtain rfl := Option.some.inj (hplace'.symm.trans hplace)
    rw [← Option.some.inj (hhi'.symm.trans hhi),
      ← Option.some.inj (hlo'.symm.trans hlo)] at hrefers
    exact ⟨u, sym, place', t, hpairs, hplace, htarget, pairRefers_encode_iff.mp hrefers⟩
  · rintro ⟨u, sym, place, t, hpairs, hplace, htarget, hagrees⟩
    obtain ⟨place', hi, lo, hplace', hhi, hlo⟩ := pair_of_loads ht h hd hlow hpairs
    obtain rfl := Option.some.inj (hplace'.symm.trans hplace)
    exact ⟨u, sym, place', _, _, t, hpairs, hplace, hhi, hlo, htarget,
      pairRefers_encode_iff.mpr hagrees⟩

end Packing

deriving instance DecidableEq for PlacedSections

def pointerObject : Bytes := armObject [0x66] 1 1 [0x70, 0x47, 0x00, 0xBF, 0, 0, 0, 0] [(4, 2)]

def pointerElf : Elf := (Elf.parse pointerObject).toOption.get (by decide +kernel)
def pointerParts : Parts := (pointerElf.parts []).toOption.get (by decide +kernel)
def pointerSymbols : List Symbol := pointerElf.symbols.toOption.get (by decide +kernel)
def pointerScan : List Scanned := (pointerElf.scan pointerSymbols).toOption.get (by decide +kernel)

def pointerLayout : LmodHeader :=
  (computeLayout .stops pointerParts.abiHash (pointerParts.lens 0)).get (by decide +kernel)

def pointerLaid : Bytes := (pointerParts.assemble pointerLayout).toOption.get (by decide +kernel)

def pointerContainer : Bytes :=
  (packWithVerifyManifest .stops pointerObject []).toOption.get (by decide +kernel)

def pointerPacking : Packing .stops pointerObject [] pointerContainer where
  elf := pointerElf
  parts := pointerParts
  symbols := pointerSymbols
  scanned := pointerScan
  layout := pointerLayout
  laid := pointerLaid
  resolved := pointerContainer
  entries := []
  parse := eq_ok_get _
  extract := eq_ok_get _
  readSymbols := eq_ok_get _
  scan := eq_ok_get _
  computed := by decide +kernel
  assembled := eq_ok_get _
  fixed := by decide +kernel
  finished := by decide +kernel
  written := rfl

def pointerImage : Image where
  code := some { base := 0x1000, bytes := [0x70, 0x47, 0x00, 0xBF, 73, 0, 0, 0] }
  rodata := none
  data := none

attribute [irreducible] pointerElf pointerParts pointerSymbols pointerScan pointerLayout
  pointerContainer

theorem pointer_settled : pointerPacking.Settled where
  fits := by decide +kernel
  inside := by
    intro f hf
    have hall : pointerPacking.fixups.all (fun f => pointerElf.part f.target = some .code ∧
        f.offset.toNat + pointerElf.siteLen f.type ≤ pointerParts.code.length) = true := by
      decide +kernel
    exact ⟨.code, of_decide_eq_true (List.all_eq_true.mp hall f hf)⟩

theorem pointer_tidy : pointerPacking.Tidy where
  toSettled := pointer_settled
  named := by
    intro r sym hd
    have hall : pointerElf.relocs.all (fun r => pointerSymbols[r.sym]?.all fun sym =>
        ¬ (sym.name = [] ∧ r.sym ≠ 0) ∧ sym.shndx ≠ SHN_ABS) = true := by decide +kernel
    have hone := List.all_eq_true.mp hall r hd.mem
    have hsym : pointerSymbols[r.sym]? = some sym := hd.symbol
    rw [hsym] at hone
    exact of_decide_eq_true hone
  apart := by decide +kernel
  imports := by decide +kernel

theorem pointer_parses :
    Container.parse .w64 pointerContainer = .ok ⟨pointerContainer, pointerLayout⟩ :=
  (Packing.holds pointer_settled).parse .w64

theorem pointer_loads : Loads ramBuild ⟨pointerContainer, pointerLayout⟩ pointerImage := by
  have hplace : (placeSections ramBuild ⟨pointerContainer, pointerLayout⟩
      (.fromHeader pointerLayout) .start).1 = .ok
        ⟨⟨0x1000, [0x70, 0x47, 0x00, 0xBF, 73, 0, 0, 0]⟩, none, none⟩ := by decide +kernel
  exact ⟨.start, _, _, .empty, noBases, _, Prod.ext hplace rfl, by decide +kernel, rfl⟩

end Tyu.Pack

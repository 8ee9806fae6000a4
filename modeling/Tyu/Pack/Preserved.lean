import Tyu.Pack.Resolved

/-! # What packing keeps -/

namespace Tyu.Pack

open Lib Lib.Wire Container

namespace Elf

/-- A relocation that the packer resolves: it refers to a named symbol of a section. -/
def Patched (elf : Elf) (symbols : List Symbol) (r : Reloc) : Prop :=
  ∃ sym, elf.Defines symbols r sym ∧ ¬ (sym.name = [] ∧ r.sym ≠ 0) ∧ sym.shndx ≠ SHN_ABS

def Plain (elf : Elf) (symbols : List Symbol) (p : Part) (i : Nat) : Prop :=
  ∀ r ∈ elf.relocs, elf.Patched symbols r → elf.part r.target = some p →
    i < r.offset.toNat ∨ r.offset.toNat + elf.siteLen r.type ≤ i

/-- The record of a reference to a symbol by its name: the site behind the start of the code, and
the hash that the name links to.  A reference to the base of an aperture has the number of the
aperture in the place of the hash. -/
def nameRecord (elf : Elf) (layout : LmodHeader) (r : Reloc) (name : Bytes) : Option RelocEntry :=
  let siteOff := r.offset.toUInt32 + layout.codeOff
  match apertureBaseId name with
  | some id => some { siteOff, symHash := id.toUInt64, kind := MMIO_APERTURE_BASE }
  | none => (importRelocKind elf.machine r.type).map fun kind =>
      { siteOff, symHash := linkedSymbolHash name, kind }

/-- The record of a relocation.  A relaxation hint has none, and nothing is said of references
without a symbol and of those to absolute symbols. -/
def record (elf : Elf) (symbols : List Symbol) (layout : LmodHeader) (r : Reloc) :
    Option RelocEntry :=
  if elf.machine = EM_RISCV ∧ r.type = 51 then none
  else
    match symbols[r.sym]? with
    | none => none
    | some sym =>
      if sym.shndx = SHN_UNDEF ∨ (sym.name = [] ∧ r.sym ≠ 0) then elf.nameRecord layout r sym.name
      else none

end Elf

def Part.read (w : PtrWidth) (c : Container) : Part → Option Bytes
  | .code => c.code w
  | .rodata => c.rodata w
  | .data => c.data w

/-- The container that was parsed keeps the object: its header is the layout that was computed,
its parts are those of the object outside the patched fields, and its table has the records of
the other relocations, each once and in their order. -/
structure Preserved (mode : Overflow) (w : PtrWidth) (elf : Elf) (parts : Parts)
    (symbols : List Symbol) (c : Container) : Prop where
  layout : computeLayout mode parts.abiHash (parts.lens (c.relocIter w).length) = some c.hdr
  modinfo : c.modinfo w = some parts.modinfo
  bytes : ∀ p : Part, ∃ bytes, p.read w c = some bytes ∧
    bytes.length = (p.bytes parts).length ∧
    ∀ i, elf.Plain symbols p i → bytes[i]? = (p.bytes parts)[i]?
  records : c.relocIter w = elf.relocs.filterMap (elf.record symbols c.hdr)

/-! ## Records -/

theorem Elf.mapM_scanReloc {elf : Elf} {symbols : List Symbol} {scanned : List Scanned}
    (h : elf.scan symbols = .ok scanned) :
    elf.relocs.mapM (elf.scanReloc symbols) = .ok scanned := by
  unfold scan at h
  simp only [bind_eq_ok, pure_eq_ok] at h
  obtain ⟨parts, hparts, rfl⟩ := h
  refine mapM_flatMap (fun s part hpart => ?_) hparts
  by_cases hrel : elf.relocates s = true
  · have hpart' := hpart
    unfold scanSection at hpart'
    rw [if_pos hrel, bind_eq_ok] at hpart'
    obtain ⟨table, htable, hmap⟩ := hpart'
    rw [htable]
    simp only [hrel, if_true]
    exact hmap
  · unfold scanSection at hpart
    rw [if_neg hrel, pure_eq_ok] at hpart
    rw [← hpart]
    cases elf.sectionData s with
    | error e => exact mapM_nil_eq_ok.mpr rfl
    | ok table =>
      simp only [hrel]
      exact mapM_nil_eq_ok.mpr rfl

theorem Elf.lmodSectionBase_zero (elf : Elf) (i : Nat) : elf.lmodSectionBase i {} = 0 := by
  unfold lmodSectionBase
  cases elf.sections[i]? with
  | none => rfl
  | some s =>
    dsimp only
    split
    · rfl
    split
    · rfl
    split
    · rfl
    · rfl

theorem Elf.scanImport_record {elf : Elf} (mode : Overflow) (layout : LmodHeader) {r : Reloc}
    {name : Bytes} {x : Scanned} (h : elf.scanImport r name = .ok x) :
    ∃ i, x = .imported i ∧
      ∀ e, finalEntry mode layout i = .ok e → elf.nameRecord layout r name = some e := by
  have hentry {i : Import} {e : RelocEntry} (hsite : i.site = r.offset)
      (he : finalEntry mode layout i = .ok e) :
      e = { siteOff := r.offset.toUInt32 + layout.codeOff, symHash := i.symHash, kind := i.kind } := by
    obtain ⟨hoff, hhash, hkind⟩ := finalEntry_eq_ok he
    rw [hsite] at hoff
    cases e
    simp_all
  have hbase : elf.lmodSectionBase r.target {} + r.offset = r.offset := by
    rw [elf.lmodSectionBase_zero, UInt64.zero_add]
  unfold scanImport at h
  unfold nameRecord
  cases hid : apertureBaseId name with
  | some id =>
    rw [hid] at h
    refine ⟨_, (pure_eq_ok.mp h).symm, fun e he => ?_⟩
    rw [hentry hbase he]
  | none =>
    rw [hid] at h
    simp only [bind_eq_ok, expect_eq_ok, pure_eq_ok] at h
    obtain ⟨kind, hkind, rfl⟩ := h
    refine ⟨_, rfl, fun e he => ?_⟩
    rw [hkind, hentry hbase he]
    rfl

theorem Elf.scanReloc_record {elf : Elf} {symbols : List Symbol} (mode : Overflow)
    {layout : LmodHeader} {r : Reloc} {x : Scanned} (h : elf.scanReloc symbols r = .ok x) :
    (x.import = none → elf.record symbols layout r = none) ∧
      ∀ i e, x.import = some i → finalEntry mode layout i = .ok e →
        elf.record symbols layout r = some e := by
  have hnothing (hx : x.import = none) (hrecord : elf.record symbols layout r = none) :
      (x.import = none → elf.record symbols layout r = none) ∧
        ∀ i e, x.import = some i → finalEntry mode layout i = .ok e →
          elf.record symbols layout r = some e := by
    refine ⟨fun _ => hrecord, fun i e hi => ?_⟩
    rw [hx] at hi
    cases hi
  unfold scanReloc at h
  by_cases hhint : elf.machine = EM_RISCV ∧ r.type = 51
  · rw [if_pos hhint, pure_eq_ok] at h
    exact hnothing (h ▸ rfl) (if_pos hhint)
  rw [if_neg hhint] at h
  cases hsym : symbols[r.sym]? with
  | none =>
    rw [hsym] at h
    refine hnothing ((pure_eq_ok.mp h) ▸ rfl) ?_
    unfold record
    rw [if_neg hhint, hsym]
  | some sym =>
    rw [hsym] at h
    dsimp only at h
    unfold scanSymbol at h
    by_cases himport : sym.shndx = SHN_UNDEF ∨ (sym.name = [] ∧ r.sym ≠ 0)
    · have hrecord : elf.record symbols layout r = elf.nameRecord layout r sym.name := by
        unfold record
        rw [if_neg hhint, hsym]
        exact if_pos himport
      rw [if_pos himport] at h
      obtain ⟨i, rfl, hname⟩ := scanImport_record mode layout h
      rw [hrecord]
      refine ⟨fun hnone => (by cases hnone), fun j e hj he => ?_⟩
      rw [← Option.some.inj hj] at he
      exact hname e he
    · have hrecord : elf.record symbols layout r = none := by
        unfold record
        rw [if_neg hhint, hsym]
        exact if_neg himport
      rw [if_neg himport] at h
      refine hnothing ?_ hrecord
      by_cases habs : sym.shndx ≠ SHN_ABS
      · rw [if_pos habs] at h
        unfold scanInternal at h
        simp only [bind_eq_ok, pure_eq_ok] at h
        obtain ⟨a, -, rfl⟩ := h
        rfl
      · rw [if_neg habs, pure_eq_ok] at h
        exact h ▸ rfl

namespace Packing

variable {mode : Overflow} {input record out : Bytes} {k : Packing mode input record out}

theorem records_eq (k : Packing mode input record out) :
    k.elf.relocs.filterMap (k.elf.record k.symbols k.layout) = k.entries :=
  filterMap_eq_of_mapM (fun _ _ hx hnone => (Elf.scanReloc_record mode hx).1 hnone)
    (fun _ _ i e hx hi he => (Elf.scanReloc_record mode hx).2 i e hi he)
    (Elf.mapM_scanReloc k.scan) k.finished

theorem packedPart_plain (hs : k.Settled) {p : Part} {i : Nat}
    (hplain : k.elf.Plain k.symbols p i) : (k.packedPart p)[i]? = (p.bytes k.parts)[i]? := by
  have hlen := length_packedPart hs p
  by_cases hin : i < (p.bytes k.parts).length
  · have ho := inOrder hs
    have hstop := ho.stop_le p
    have hpart := slice_packedPart hs p
    have hlaid := slice_part (laid_layout hs)
      (show ((p.offset k.layout).toNat, p.bytes k.parts) ∈ k.parts.placements k.layout from
        placement_mem p)
    rw [← k.laid_eq] at hlaid
    have hbyte : slice out ((p.offset k.layout).toNat + i) ((p.offset k.layout).toNat + i + 1) =
        slice k.laid ((p.offset k.layout).toNat + i) ((p.offset k.layout).toNat + i + 1) := by
      rw [slice_out hs (by omega)]
      refine (steps hs).slice_apart fun r hr => ?_
      obtain ⟨f, hf, rfl⟩ := List.mem_map.mp hr
      obtain ⟨q, hq, hfin, hsite⟩ := site_toNat hs hf
      show Apart _ 1 (f.site k.elf k.layout).toNat (k.elf.siteLen f.type)
      rw [hsite]
      by_cases hsame : p = q
      · subst hsame
        obtain ⟨r, sym, hd, rfl, hnamed⟩ := defines_of_fixup k.scan hf
        have hout := hplain r hd.mem ⟨sym, hd, hnamed⟩ hq
        show Apart _ 1 ((p.offset k.layout).toNat + r.offset.toNat) (k.elf.siteLen r.type)
        unfold Apart
        omega
      · have h := ho.apart hsame
        unfold Apart
        omega
    have hlength := length_out hs
    have htotal := ho.total
    have hsome : (slice out ((p.offset k.layout).toNat + i)
        ((p.offset k.layout).toNat + i + 1)).isSome = true :=
      isSome_slice.mpr ⟨by omega, by omega⟩
    obtain ⟨byte, hout⟩ := Option.isSome_iff_exists.mp hsome
    have hsame : out[(p.offset k.layout).toNat + i]? = k.laid[(p.offset k.layout).toNat + i]? :=
      (getElem?_slice hout Nat.zero_lt_one).trans
        (getElem?_slice (hbyte.symm.trans hout) Nat.zero_lt_one).symm
    exact (getElem?_slice hpart hin).symm.trans (hsame.trans (getElem?_slice hlaid hin))
  · rw [List.getElem?_eq_none (by omega), List.getElem?_eq_none (by omega)]

end Packing

deriving instance DecidableEq for Reloc, Symbol

def sectionHeader (name type : UInt32) (off len : Nat) (link info : UInt32) : Bytes :=
  put32 name ++ put32 type ++ put32 0 ++ put32 0 ++ putLE 4 off ++ putLE 4 len ++ put32 link ++
    put32 info ++ put32 0 ++ put32 0

def objectNames (name : Bytes) : Bytes :=
  0 :: TEXT ++ 0 :: ascii ['.', 'r', 'e', 'l'] ++ 0 :: SYMTAB ++ 0 :: name ++ [0]

/-- An ARM object of a code section, with relocations that all refer to one symbol. -/
def armObject (name : Bytes) (value : UInt32) (shndx : UInt16) (code : Bytes)
    (relocs : List (UInt32 × UInt32)) : Bytes :=
  let table := relocs.flatMap fun (off, type) => put32 off ++ put32 (0x100 ||| type)
  let symbols := List.replicate 16 0 ++ put32 20 ++ put32 value ++ put32 0 ++ [0x12, 0] ++
    put16 shndx
  let tableOff := 52 + code.length
  let symbolsOff := tableOff + table.length
  let namesOff := symbolsOff + symbols.length
  let names := objectNames name
  let headersOff := namesOff + names.length
  [0x7F, 0x45, 0x4C, 0x46, 1, 1, 1, 0] ++ List.replicate 8 0 ++ put16 ET_REL ++ put16 EM_ARM ++
    put32 1 ++ put32 0 ++ put32 0 ++ putLE 4 headersOff ++ put32 0 ++ put16 52 ++ put16 0 ++
    put16 0 ++ put16 40 ++ put16 5 ++ put16 4 ++
    code ++ table ++ symbols ++ names ++
    (List.replicate 40 0 ++ sectionHeader 1 1 52 code.length 0 0 ++
      sectionHeader 7 SHT_REL tableOff table.length 3 1 ++
      sectionHeader 12 SHT_SYMTAB symbolsOff symbols.length 4 1 ++
      sectionHeader 0 3 namesOff names.length 0 0)

def apertureName : Bytes :=
  ascii ['_', '_', 'l', 'a', 'n', 'g', '_', 'a', 'p', 'e', 'r', 't', 'u', 'r', 'e', '_', '7', '_',
    'b', 'a', 's', 'e']

def apertureObject : Bytes := armObject apertureName 0 0 [0, 0, 0, 0] [(0, 2)]

theorem eq_ok_get {ε α : Type} {x : Except ε α} (h : x.toOption.isSome = true) :
    x = .ok (x.toOption.get h) := by
  cases x with
  | error e => cases h
  | ok a => rfl

def apertureElf : Elf := (Elf.parse apertureObject).toOption.get (by decide +kernel)
def apertureParts : Parts := (apertureElf.parts []).toOption.get (by decide +kernel)
def apertureSymbols : List Symbol := apertureElf.symbols.toOption.get (by decide +kernel)
def apertureScan : List Scanned :=
  (apertureElf.scan apertureSymbols).toOption.get (by decide +kernel)
def apertureLayout : LmodHeader :=
  (computeLayout .stops apertureParts.abiHash (apertureParts.lens 1)).get (by decide +kernel)
def apertureLaid : Bytes := (apertureParts.assemble apertureLayout).toOption.get (by decide +kernel)

def apertureContainer : Bytes :=
  (packWithVerifyManifest .stops apertureObject []).toOption.get (by decide +kernel)

def aperturePacking : Packing .stops apertureObject [] apertureContainer where
  elf := apertureElf
  parts := apertureParts
  symbols := apertureSymbols
  scanned := apertureScan
  layout := apertureLayout
  laid := apertureLaid
  resolved := apertureLaid
  entries := [{ siteOff := 72, symHash := 7, kind := MMIO_APERTURE_BASE }]
  parse := eq_ok_get _
  extract := eq_ok_get _
  readSymbols := eq_ok_get _
  scan := eq_ok_get _
  computed := by decide +kernel
  assembled := eq_ok_get _
  fixed := by decide +kernel
  finished := by decide +kernel
  written := by decide +kernel

theorem aperture_packed :
    packWithVerifyManifest .stops apertureObject [] = .ok apertureContainer := eq_ok_get _

attribute [irreducible] apertureElf apertureParts apertureSymbols apertureScan apertureLayout
  apertureLaid apertureContainer

theorem aperture_settled : aperturePacking.Settled where
  fits := by decide +kernel
  inside := by
    intro f hf
    have hnone : aperturePacking.fixups = [] :=
      List.eq_nil_of_length_eq_zero (by decide +kernel)
    rw [hnone] at hf
    cases hf

end Tyu.Pack

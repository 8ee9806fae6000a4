import Tyu.Lib.Rewrites
import Tyu.Loader.Load
import Tyu.Pack.Fields

/-! # References in a loaded module -/

namespace Tyu.Pack

open Lib Lib.Wire Lib.Branch Container

inductive Part where
  | code
  | rodata
  | data
deriving DecidableEq

namespace Part

def ofName (name : Bytes) : Option Part :=
  if name = TEXT then some .code
  else if name = RODATA then some .rodata
  else if name = DATA then some .data
  else none

def bytes (parts : Parts) : Part → Bytes
  | code => parts.code
  | rodata => parts.rodata
  | data => parts.data

def offset (layout : LmodHeader) : Part → UInt32
  | code => layout.codeOff
  | rodata => layout.rodataOff
  | data => layout.dataOff

end Part

namespace Elf

/-- The part that a section becomes.  Only the first section of a name is packed. -/
def part (elf : Elf) (i : Nat) : Option Part := do
  let s ← elf.sections[i]?
  let p ← Part.ofName s.name
  if elf.sections.findIdx? (·.name = s.name) = some i then some p else none

def relocs (elf : Elf) : List Reloc :=
  elf.sections.flatMap fun s =>
    match elf.sectionData s with
    | .ok table => if elf.relocates s then elf.relocsOf s table else []
    | .error _ => []

/-- A reference to a symbol that the object defines.  A RISC-V relaxation hint refers to none. -/
structure Defines (elf : Elf) (symbols : List Symbol) (r : Reloc) (sym : Symbol) : Prop where
  mem : r ∈ elf.relocs
  symbol : symbols[r.sym]? = some sym
  defined : sym.shndx ≠ SHN_UNDEF
  reference : ¬ (elf.machine = EM_RISCV ∧ r.type = 51)

def isLow (elf : Elf) (type : UInt32) : Prop := elf.machine = EM_RISCV ∧ type = 24

instance (elf : Elf) (type : UInt32) : Decidable (elf.isLow type) :=
  inferInstanceAs (Decidable (_ ∧ _))

def siteLen (elf : Elf) (type : UInt32) : Nat :=
  if elf.isLow type then 4 else ((InternalKind.ofType elf.machine type).map InternalKind.len).getD 4

def siteBytes (elf : Elf) (parts : Parts) (r : Reloc) : Option Bytes := do
  let p ← elf.part r.target
  slice (p.bytes parts) r.offset.toNat (r.offset.toNat + elf.siteLen r.type)

end Elf

/-- The addend that a site holds.  That of a Thumb branch leaves out the four bytes that the branch
adds by itself. -/
def InternalKind.stored (kind : InternalKind) (insn : Bytes) : Int :=
  match kind with
  | x86_64_64 => signed 64 (getLE insn)
  | x86_64_pc32 => signed 32 (getLE insn)
  | x86_64_plt32 => signed 32 (getLE insn)
  | abs32 => signed 32 (getLE insn)
  | armRel32 => signed 32 (getLE insn)
  | armThmCall => thumbDisp (halfwords insn).1 (halfwords insn).2 + 4
  | armThmJump24 => thumbDisp (halfwords insn).1 (halfwords insn).2 + 4
  | riscvBranch => branchDisp (getLE insn)
  | riscvJal => jalDisp (getLE insn)
  | riscvPcrelHi20 => upperImm (getLE insn)

namespace Elf

def siteAddend (elf : Elf) (r : Reloc) (insn : Bytes) : Int :=
  if elf.isLow r.type then lowImm (getLE insn)
  else ((InternalKind.ofType elf.machine r.type).map (·.stored insn)).getD 0

/-- The addend of a relocation: a signed number of the class, in the entry or at the site. -/
def addend (elf : Elf) (parts : Parts) (r : Reloc) : Int :=
  match r.explicit with
  | some a => if elf.elfClass = ELFCLASS64 then a.toInt else signed 32 a.toUInt64.toUInt32.toNat
  | none => elf.siteAddend r ((elf.siteBytes parts r).getD [])

structure Pairs (elf : Elf) (symbols : List Symbol) (label : Symbol) (h : Reloc) (sym : Symbol) :
    Prop where
  defines : elf.Defines symbols h sym
  type : h.type = 23
  target : h.target = label.shndx.toNat
  offset : h.offset = label.value

end Elf

structure Image where
  code : Option Region
  rodata : Option Region
  data : Option Region

namespace Image

def region (im : Image) : Part → Option Region
  | .code => im.code
  | .rodata => im.rodata
  | .data => im.data

def place (im : Image) (elf : Elf) (r : Reloc) : Option Nat := do
  let p ← elf.part r.target
  let region ← im.region p
  some (region.base.toNat + r.offset.toNat)

def siteBytes (im : Image) (elf : Elf) (r : Reloc) : Option Bytes := do
  let p ← elf.part r.target
  let region ← im.region p
  slice region.bytes r.offset.toNat (r.offset.toNat + elf.siteLen r.type)

/-- The address of a symbol, plus an addend.  An absolute symbol does not move. -/
def target (im : Image) (elf : Elf) (sym : Symbol) (addend : Int) : Option Int :=
  if sym.shndx = SHN_ABS then some (sym.value.toNat + addend)
  else do
    let p ← elf.part sym.shndx.toNat
    let region ← im.region p
    some (region.base.toNat + sym.value.toNat + addend)

/-- The site of a relocation refers to the address of the symbol plus the addend. -/
def ResolvesOne (im : Image) (elf : Elf) (parts : Parts) (r : Reloc) (sym : Symbol) : Prop :=
  ∃ kind place insn t, InternalKind.ofType elf.machine r.type = some kind ∧
    im.place elf r = some place ∧ im.siteBytes elf r = some insn ∧
    im.target elf sym (elf.addend parts r) = some t ∧ kind.Refers place insn t

/-- The low part at a site and the upper immediate at its label refer to what the latter is to
refer to. -/
def ResolvesPair (im : Image) (elf : Elf) (parts : Parts) (symbols : List Symbol) (r : Reloc)
    (label : Symbol) : Prop :=
  ∃ h sym place hi lo t, elf.Pairs symbols label h sym ∧ im.place elf h = some place ∧
    im.siteBytes elf h = some hi ∧ im.siteBytes elf r = some lo ∧
    im.target elf sym (elf.addend parts h + elf.addend parts r) = some t ∧ PairRefers place hi lo t

/-- Every reference to a symbol that the object defines is right in memory. -/
def Resolves (im : Image) (elf : Elf) (parts : Parts) (symbols : List Symbol) : Prop :=
  ∀ r sym, elf.Defines symbols r sym →
    if elf.isLow r.type then im.ResolvesPair elf parts symbols r sym
    else im.ResolvesOne elf parts r sym

end Image

def Elf.packedAddend (elf : Elf) (r : Reloc) : Int64 :=
  match elf.actualAddend r with
  | .ok a => a
  | .error _ => 0

def Elf.fixup (elf : Elf) (r : Reloc) (sym : Symbol) : Fixup where
  target := r.target
  type := r.type
  offset := r.offset
  symSec := sym.shndx.toNat
  symValue := sym.value
  addend := elf.packedAddend r

def Fixup.value (f : Fixup) (elf : Elf) (layout : LmodHeader) : UInt64 :=
  f.symAddr elf layout + f.addend.toUInt64

namespace Image

def AgreesOne (im : Image) (elf : Elf) (parts : Parts) (layout : LmodHeader) (r : Reloc)
    (sym : Symbol) : Prop :=
  let f := elf.fixup r sym
  ∃ kind place insn t, InternalKind.ofType elf.machine r.type = some kind ∧
    im.place elf r = some place ∧ elf.siteBytes parts r = some insn ∧
    im.target elf sym (elf.addend parts r) = some t ∧
    kind.Agrees (f.value elf layout) (f.site elf layout) insn place t

def AgreesPair (im : Image) (elf : Elf) (parts : Parts) (symbols : List Symbol)
    (layout : LmodHeader) (r : Reloc) (label : Symbol) : Prop :=
  ∃ h sym place t, elf.Pairs symbols label h sym ∧ im.place elf h = some place ∧
    im.target elf sym (elf.addend parts h + elf.addend parts r) = some t ∧
    PairAgrees ((elf.fixup h sym).value elf layout) ((elf.fixup h sym).site elf layout)
      (elf.packedAddend r) place t

/-- For every reference the places in the container and those in memory agree. -/
def Agrees (im : Image) (elf : Elf) (parts : Parts) (symbols : List Symbol)
    (layout : LmodHeader) : Prop :=
  ∀ r sym, elf.Defines symbols r sym →
    if elf.isLow r.type then im.AgreesPair elf parts symbols layout r sym
    else im.AgreesOne elf parts layout r sym

end Image

/-- The regions of a container that was placed and whose imports were bound. -/
def Loads {σ : Type} (b : Build σ) (c : Container) (im : Image) : Prop :=
  ∃ s s' sections map bases code,
    placeSections b c (PlacedLens.fromHeader c.hdr) s = (.ok sections, s') ∧
    applyImportRelocations b.width c map bases sections.code.base (indices c.hdr.relocCount)
      sections.code.bytes = .ok code ∧
    im = { code := some { sections.code with bytes := code }, rodata := sections.rodata
           data := sections.data }

/-! ## Tidy objects -/

def Import.len (i : Import) : Nat := if i.kind = 1 then 8 else 4

def Parts.lengths (p : Parts) (relocCount : Nat) : Lengths where
  encHeader := 0
  modinfo := p.modinfo.length
  code := p.code.length
  rodata := p.rodata.length
  data := p.data.length
  relocCount := relocCount

/-- An object whose container fits, and whose references to its own symbols lie in placed
sections. -/
structure Settled (elf : Elf) (parts : Parts) (imports : List Import) (fixups : List Fixup) :
    Prop where
  fits : (parts.lengths imports.length).total < 2 ^ 32
  inside : ∀ f ∈ fixups, ∃ p, elf.part f.target = some p ∧
    f.offset.toNat + elf.siteLen f.type ≤ (p.bytes parts).length

/-- The references of the object to its own symbols go to named symbols of sections, and their
sites lie apart from each other and from those of the imports. -/
structure Tidy (elf : Elf) (parts : Parts) (symbols : List Symbol) (imports : List Import)
    (fixups : List Fixup) : Prop extends Settled elf parts imports fixups where
  named : ∀ r sym, elf.Defines symbols r sym →
    ¬ (sym.name = [] ∧ r.sym ≠ 0) ∧ sym.shndx ≠ SHN_ABS
  apart : fixups.Pairwise fun f g => elf.part f.target = elf.part g.target →
    Apart f.offset.toNat (elf.siteLen f.type) g.offset.toNat (elf.siteLen g.type)
  imports : ∀ i ∈ imports, ∀ f ∈ fixups, elf.part f.target = some .code →
    Apart f.offset.toNat (elf.siteLen f.type) i.site.toUInt32.toNat i.len

end Tyu.Pack

/-!
## The fixups of an object

The packer's list of fixups holds the references of the object to its own symbols, and
nothing else.
-/

namespace Tyu.Pack

open Lib Lib.Wire Container

variable {elf : Elf} {symbols : List Symbol} {scanned : List Scanned}

namespace Elf

theorem scanSection_eq_ok {s : Section} {part : List Scanned}
    (h : elf.scanSection symbols s = .ok part) {table : Bytes}
    (htable : elf.sectionData s = .ok table) (hrel : elf.relocates s = true) :
    (elf.relocsOf s table).mapM (elf.scanReloc symbols) = .ok part := by
  unfold scanSection at h
  rw [if_pos hrel, htable] at h
  exact h

theorem scan_of_mem (h : elf.scan symbols = .ok scanned) {r : Reloc} (hr : r ∈ elf.relocs) :
    ∃ x ∈ scanned, elf.scanReloc symbols r = .ok x := by
  unfold scan at h
  simp only [bind_eq_ok, pure_eq_ok] at h
  obtain ⟨parts, hparts, rfl⟩ := h
  obtain ⟨s, hs, hmem⟩ := List.mem_flatMap.mp hr
  obtain ⟨part, hpart, hsection⟩ := mapM_of_mem hparts hs
  cases htable : elf.sectionData s with
  | error e =>
    rw [htable] at hmem
    cases hmem
  | ok table =>
    rw [htable] at hmem
    by_cases hrel : elf.relocates s = true
    · simp only [hrel, if_true] at hmem
      obtain ⟨x, hx, hscan⟩ := mapM_of_mem (scanSection_eq_ok hsection htable hrel) hmem
      exact ⟨x, List.mem_flatten.mpr ⟨part, hpart, hx⟩, hscan⟩
    · simp only [hrel] at hmem
      cases hmem

theorem mem_of_scan (h : elf.scan symbols = .ok scanned) {x : Scanned} (hx : x ∈ scanned) :
    ∃ r ∈ elf.relocs, elf.scanReloc symbols r = .ok x := by
  unfold scan at h
  simp only [bind_eq_ok, pure_eq_ok] at h
  obtain ⟨parts, hparts, rfl⟩ := h
  obtain ⟨part, hpart, hx⟩ := List.mem_flatten.mp hx
  obtain ⟨s, hs, hsection⟩ := mapM_eq_ok hparts hpart
  by_cases hrel : elf.relocates s = true
  · have htable : ∃ table, elf.sectionData s = .ok table := by
      unfold scanSection at hsection
      rw [if_pos hrel, bind_eq_ok] at hsection
      obtain ⟨table, htable, -⟩ := hsection
      exact ⟨table, htable⟩
    obtain ⟨table, htable⟩ := htable
    obtain ⟨r, hr, hscan⟩ := mapM_eq_ok (scanSection_eq_ok hsection htable hrel) hx
    refine ⟨r, List.mem_flatMap.mpr ⟨s, hs, ?_⟩, hscan⟩
    rw [htable]
    simp only [hrel, if_true]
    exact hr
  · unfold scanSection at hsection
    rw [if_neg hrel, pure_eq_ok] at hsection
    subst hsection
    cases hx

theorem scanReloc_of_defines {r : Reloc} {sym : Symbol} (hd : elf.Defines symbols r sym)
    (hname : ¬ (sym.name = [] ∧ r.sym ≠ 0)) (habs : sym.shndx ≠ SHN_ABS) {x : Scanned}
    (h : elf.scanReloc symbols r = .ok x) : x = .internal (elf.fixup r sym) := by
  unfold scanReloc at h
  rw [if_neg hd.reference, hd.symbol] at h
  dsimp only at h
  unfold scanSymbol at h
  rw [if_neg (not_or.mpr ⟨hd.defined, hname⟩), if_pos habs] at h
  unfold scanInternal at h
  simp only [bind_eq_ok, pure_eq_ok] at h
  obtain ⟨a, ha, rfl⟩ := h
  unfold fixup packedAddend
  rw [ha]

theorem defines_of_internal {r : Reloc} (hr : r ∈ elf.relocs) {f : Fixup}
    (h : elf.scanReloc symbols r = .ok (.internal f)) :
    ∃ sym, elf.Defines symbols r sym ∧ f = elf.fixup r sym ∧
      ¬ (sym.name = [] ∧ r.sym ≠ 0) ∧ sym.shndx ≠ SHN_ABS := by
  unfold scanReloc at h
  by_cases hhint : elf.machine = EM_RISCV ∧ r.type = 51
  · rw [if_pos hhint] at h
    cases h
  rw [if_neg hhint] at h
  cases hsym : symbols[r.sym]? with
  | none =>
    rw [hsym] at h
    cases h
  | some sym =>
    rw [hsym] at h
    dsimp only at h
    unfold scanSymbol at h
    by_cases himport : sym.shndx = SHN_UNDEF ∨ (sym.name = [] ∧ r.sym ≠ 0)
    · rw [if_pos himport] at h
      unfold scanImport at h
      cases hid : apertureBaseId sym.name with
      | some id =>
        rw [hid] at h
        cases h
      | none =>
        rw [hid] at h
        simp only [bind_eq_ok, pure_eq_ok] at h
        obtain ⟨kind, -, hkind⟩ := h
        cases hkind
    rw [if_neg himport] at h
    by_cases habs : sym.shndx ≠ SHN_ABS
    · rw [if_pos habs] at h
      unfold scanInternal at h
      simp only [bind_eq_ok, pure_eq_ok] at h
      obtain ⟨a, ha, hf⟩ := h
      refine ⟨sym, ⟨hr, hsym, (not_or.mp himport).1, hhint⟩, ?_, (not_or.mp himport).2, habs⟩
      rw [← Scanned.internal.inj hf]
      unfold fixup packedAddend
      rw [ha]
    · rw [if_neg habs] at h
      cases h

end Elf

theorem mem_fixups {f : Fixup} :
    f ∈ scanned.filterMap Scanned.fixup ↔ Scanned.internal f ∈ scanned := by
  rw [List.mem_filterMap]
  constructor
  · rintro ⟨x, hx, hf⟩
    cases x with
    | internal g => rwa [← Option.some.inj hf]
    | skipped => cases hf
    | imported i => cases hf
  · exact fun h => ⟨_, h, rfl⟩

theorem fixup_mem {r : Reloc} {sym : Symbol} (hscan : elf.scan symbols = .ok scanned)
    (hd : elf.Defines symbols r sym) (hname : ¬ (sym.name = [] ∧ r.sym ≠ 0))
    (habs : sym.shndx ≠ SHN_ABS) : elf.fixup r sym ∈ scanned.filterMap Scanned.fixup := by
  obtain ⟨x, hx, hr⟩ := Elf.scan_of_mem hscan hd.mem
  rw [Elf.scanReloc_of_defines hd hname habs hr] at hx
  exact mem_fixups.mpr hx

theorem defines_of_fixup (hscan : elf.scan symbols = .ok scanned) {f : Fixup}
    (hf : f ∈ scanned.filterMap Scanned.fixup) :
    ∃ r sym, elf.Defines symbols r sym ∧ f = elf.fixup r sym ∧
      ¬ (sym.name = [] ∧ r.sym ≠ 0) ∧ sym.shndx ≠ SHN_ABS := by
  obtain ⟨r, hr, hx⟩ := Elf.mem_of_scan hscan (mem_fixups.mp hf)
  obtain ⟨sym, hd, hfix, hnamed⟩ := Elf.defines_of_internal hr hx
  exact ⟨r, sym, hd, hfix, hnamed⟩

end Tyu.Pack

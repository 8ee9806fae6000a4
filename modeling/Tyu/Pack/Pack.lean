import Tyu.Loader.Reloc
import Tyu.Pack.Elf
import Tyu.Loader.ContainerRoundTrip

/-! # Packing an object -/

namespace Tyu.Pack

open Lib Lib.Wire Container

/-!
## Internal relocations

How the packer resolves a reference inside the object: it computes with the places that
the sections have in the container, as if the container were the image that runs.
-/

def siteWord (insn : Bytes) : UInt32 := (u32At insn 0).getD 0

/-- The upper immediate, rounded so that a signed low part makes up the rest. -/
def encodeRiscvHi20 (insn : Bytes) (value : Int64) : Bytes :=
  let hi20 := ((value + 0x800) >>> 12).toUInt64.toUInt32 &&& 0xFFFFF
  put32 ((siteWord insn &&& (0xFFF : UInt32)) ||| hi20 <<< 12)

def encodeRiscvLo12I (insn : Bytes) (value : Int64) : Bytes :=
  let lo12 := value.toUInt64.toUInt32 &&& 0xFFF
  put32 ((siteWord insn &&& (0xFFFFF : UInt32)) ||| lo12 <<< 20)

def encodeRiscvJal (insn : Bytes) (offset : Int64) : Option Bytes :=
  if offset &&& 1 ≠ 0 ∨ offset < -0x100000 ∨ offset > 0xFFFFF then none
  else
    let imm := offset.toUInt64.toUInt32
    some (put32 ((siteWord insn &&& (0xFFF : UInt32)) ||| (imm &&& 0x100000) <<< 11 |||
      (imm &&& 0x7FE) <<< 20 ||| (imm &&& 0x800) <<< 9 ||| (imm &&& 0xFF000)))

def encodeRiscvBranch (insn : Bytes) (offset : Int64) : Option Bytes :=
  if offset &&& 1 ≠ 0 ∨ offset < -0x1000 ∨ offset > 0xFFE then none
  else
    let imm := offset.toUInt64.toUInt32
    some (put32 ((siteWord insn &&& (0x01FFF07F : UInt32)) ||| (imm &&& 0x1000) <<< 19 |||
      (imm &&& 0x7E0) <<< 20 ||| (imm &&& 0x1E) <<< 7 ||| (imm &&& 0x800) >>> 4))

inductive InternalKind where
  | x86_64_64
  | x86_64_pc32
  | x86_64_plt32
  | abs32
  | armRel32
  | armThmCall
  | armThmJump24
  | riscvBranch
  | riscvJal
  | riscvPcrelHi20
deriving DecidableEq

namespace InternalKind

def ofType (machine : UInt16) (type : UInt32) : Option InternalKind :=
  if machine = EM_X86_64 ∧ type = 1 then some .x86_64_64
  else if machine = EM_X86_64 ∧ type = 2 then some .x86_64_pc32
  else if machine = EM_X86_64 ∧ type = 3 then some .x86_64_plt32
  else if machine = EM_ARM ∧ type = 2 ∨ machine = EM_RISCV ∧ type = 1 then some .abs32
  else if machine = EM_ARM ∧ type = 3 then some .armRel32
  else if machine = EM_ARM ∧ type = 10 then some .armThmCall
  else if machine = EM_ARM ∧ type = 30 then some .armThmJump24
  else if machine = EM_RISCV ∧ type = 16 then some .riscvBranch
  else if machine = EM_RISCV ∧ type = 17 then some .riscvJal
  else if machine = EM_RISCV ∧ type = 23 then some .riscvPcrelHi20
  else none

def name : InternalKind → String
  | x86_64_64 => "R_X86_64_64"
  | x86_64_pc32 => "R_X86_64_PC32"
  | x86_64_plt32 => "R_X86_64_PLT32"
  | abs32 => "ABS32"
  | armRel32 => "R_ARM_REL32"
  | armThmCall => "R_ARM_THM_CALL"
  | armThmJump24 => "R_ARM_THM_JUMP24"
  | riscvBranch => "R_RISCV_BRANCH"
  | riscvJal => "R_RISCV_JAL"
  | riscvPcrelHi20 => "R_RISCV_PCREL_HI20"

def len : InternalKind → Nat
  | x86_64_64 => 8
  | _ => 4

/-- A Thumb branch to `value`, with the link bit of the site. -/
def encodeThumb (value site : UInt64) (insn : Bytes) : Option Bytes :=
  encodeBranch insn ((value &&& ~~~1) - site - 4).toInt64 none

/-- The new bytes of a site for the address `value`. -/
def encode (kind : InternalKind) (value site : UInt64) (insn : Bytes) : Option Bytes :=
  match kind with
  | x86_64_64 => some (put64 value)
  | x86_64_pc32 => some (put32 (value - site).toUInt32)
  | x86_64_plt32 => some (put32 (value - site).toUInt32)
  | abs32 => some (put32 value.toUInt32)
  | armRel32 => some (put32 (value - site).toUInt32)
  | armThmCall => encodeThumb value site insn
  | armThmJump24 => encodeThumb value site insn
  | riscvBranch => encodeRiscvBranch insn (value - site).toInt64
  | riscvJal => encodeRiscvJal insn (value - site).toInt64
  | riscvPcrelHi20 => some (encodeRiscvHi20 insn (value - site).toInt64)

end InternalKind

/-- The `n` bytes at a site, written over by what `encode` makes of them. -/
def patchAt (name : String) (site : UInt64) (n : Nat) (refused : PackError)
    (encode : Bytes → Option Bytes) (out : Bytes) : Except PackStop Bytes := do
  let stop := usize host (site.toNat + n)
  require (¬ stop > out.length) (.error (.relocSiteOutOfRange site.toNat name))
  let insn ← expect (slice out site.toNat stop) .panic
  let new ← expect (encode insn) (.error refused)
  pure (patch out site.toNat new)

def applyInternalReloc (machine : UInt16) (type : UInt32) (offset symValue siteBase : UInt64)
    (addend : Int64) (out : Bytes) : Except PackStop Bytes :=
  let site := siteBase + offset
  if machine = EM_RISCV ∧ type = 51 then pure out
  else
    match InternalKind.ofType machine type with
    | none => .error (.error (.unsupportedInternalReloc type))
    | some kind =>
      patchAt kind.name site kind.len (.unsupportedInternalReloc type)
        (kind.encode (symValue + addend.toUInt64) site) out

/-- The low part that goes with the upper immediate at `hiSite`. -/
def applyRiscvPcrelLo12I (site hiSite hiTarget : UInt64) (addend : Int64) (out : Bytes) :
    Except PackStop Bytes :=
  patchAt "R_RISCV_PCREL_LO12_I" site 4 (.unsupportedInternalReloc 24)
    (fun insn => some (encodeRiscvLo12I insn (hiTarget + addend.toUInt64 - hiSite).toInt64)) out

def importRelocKind (machine : UInt16) (type : UInt32) : Option UInt8 :=
  if machine = EM_X86_64 ∧ type = 1 then some R_X86_64_64
  else if machine = EM_X86_64 ∧ type = 2 then some R_X86_64_PC32
  else if machine = EM_X86_64 ∧ type = 3 then some R_X86_64_PLT32
  else if machine = EM_ARM ∧ type = 2 then some R_ARM_ABS32
  else if machine = EM_ARM ∧ type = 3 then some R_ARM_REL32
  else if machine = EM_ARM ∧ type = 10 then some R_ARM_THM_CALL
  else if machine = EM_ARM ∧ type = 30 then some R_ARM_THM_JUMP24
  else if machine = EM_RISCV ∧ type = 1 then some R_RISCV_32
  else if machine = EM_RISCV ∧ 17 ≤ type ∧ type ≤ 19 then some R_RISCV_CALL
  else none

def isDigit (b : UInt8) : Bool := 0x30 ≤ b ∧ b ≤ 0x39

def stripPrefix (pre bs : Bytes) : Option Bytes :=
  if bs.take pre.length = pre then some (bs.drop pre.length) else none

def stripSuffix (post bs : Bytes) : Option Bytes :=
  (stripPrefix post.reverse bs.reverse).map List.reverse

def pushDigit (id : UInt16) (b : UInt8) : Option UInt16 :=
  let n := id.toNat * 10 + (b - 0x30).toNat
  if isDigit b ∧ n < 2 ^ 16 then some (UInt16.ofNat n) else none

/-- The aperture of a name `__lang_aperture_{N}_base`. -/
def apertureBaseId (name : Bytes) : Option UInt16 := do
  let name ← stripPrefix (ascii ['_', '_', 'l', 'a', 'n', 'g', '_', 'a', 'p', 'e', 'r', 't', 'u',
    'r', 'e', '_']) name
  let digits ← stripSuffix (ascii ['_', 'b', 'a', 's', 'e']) name
  if digits.isEmpty then none else digits.foldlM pushDigit 0

def hexDigit (b : UInt8) : Option UInt64 :=
  if isDigit b then some (b - 0x30).toUInt64
  else if 0x61 ≤ b ∧ b ≤ 0x66 then some (b - 0x61 + 10).toUInt64
  else if 0x41 ≤ b ∧ b ≤ 0x46 then some (b - 0x41 + 10).toUInt64
  else none

/-- The hash in a name `w_` with sixteen hexadecimal digits. -/
def parseMangledWordHash (name : Bytes) : Option UInt64 := do
  let hex ← stripPrefix (ascii ['w', '_']) name
  if hex.length ≠ 16 then none
  else hex.foldlM (fun out b => (hexDigit b).map (out <<< 4 ||| ·)) 0

def linkedSymbolHash (name : Bytes) : UInt64 :=
  (parseMangledWordHash name).getD (fnv1aU64 name)

/-!
## Packing an object

The packer sorts the relocations of an object into imports, which the loader binds, and
fixups, which it resolves itself.  It lays the container out, copies the sections, applies
the fixups to the container and writes the table of imports.
-/

/-! ## Sorting the relocations -/

structure Fixup where
  target : Nat
  type : UInt32
  offset : UInt64
  symSec : Nat
  symValue : UInt64
  addend : Int64

/-- A reference that the loader resolves; `site` is relative to the code. -/
structure Import where
  site : UInt64
  symHash : UInt64
  kind : UInt8

inductive Scanned where
  | skipped
  | imported (i : Import)
  | internal (f : Fixup)

namespace Elf

/-- The addend of an entry that has none of its own: for one type the word at the site. -/
def storedAddend (elf : Elf) (r : Reloc) : Except PackStop Int64 := do
  let s ← expect elf.sections[r.target]? .panic
  let data ← elf.sectionData s
  let site := r.offset.toNat
  pure (if r.type = 2 ∧ usize host (site + 4) ≤ data.length then
    (leU32 data site).toInt32.toInt64 else 0)

def actualAddend (elf : Elf) (r : Reloc) : Except PackStop Int64 :=
  match r.explicit with
  | some a => pure a
  | none => elf.storedAddend r

def scanImport (elf : Elf) (r : Reloc) (name : Bytes) : Except PackStop Scanned :=
  let site := elf.lmodSectionBase r.target {} + r.offset
  match apertureBaseId name with
  | some id => pure (.imported { site, symHash := id.toUInt64, kind := MMIO_APERTURE_BASE })
  | none => do
    let kind ← expect (importRelocKind elf.machine r.type)
      (.error (.unsupportedInternalReloc r.type))
    pure (.imported { site, symHash := linkedSymbolHash name, kind })

def scanInternal (elf : Elf) (r : Reloc) (sym : Symbol) : Except PackStop Scanned := do
  let addend ← elf.actualAddend r
  pure (.internal {
    target := r.target
    type := r.type
    offset := r.offset
    symSec := sym.shndx.toNat
    symValue := sym.value
    addend })

def scanSymbol (elf : Elf) (r : Reloc) (sym : Symbol) : Except PackStop Scanned :=
  if sym.shndx = SHN_UNDEF ∨ (sym.name = [] ∧ r.sym ≠ 0) then elf.scanImport r sym.name
  else if sym.shndx ≠ SHN_ABS then elf.scanInternal r sym
  else pure .skipped

def scanReloc (elf : Elf) (symbols : List Symbol) (r : Reloc) : Except PackStop Scanned :=
  if elf.machine = EM_RISCV ∧ r.type = 51 then pure .skipped
  else
    match symbols[r.sym]? with
    | none => pure .skipped
    | some sym => elf.scanSymbol r sym

/-- Whether the entries of a section are relocations of a section of the object. -/
def relocates (elf : Elf) (s : Section) : Bool :=
  (s.type = SHT_RELA ∨ s.type = SHT_REL) ∧ s.info.toNat < elf.sections.length

def scanSection (elf : Elf) (symbols : List Symbol) (s : Section) :
    Except PackStop (List Scanned) :=
  if elf.relocates s then do
    let table ← elf.sectionData s
    (elf.relocsOf s table).mapM (elf.scanReloc symbols)
  else pure []

def scan (elf : Elf) (symbols : List Symbol) : Except PackStop (List Scanned) := do
  let parts ← elf.sections.mapM (elf.scanSection symbols)
  pure parts.flatten

end Elf

def Scanned.fixup : Scanned → Option Fixup
  | .internal f => some f
  | _ => none

def Scanned.import : Scanned → Option Import
  | .imported i => some i
  | _ => none

namespace Fixup

def site (f : Fixup) (elf : Elf) (layout : LmodHeader) : UInt64 :=
  elf.lmodSectionBase f.target layout + f.offset

def symAddr (f : Fixup) (elf : Elf) (layout : LmodHeader) : UInt64 :=
  elf.lmodSectionBase f.symSec layout + f.symValue

end Fixup

/-- The sites of the upper immediates, each with the place that it refers to. -/
def hiTargets (elf : Elf) (layout : LmodHeader) (fixups : List Fixup) : List (UInt64 × UInt64) :=
  if elf.machine = EM_RISCV then
    (fixups.filter (·.type = 23)).map fun f =>
      (f.site elf layout, f.symAddr elf layout + f.addend.toUInt64)
  else []

def hiTargetAt (his : List (UInt64 × UInt64)) (site : UInt64) : Option UInt64 :=
  (his.find? (·.1 = site)).map (·.2)

def resolve (elf : Elf) (layout : LmodHeader) (his : List (UInt64 × UInt64)) (out : Bytes)
    (f : Fixup) : Except PackStop Bytes :=
  let symAddr := f.symAddr elf layout
  if elf.machine = EM_RISCV ∧ f.type = 24 then do
    let hiTarget ← expect (hiTargetAt his symAddr) (.error (.unsupportedInternalReloc f.type))
    applyRiscvPcrelLo12I (f.site elf layout) symAddr hiTarget f.addend out
  else
    applyInternalReloc elf.machine f.type f.offset symAddr (elf.lmodSectionBase f.target layout)
      f.addend out

/-- `copy_from_slice` into a range of the buffer. -/
def copyInto (off : Nat) (bytes out : Bytes) : Except PackStop Bytes := do
  require (off + bytes.length ≤ out.length) .panic
  pure (patch out off bytes)

def copySection (off : UInt32) (bytes out : Bytes) : Except PackStop Bytes :=
  if bytes.isEmpty then pure out else copyInto off.toNat bytes out

def finalEntry (mode : Overflow) (layout : LmodHeader) (i : Import) :
    Except PackStop RelocEntry := do
  let siteOff ← expect (addU32 mode i.site.toUInt32 layout.codeOff) .panic
  pure { siteOff, symHash := i.symHash, kind := i.kind }

def writeEntries : Nat → List RelocEntry → Bytes → Except PackStop Bytes
  | _, [], out => pure out
  | off, e :: es, out => do
    let out ← copyInto off (entryBytes e) out
    writeEntries (off + RELOC_ENTRY_SIZE) es out

def verifyModinfo (layout : LmodHeader) (modinfo out : Bytes) : Except PackStop Unit :=
  if modinfo.isEmpty then pure ()
  else do
    let written ← expect (slice out layout.modinfoOff.toNat
      (layout.modinfoOff.toNat + modinfo.length)) .panic
    require (written = modinfo) (.error .modinfoCorruption)

structure Parts where
  modinfo : Bytes
  code : Bytes
  rodata : Bytes
  data : Bytes

/-- The data that is packed; the verification record follows the module information. -/
def Elf.parts (elf : Elf) (record : Bytes) : Except PackStop Parts := do
  let modinfo ← elf.namedData MODINFO
  let code ← elf.namedData TEXT
  let rodata ← elf.namedData RODATA
  let data ← elf.namedData DATA
  pure { modinfo := modinfo ++ record, code, rodata, data }

namespace Parts

def abiHash (p : Parts) : UInt64 := if p.modinfo.length ≥ 16 then leU64 p.modinfo 8 else 0

def lens (p : Parts) (relocCount : Nat) : SectionLens where
  encHeader := 0
  modinfo := UInt32.ofNat p.modinfo.length
  code := UInt32.ofNat p.code.length
  rodata := UInt32.ofNat p.rodata.length
  data := UInt32.ofNat p.data.length
  bss := 0
  relocCount := UInt32.ofNat relocCount

def assemble (p : Parts) (layout : LmodHeader) : Except PackStop Bytes := do
  let out ← copyInto 0 (headerBytes layout) (List.replicate layout.totalLen.toNat 0)
  let out ← copySection layout.modinfoOff p.modinfo out
  let out ← copySection layout.codeOff p.code out
  let out ← copySection layout.rodataOff p.rodata out
  copySection layout.dataOff p.data out

end Parts

def packWithVerifyManifest (mode : Overflow) (input record : Bytes) : Except PackStop Bytes := do
  let elf ← Elf.parse input
  let parts ← elf.parts record
  let symbols ← elf.symbols
  let scanned ← elf.scan symbols
  let imports := scanned.filterMap Scanned.import
  let fixups := scanned.filterMap Scanned.fixup
  let layout ← expect (computeLayout mode parts.abiHash (parts.lens imports.length)) .panic
  let out ← parts.assemble layout
  let out ← fixups.foldlM (resolve elf layout (hiTargets elf layout fixups)) out
  let entries ← imports.mapM (finalEntry mode layout)
  let out ← writeEntries layout.relocOff.toNat entries out
  verifyModinfo layout parts.modinfo out
  pure out

def pack (mode : Overflow) (input : Bytes) : Except PackStop Bytes :=
  packWithVerifyManifest mode input []

end Tyu.Pack

import Tyu.Loader.Container

/-! # Relocatable objects -/

namespace Tyu.Pack

open Lib Lib.Wire Container

inductive PackError where
  | tooSmall
  | badMagic
  | unsupportedClass (c : UInt8)
  | notLittleEndian
  | notRelocatable
  | shentsizeMismatch (expected actual : Nat)
  | sectionHeadersOverflow
  | relocSiteOutOfRange (site : Nat) (kind : String)
  | unsupportedInternalReloc (type : UInt32)
  | modinfoCorruption
deriving DecidableEq

inductive PackStop where
  | error (e : PackError)
  | panic
deriving DecidableEq

def ELFCLASS32 : UInt8 := 1
def ELFCLASS64 : UInt8 := 2
def ELFDATA2LSB : UInt8 := 1
def ET_REL : UInt16 := 1
def EM_ARM : UInt16 := 40
def EM_X86_64 : UInt16 := 62
def EM_RISCV : UInt16 := 243
def SHT_RELA : UInt32 := 4
def SHT_REL : UInt32 := 9
def SHT_SYMTAB : UInt32 := 2
def SHN_UNDEF : UInt16 := 0
def SHN_ABS : UInt16 := 0xFFF1

def ascii (cs : List Char) : Bytes := cs.map fun c => UInt8.ofNat c.toNat

def TEXT : Bytes := ascii ['.', 't', 'e', 'x', 't']
def RODATA : Bytes := ascii ['.', 'r', 'o', 'd', 'a', 't', 'a']
def DATA : Bytes := ascii ['.', 'd', 'a', 't', 'a']
def SYMTAB : Bytes := ascii ['.', 's', 'y', 'm', 't', 'a', 'b']
def MODINFO : Bytes := ascii ['.', 'l', 'a', 'n', 'g', '.', 'm', 'o', 'd', 'i', 'n', 'f', 'o']

def host : PtrWidth := .w64

/-- The number of `n` bytes at `off`, zero where they are not there. -/
def leAt (data : Bytes) (off n : Nat) : Nat :=
  ((slice data off (usize host (off + n))).map getLE).getD 0

def leU16 (data : Bytes) (off : Nat) : UInt16 := UInt16.ofNat (leAt data off 2)
def leU32 (data : Bytes) (off : Nat) : UInt32 := UInt32.ofNat (leAt data off 4)
def leU64 (data : Bytes) (off : Nat) : UInt64 := UInt64.ofNat (leAt data off 8)

def isContinuation (b : UInt8) : Bool := b &&& 0xC0 = 0x80

/-- What the bytes behind the first one of a sequence must be; `none` where no sequence
starts. -/
def sequenceTail (b : UInt8) : Option (List (UInt8 → Bool)) :=
  if b < 0x80 then some []
  else if 0xC2 ≤ b ∧ b ≤ 0xDF then some [isContinuation]
  else if b = 0xE0 then some [fun c => 0xA0 ≤ c ∧ c ≤ 0xBF, isContinuation]
  else if b = 0xED then some [fun c => 0x80 ≤ c ∧ c ≤ 0x9F, isContinuation]
  else if 0xE1 ≤ b ∧ b ≤ 0xEF then some [isContinuation, isContinuation]
  else if b = 0xF0 then some [fun c => 0x90 ≤ c ∧ c ≤ 0xBF, isContinuation, isContinuation]
  else if 0xF1 ≤ b ∧ b ≤ 0xF3 then some [isContinuation, isContinuation, isContinuation]
  else if b = 0xF4 then some [fun c => 0x80 ≤ c ∧ c ≤ 0x8F, isContinuation, isContinuation]
  else none

def matchedTail : List (UInt8 → Bool) → Bytes → Nat
  | ok :: oks, b :: bs => if ok b then matchedTail oks bs + 1 else 0
  | _, _ => 0

/-- What is kept of a sequence that starts with `b`, and how many more bytes it takes up.  One
that is broken off is replaced by U+FFFD. -/
def lossySequence (b : UInt8) (rest : Bytes) : Bytes × Nat :=
  match sequenceTail b with
  | none => ([0xEF, 0xBF, 0xBD], 0)
  | some tail =>
    let n := matchedTail tail rest
    if n = tail.length then (b :: rest.take n, n) else ([0xEF, 0xBF, 0xBD], n)

/-- `String::from_utf8_lossy`, as the bytes of the text; the number bounds the length. -/
def lossyText : Nat → Bytes → Bytes
  | 0, _ => []
  | _ + 1, [] => []
  | n + 1, b :: rest =>
    let (kept, more) := lossySequence b rest
    kept ++ lossyText n (rest.drop more)

def fromUtf8Lossy (bs : Bytes) : Bytes := lossyText bs.length bs

def nameAt (table : Bytes) (off : Nat) : Bytes :=
  if off < table.length then fromUtf8Lossy ((table.drop off).takeWhile (· ≠ 0)) else []

/-! ## Sections -/

structure Section where
  name : Bytes
  type : UInt32
  offset : UInt64
  size : UInt64
  link : UInt32
  info : UInt32
  entsize : UInt64

structure Symbol where
  shndx : UInt16
  value : UInt64
  name : Bytes

structure Reloc where
  /-- The section of the site. -/
  target : Nat
  offset : UInt64
  sym : Nat
  type : UInt32
  /-- The addend of the entry; entries without one keep it at the site. -/
  explicit : Option Int64

structure Elf where
  data : Bytes
  elfClass : UInt8
  machine : UInt16
  sections : List Section
  strtab : Bytes

/-- The bytes of a section; none are there where it reaches past the object. -/
def sectionBytes (data : Bytes) (s : Section) : Except PackStop Bytes :=
  let stop := usize host (s.offset.toNat + s.size.toNat)
  if stop > data.length ∨ s.offset.toNat > data.length then pure []
  else expect (slice data s.offset.toNat stop) .panic

structure SectionTable where
  off : Nat
  entsize : Nat
  count : Nat
  names : Nat
  /-- The size that an entry has to have. -/
  size : Nat

def readSectionTable (data : Bytes) (elfClass : UInt8) : SectionTable :=
  if elfClass = ELFCLASS64 then
    { off := (leU64 data 40).toNat
      entsize := (leU16 data 58).toNat
      count := (leU16 data 60).toNat
      names := (leU16 data 62).toNat
      size := 64 }
  else
    { off := (leU32 data 0x20).toNat
      entsize := (leU16 data 0x2E).toNat
      count := (leU16 data 0x30).toNat
      names := (leU16 data 0x32).toNat
      size := 40 }

def SectionTable.at (t : SectionTable) (i : Nat) : Nat := usize host (t.off + i * t.size)

def readSection (data : Bytes) (elfClass : UInt8) (b : Nat) : Section :=
  let field := fun i => usize host (b + i)
  if elfClass = ELFCLASS64 then
    { name := []
      type := leU32 data (field 4)
      offset := leU64 data (field 24)
      size := leU64 data (field 32)
      link := leU32 data (field 40)
      info := leU32 data (field 44)
      entsize := leU64 data (field 56) }
  else
    { name := []
      type := leU32 data (field 4)
      offset := (leU32 data (field 16)).toUInt64
      size := (leU32 data (field 20)).toUInt64
      link := leU32 data (field 24)
      info := leU32 data (field 28)
      entsize := (leU32 data (field 36)).toUInt64 }

def sectionNames (data : Bytes) (sections : List Section) (i : Nat) : Except PackStop Bytes := do
  let s ← expect sections[i]? (.error .badMagic)
  let stop := usize host (s.offset.toNat + s.size.toNat)
  require (¬ (stop > data.length ∨ s.offset.toNat > data.length)) (.error .badMagic)
  expect (slice data s.offset.toNat stop) .panic

def symbolNames (data : Bytes) (sections : List Section) : Except PackStop Bytes :=
  match sections.find? (·.type = SHT_SYMTAB) with
  | none => pure []
  | some st =>
    match sections[st.link.toNat]? with
    | none => pure []
    | some s => sectionBytes data s

def namedSection (data names : Bytes) (table : SectionTable) (s : Section) (i : Nat) : Section :=
  { s with name := nameAt names (leU32 data (table.at i)).toNat }

namespace Elf

def parse (data : Bytes) : Except PackStop Elf := do
  require (¬ data.length < 64) (.error .tooSmall)
  require (data.take 4 = [0x7F, 0x45, 0x4C, 0x46]) (.error .badMagic)
  let elfClass := data.getD 4 0
  require (¬ (elfClass ≠ ELFCLASS32 ∧ elfClass ≠ ELFCLASS64)) (.error (.unsupportedClass elfClass))
  require (data.getD 5 0 = ELFDATA2LSB) (.error .notLittleEndian)
  require (leU16 data 16 = ET_REL) (.error .notRelocatable)
  let machine := leU16 data 18
  let table := readSectionTable data elfClass
  require (table.entsize = table.size) (.error (.shentsizeMismatch table.entsize table.size))
  require (¬ usize host (table.off + table.count * table.size) > data.length)
    (.error .sectionHeadersOverflow)
  let sections := (List.range table.count).map fun i => readSection data elfClass (table.at i)
  let names ← sectionNames data sections table.names
  let sections := sections.mapIdx fun i s => namedSection data names table s i
  let strtab ← symbolNames data sections
  pure { data, elfClass, machine, sections, strtab }

def sectionByName (elf : Elf) (name : Bytes) : Option Section :=
  elf.sections.find? (·.name = name)

def sectionData (elf : Elf) (s : Section) : Except PackStop Bytes := sectionBytes elf.data s

def namedData (elf : Elf) (name : Bytes) : Except PackStop Bytes :=
  match elf.sectionByName name with
  | none => pure []
  | some s => elf.sectionData s

def positions (len entsize : Nat) : List Nat := (List.range (len / entsize)).map (· * entsize)

def readSymbol (elf : Elf) (table : Bytes) (pos : Nat) : Symbol :=
  let name := nameAt elf.strtab (leU32 table pos).toNat
  if elf.elfClass = ELFCLASS64 then
    { shndx := leU16 table (pos + 6), value := leU64 table (pos + 8), name }
  else { shndx := leU16 table (pos + 14), value := (leU32 table (pos + 4)).toUInt64, name }

/-- The size of the entries of a table: the recorded one, or the usual one. -/
def entrySize (s : Section) (usual : Nat) : Nat :=
  if s.entsize ≠ 0 then s.entsize.toNat else usual

def symbols (elf : Elf) : Except PackStop (List Symbol) :=
  match elf.sectionByName SYMTAB with
  | none => pure []
  | some st => do
    let table ← elf.sectionData st
    let usual := if elf.elfClass = ELFCLASS64 then 24 else 16
    pure ((positions table.length (entrySize st usual)).map (elf.readSymbol table))

/-- The place of a section in a container; zero for one that is not placed. -/
def lmodSectionBase (elf : Elf) (i : Nat) (layout : LmodHeader) : UInt64 :=
  match elf.sections[i]? with
  | none => 0
  | some s =>
    if s.name = TEXT then layout.codeOff.toUInt64
    else if s.name = RODATA then layout.rodataOff.toUInt64
    else if s.name = DATA then layout.dataOff.toUInt64
    else 0

def relocEntrySize (elf : Elf) (isRela : Bool) : Nat :=
  if elf.elfClass = ELFCLASS64 then 24 else if isRela then 12 else 8

def readReloc (elf : Elf) (target : Nat) (isRela : Bool) (table : Bytes) (pos : Nat) : Reloc :=
  if elf.elfClass = ELFCLASS64 then
    let info := leU64 table (pos + 8)
    { target
      offset := leU64 table pos
      sym := (info >>> 32).toNat
      type := info.toUInt32
      explicit := if isRela then some (leU64 table (pos + 16)).toInt64 else none }
  else
    let info := leU32 table (pos + 4)
    { target
      offset := (leU32 table pos).toUInt64
      sym := (info >>> 8).toNat
      type := info &&& 0xFF
      explicit := if isRela then some (leU32 table (pos + 8)).toUInt64.toInt64 else none }

def relocsOf (elf : Elf) (s : Section) (table : Bytes) : List Reloc :=
  let isRela := decide (s.type = SHT_RELA)
  (positions table.length (entrySize s (elf.relocEntrySize isRela))).map
    (elf.readReloc s.info.toNat isRela table)

end Elf

end Tyu.Pack

import Tyu.Lower.ResolveSite
import Tyu.Verifier.Interp

/-! # What the lowering reads -/

namespace Tyu.Irgen

inductive TokenKind where
  | eof
  | ident | number | string | kwPerforms
  | lParen | rParen | lBracket | rBracket | lBrace | rBrace
  | comma | dot | ge | le | eqEq | ne
  | arrow | arrowBind | lessPipe | pipeGreater | apostrophe
  | amp | ampBang | ampLBracket | ampBangLBracket
  /-- a keyword or a mark that means nothing in a body -/
  | other
deriving DecidableEq

structure Token where
  kind : TokenKind
  text : String
  span : Span

/-- Token positions from `start` up to and without `stop`. -/
structure Range where
  start : Nat
  stop : Nat
deriving DecidableEq

def Range.inner (r : Range) : Range := ⟨r.start + 1, r.stop - 1⟩

abbrev Cursor := Range

structure Source where
  tokens : List Token

namespace Source

variable (src : Source)

/-- The token at a position; past the last one there is only the end of the file. -/
def tokenAt (i : Nat) : Token := src.tokens.getD i ⟨.eof, "", .UNKNOWN⟩

def next (lex : Cursor) : Token × Cursor :=
  if lex.start < lex.stop then (src.tokenAt lex.start, { lex with start := lex.start + 1 })
  else (⟨.eof, "", ⟨(src.tokenAt (lex.stop - 1)).span.stop, (src.tokenAt (lex.stop - 1)).span.stop⟩⟩,
    lex)

/-- Read up to the mark that closes the one already read: the cursor after it. -/
def skipBalanced (opens : TokenKind → Bool) (closer : TokenKind) : Nat → Nat → Cursor → Option Cursor
  | 0, _, _ => none
  | fuel + 1, depth, lex =>
    let (t, lex) := src.next lex
    if t.kind = .eof then none
    else if t.kind = closer then
      if depth = 1 then some lex else skipBalanced opens closer fuel (depth - 1) lex
    else skipBalanced opens closer fuel (if opens t.kind then depth + 1 else depth) lex

def captureBalanced (opener closer : TokenKind) (lex : Cursor) : Option (Range × Cursor) :=
  (src.skipBalanced (fun k => k == opener) closer (lex.stop - lex.start) 1 lex).map fun after =>
    (⟨lex.start - 1, after.start⟩, after)

def captureScopedBlock (lex : Cursor) : Option (Range × Cursor) :=
  (src.skipBalanced (fun k => k == .lBracket || k == .ampLBracket || k == .ampBangLBracket)
    .rBracket (lex.stop - lex.start) 1 lex).map fun after =>
    (⟨lex.start, after.start - 1⟩, after)

/-- Extend a name by the segments `.ident` that follow it, up to 64 bytes. -/
def extendName : Nat → String → Cursor → String × Cursor
  | 0, name, lex => (name, lex)
  | fuel + 1, name, lex =>
    let (dot, lex₁) := src.next lex
    if dot.kind = .dot then
      let (seg, lex₂) := src.next lex₁
      if seg.kind = .ident then
        if name.utf8ByteSize + 1 + seg.text.utf8ByteSize ≤ 64 then
          extendName fuel (name ++ "." ++ seg.text) lex₂
        else (name, lex)
      else (name, lex)
    else (name, lex)

/-- The qualified name that starts with the token `first` before the cursor. -/
def readQualifiedName (first : Token) (lex : Cursor) : String × Cursor :=
  if first.text.utf8ByteSize ≤ 64 then src.extendName (lex.stop - lex.start) first.text lex
  else (first.text, lex)

def segments : Nat → List Token → Cursor → List (List Token)
  | 0, seg, _ => [seg.reverse]
  | fuel + 1, seg, lex =>
    let (t, lex) := src.next lex
    if t.kind = .eof then [seg.reverse]
    else if t.kind = .comma then seg.reverse :: segments fuel [] lex
    else segments fuel (t :: seg) lex

end Source

/-- The text of adjacent tokens; a blank between two of them makes it no name. -/
def gluedText : List Token → Option String
  | [] => none
  | [t] => some t.text
  | t :: u :: rest =>
    if t.span.stop = u.span.start then (gluedText (u :: rest)).map fun s => t.text ++ s else none

/-- The predicate names that a clause declares: the segments that are one name. -/
def contractPredicateNames (src : Source) (clause : Range) : List String :=
  if clause.stop ≤ clause.start + 2 then []
  else (src.segments (clause.stop - clause.start) [] clause.inner).filterMap fun seg =>
    (gluedText seg).filter fun s => s.utf8ByteSize ≤ 32

def spacedText : List Token → String
  | [] => ""
  | [t] => t.text
  | t :: u :: rest =>
    t.text ++ String.ofList (List.replicate (u.span.start - t.span.stop) ' ') ++ spacedText (u :: rest)

def Source.textOf (src : Source) (r : Range) : String :=
  spacedText ((src.tokens.drop r.start).take (r.stop - r.start))

/-- The value of a digit, hexadecimal ones when `hex`. -/
def digitVal (hex : Bool) (c : Char) : Option Nat :=
  if '0' ≤ c ∧ c ≤ '9' then some (c.toNat - '0'.toNat)
  else if hex && ('a' ≤ c && c ≤ 'f') then some (10 + (c.toNat - 'a'.toNat))
  else if hex && ('A' ≤ c && c ≤ 'F') then some (10 + (c.toNat - 'A'.toNat))
  else none

/-- Strip a `0x` prefix. -/
def splitRadix : List Char → Bool × List Char
  | '0' :: 'x' :: rest => (true, rest)
  | '0' :: 'X' :: rest => (true, rest)
  | cs => (false, cs)

/-- Fold digits into a `u32`; a foreign character or an overflow gives nothing. -/
def u32Digits (hex : Bool) : List Char → Nat → Option Nat
  | [], v => some v
  | c :: cs, v =>
    if c = '_' then u32Digits hex cs v
    else
      match digitVal hex c with
      | none => none
      | some d =>
        let base := if hex then 16 else 10
        if v * base + d < 2 ^ 32 then u32Digits hex cs (v * base + d) else none

def parseU32Any (text : List Char) : Option Nat :=
  match text with
  | [] => none
  | _ =>
    let (hex, digits) := splitRadix text
    u32Digits hex digits 0

/-- The nearest `i64`. -/
def saturateI64 (x : Int) : Int := max (-2 ^ 63) (min x (2 ^ 63 - 1))

/-- Fold digits into an `i64`, saturating, up to the first foreign character. -/
def i64Digits (hex : Bool) : List Char → Int → Int
  | [], v => v
  | c :: cs, v =>
    if c = '_' then i64Digits hex cs v
    else
      match digitVal hex c with
      | none => v
      | some d =>
        i64Digits hex cs (saturateI64 (saturateI64 (v * (if hex then 16 else 10)) + d))

def parseI64Token (text : List Char) : Option Int :=
  match text with
  | [] => none
  | '-' :: cs =>
    let (hex, digits) := splitRadix cs
    some (-i64Digits hex digits 0)
  | cs =>
    let (hex, digits) := splitRadix cs
    some (i64Digits hex digits 0)

end Tyu.Irgen

/-!
## What the lowering looks up

The declarations of a module and the words in scope, as the lowering sees them: names
and types are atoms, a struct is its list of fields.
-/

namespace Tyu

/-! ## Vectors, effects and sites -/

namespace FixedVec

variable {α : Type} {cap : Nat}

def ofList? (xs : List α) : Option (FixedVec α cap) :=
  if h : xs.length ≤ cap then some ⟨xs, h⟩ else none

/-- Replace the entry at position `i`. -/
def set (v : FixedVec α cap) (i : Nat) (x : α) : FixedVec α cap :=
  ⟨v.items.set i x, by rw [List.length_set]; exact v.bounded⟩

/-- Change the entry at position `i`. -/
def modify (v : FixedVec α cap) (i : Nat) (f : α → α) : FixedVec α cap :=
  ⟨v.items.modify i f, by rw [List.length_modify]; exact v.bounded⟩

end FixedVec

namespace EffectSet

def isEmpty (e : EffectSet) : Bool := e.bits == 0#16

/-- The effects of `e` that are not in `other`. -/
def minus (e other : EffectSet) : EffectSet := ⟨e.bits &&& ~~~other.bits⟩

end EffectSet

def InTreeVerdict.ofRange (reason : Interval → Int → Int → Bool → String) (val : Interval)
    (lo hi : Int) : InTreeVerdict :=
  match evalInRange val lo hi with
  | .defTrue => ⟨.discharged, false, some (reason val lo hi true)⟩
  | .defFalse => ⟨.opened, true, some (reason val lo hi false)⟩
  | .top => ⟨.opened, false, some (reason val lo hi false)⟩

namespace Irgen

abbrev TypeAtom := Atom

def TYPE_SCOPED : TypeAtom := ⟨"scoped", by decide⟩
def TYPE_REGION : TypeAtom := ⟨"Region", by decide⟩
def TYPE_TASK : TypeAtom := ⟨"Task", by decide⟩

structure WordSig where
  inputs : FixedVec TypeAtom 8
  outputs : FixedVec TypeAtom 8
deriving DecidableEq

structure WordEntry where
  name : Atom
  sig : WordSig
  performs : EffectSet
  requires : CapSet
  bound : StackBound
  contractHash : Nat
deriving DecidableEq

structure SubtypeInfo where
  name : TypeAtom
  base : TypeAtom
  min : Int
  max : Int

structure ResourceInfo where
  name : Atom
  ty : TypeAtom
  isrReachable : Bool

structure StructFieldInfo where
  name : Atom
  ty : TypeAtom
deriving DecidableEq

structure StructInfo where
  name : TypeAtom
  fields : List StructFieldInfo
deriving DecidableEq

structure EnumVariantInfo where
  name : Atom
  value : Int
deriving DecidableEq

structure EnumInfo where
  name : TypeAtom
  base : TypeAtom
  variants : List EnumVariantInfo
deriving DecidableEq

structure NominalDb where
  structs : List StructInfo
  enums : List EnumInfo
deriving DecidableEq

/-! ## Registers -/

inductive AccessMode where
  | ro | wo | rw | w1c | w1s | rc
deriving DecidableEq

def accessCanRead (access : AccessMode) : Bool := access != .wo

def accessCanWrite (access : AccessMode) : Bool := access != .ro

def apertureAccessBits : AccessMode → BitVec 8
  | .ro => 1#8
  | .wo => 2#8
  | .rw => 3#8
  | .w1c => 10#8
  | .w1s => 6#8
  | .rc => 17#8

structure MmioFieldInfo where
  name : Atom
  lo : Nat
  hi : Nat
  ty : TypeAtom
  access : AccessMode
deriving DecidableEq

def fieldMaskShift (field : MmioFieldInfo) : Nat × Nat :=
  let width := min (field.hi - field.lo + 1) 64
  let mask := 2 ^ width - 1
  (mask * 2 ^ field.lo % 2 ^ 64, field.lo)

structure MmioAccessMeta where
  writeKind : WriteKind
  readKind : ReadKind
  atomicMax : Nat
  barrier : BarrierKind
deriving DecidableEq

structure MmioResolvedReg where
  map : Atom
  reg : Atom
  regTy : TypeAtom
  access : AccessMode
  volatile : Bool
  aperture : Nat
  offset : Nat
  arrayLen : Option Nat
  accessMeta : MmioAccessMeta
  /-- the text of the whole place -/
  place : String
deriving DecidableEq

structure MmioResolvedField where
  map : Atom
  reg : Atom
  regTy : TypeAtom
  regAccess : AccessMode
  field : MmioFieldInfo
  volatile : Bool
  aperture : Nat
  offset : Nat
  arrayLen : Option Nat
  accessMeta : MmioAccessMeta
  place : String
deriving DecidableEq

inductive MmioResolved where
  | reg (r : MmioResolvedReg)
  | field (f : MmioResolvedField)
deriving DecidableEq

def mmioTypeWidthBytes (ty : TypeAtom) : Option Nat :=
  match ty.text with
  | "bool" | "u8" | "i8" => some 1
  | "u16" | "i16" => some 2
  | "u32" | "i32" => some 4
  | "u64" | "i64" => some 8
  | _ => none

inductive RelocIsa where
  | armThumbLdrLiteral | riscVHi20Lo12

structure ApertureSpec where
  id : Nat
  name : Atom
  kind : ApertureKind
  base : Option Nat
  size : Nat
  relocIsa : Option RelocIsa

structure CompiledDescriptor where
  apertures : List ApertureSpec
  isrStackSlots : Nat

def lookup (env : List WordEntry) (name : String) : Option WordEntry :=
  env.find? fun e => e.name.text == name

def findSubtype (subtypes : List SubtypeInfo) (name : TypeAtom) : Option SubtypeInfo :=
  subtypes.find? fun s => s.name == name

def resourceTy (db : List ResourceInfo) (name : Atom) : Option TypeAtom :=
  (db.find? fun r => r.name == name).map ResourceInfo.ty

def resourceIsIsrReachable (db : List ResourceInfo) (name : Atom) : Bool :=
  ((db.find? fun r => r.name == name).map ResourceInfo.isrReachable).getD false

def NominalDb.struct (db : NominalDb) (ty : TypeAtom) : Option StructInfo :=
  db.structs.find? fun s => s.name == ty

def NominalDb.enum (db : NominalDb) (ty : TypeAtom) : Option EnumInfo :=
  db.enums.find? fun e => e.name == ty

def structFieldTy (db : NominalDb) (ty field : TypeAtom) : Option TypeAtom := do
  let s ← db.struct ty
  let f ← s.fields.find? fun f => f.name == field
  pure f.ty

def enumVariantValue (db : NominalDb) (ty variant : TypeAtom) : Option Int := do
  let e ← db.enum ty
  let v ← e.variants.find? fun v => v.name == variant
  pure v.value

/-- A value of type `got` may stand where `want` is declared: the same type, or a
subtype of it. -/
def typeCompatible (got want : TypeAtom) (subtypes : List SubtypeInfo) : Bool :=
  if got = want then true
  else
    match findSubtype subtypes got with
    | some st => st.base = want
    | none => false

def splitTopComma : List Char → List Char → Int → Option (List Char × List Char)
  | _, [], _ => none
  | seen, c :: rest, depth =>
    if c = ',' ∧ depth = 0 then some (seen.reverse, rest)
    else splitTopComma (c :: seen) rest
      (if c = '(' then depth + 1 else if c = ')' then depth - 1 else depth)

/-- What is inside `head` and a final `)`. -/
def insideOf (head : String) (ty : TypeAtom) : Option (List Char) :=
  if startsWith ty.text head ∧ ty.text.toList.getLast? = some ')' then
    some ((ty.text.toList.drop head.length).dropLast)
  else none

def arrayParts (ty : TypeAtom) : Option (List Char × List Char) :=
  (insideOf "Array(" ty).bind fun inner => splitTopComma [] inner 0

def arrayElemType (ty : TypeAtom) : Option TypeAtom :=
  (arrayParts ty).bind fun p => Atom.new (String.ofList p.1)

def arrayLen (ty : TypeAtom) : Option Nat := (arrayParts ty).bind fun p => parseU32Any p.2

def chanElemType (ty : TypeAtom) : Option TypeAtom :=
  (insideOf "Chan(" ty).bind fun inner => Atom.new (String.ofList inner)

def sliceTypeOfElem (elem : TypeAtom) (isMut : Bool) : Option TypeAtom :=
  Atom.new ((if isMut then "SliceMut(" else "Slice(") ++ elem.text ++ ")")

def regionRefType (isMut : Bool) : TypeAtom :=
  if isMut then ⟨"RegionRefMut", by decide⟩ else ⟨"RegionRef", by decide⟩

def fieldAlign (size : Nat) : Nat :=
  if 8 ≤ size then 8 else if 4 ≤ size then 4 else if 2 ≤ size then 2 else 1

/-- Round up to a power of two, on `u32`. -/
def alignUp (value align : Nat) : Nat :=
  if align = 0 then value
  else
    let v := (value + (align - 1)) % 2 ^ 32
    v - v % align

def primSizeBytes (name : String) : Option Nat :=
  match name with
  | "u8" | "i8" | "bool" => some 1
  | "u16" | "i16" => some 2
  | "u32" | "i32" => some 4
  | "u64" | "i64" | "usize" | "isize" => some 8
  | "ptr" | "ptr_mut" | "mmio" | "str" | "resource" | "quot" => some 8
  | "Region" | "RegionRef" | "RegionRefMut" | "Task" => some 8
  | _ =>
    if startsWith name "Chan(" then some 8
    else if startsWith name "Slice(" || startsWith name "SliceMut(" then some 16
    else none

/-- The offset behind the fields of a struct and the greatest alignment among them. -/
def layoutFields (size : TypeAtom → Option Nat) :
    List StructFieldInfo → Nat × Nat → Option (Nat × Nat)
  | [], acc => some acc
  | f :: rest, (offset, maxAlign) => do
    let fsize ← size f.ty
    let start := alignUp offset (fieldAlign fsize)
    let next ← checkedAddU32 start fsize
    layoutFields size rest (next, max maxAlign (fieldAlign fsize))

def typeSizeBytesRec (db : NominalDb) : Nat → TypeAtom → Option Nat
  | 0, _ => none
  | depth + 1, ty =>
    match primSizeBytes ty.text with
    | some n => some n
    | none =>
      let asArray : Option Nat := do
        let elem ← arrayElemType ty
        let len ← arrayLen ty
        let size ← typeSizeBytesRec db depth elem
        if len * size < 2 ^ 32 then some (len * size) else none
      match asArray with
      | some n => some n
      | none =>
        match db.struct ty with
        | some s =>
          (layoutFields (typeSizeBytesRec db depth) s.fields (0, 1)).map fun p => alignUp p.1 p.2
        | none =>
          match db.enum ty with
          | some e => typeSizeBytesRec db depth e.base
          | none => none

def typeSizeBytes (db : NominalDb) (ty : TypeAtom) : Option Nat := typeSizeBytesRec db 8 ty

def primBitsSigned (ty : TypeAtom) : Option (Nat × Bool) :=
  if startsWith ty.text "Chan(" then some (64, false)
  else
    match ty.text with
    | "u8" => some (8, false)
    | "u16" => some (16, false)
    | "u32" => some (32, false)
    | "u64" => some (64, false)
    | "usize" => some (64, false)
    | "i8" => some (8, true)
    | "i16" => some (16, true)
    | "i32" => some (32, true)
    | "i64" => some (64, true)
    | "isize" => some (64, true)
    | "bool" => some (8, false)
    | "ptr" | "ptr_mut" | "str" | "mmio" => some (64, false)
    | _ => none

/-- The width and signedness of a primitive, or of what an enum or a subtype is based
on. -/
def tyBitsSigned (nominals : NominalDb) (subtypes : List SubtypeInfo) (ty : TypeAtom) :
    Option (Nat × Bool) :=
  match primBitsSigned ty with
  | some p => some p
  | none =>
    match nominals.enum ty with
    | some e => primBitsSigned e.base
    | none => (findSubtype subtypes ty).bind fun st => primBitsSigned st.base

def isPtrish (ty : TypeAtom) : Bool := ty.text == "ptr" || ty.text == "ptr_mut"

def isIntish (ty : TypeAtom) : Bool :=
  ["u8", "u16", "u32", "u64", "usize", "i8", "i16", "i32", "i64", "isize"].contains ty.text

/-- Casts between addresses and integers need the permission for raw casts. -/
def checkRawCastAllowed (allowRawCasts : Bool) (fromTy toTy : TypeAtom) : Bool :=
  if isPtrish fromTy && isIntish toTy then allowRawCasts
  else if isIntish fromTy && isPtrish toTy then allowRawCasts
  else if isPtrish fromTy && isPtrish toTy && fromTy != toTy then allowRawCasts
  else true

end Irgen

end Tyu

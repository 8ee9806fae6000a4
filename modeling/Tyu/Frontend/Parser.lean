import Tyu.Frontend.Lex
import Tyu.Lib.SiteParser
import Tyu.Lower.Interface

/-!
# The parser

The parser goes by the kinds and the texts of tokens, with two exceptions: the effects of a
`performs` clause and the argument of `@interrupt` are taken from the bytes of the source, with
the layout in them.
-/

namespace Tyu.Frontend

open Lib
open Irgen (DeclKind)

/-! ## Syntax trees -/

structure Range where
  start : Nat
  stop : Nat
deriving DecidableEq

/-- An attribute.  Of `@interrupt` the parentheses are kept; its argument is between them. -/
inductive AttrAst where
  | interrupt (parens : Range)
  | other (text : Range)
deriving DecidableEq

structure DeclAst where
  kind : DeclKind
  name : Range
  sig : Option Range
  attrs : FixedVec AttrAst 16
  body : Option Range
  requires : Option Range
  ensures : Option Range
  intent : Option Range
  capSet : Option Range
  /-- the last `performs` clause, with its braces; the effects are read off its bytes -/
  performs : Option Range
deriving DecidableEq

structure ImportAst where
  module : Range
  names : FixedVec Range 64
deriving DecidableEq

structure SubtypeAst where
  name : Range
  base : Range
  min : Int
  max : Int
deriving DecidableEq

structure RegMapInstanceAst where
  name : Range
  map : Range
  baseAddr : Range
  boardInstance : Option Range
deriving DecidableEq

structure StructFieldAst where
  name : Range
  ty : Range
deriving DecidableEq

structure StructDeclAst where
  name : Range
  fields : FixedVec StructFieldAst 32
deriving DecidableEq

structure EnumVariantAst where
  name : Range
  value : Int
deriving DecidableEq

structure EnumDeclAst where
  name : Range
  base : Option Range
  variants : FixedVec EnumVariantAst 64
deriving DecidableEq

structure ModuleAst where
  name : Range
  imports : FixedVec ImportAst 64
  exports : FixedVec Range 256
  decls : FixedVec DeclAst 256
  hasExportStmt : Bool
  subtypes : FixedVec SubtypeAst 64
  instances : FixedVec RegMapInstanceAst 64
  structs : FixedVec StructDeclAst 32
  enums : FixedVec EnumDeclAst 32
deriving DecidableEq

def DeclAst.plain (kind : DeclKind) (name : Range) (attrs : FixedVec AttrAst 16) : DeclAst where
  kind := kind
  name := name
  sig := none
  attrs := attrs
  body := none
  requires := none
  ensures := none
  intent := none
  capSet := none
  performs := none

inductive ParseError where
  | expectedModule | expectedModuleName | expectedSemiAfterModule | expectedEnd
  | expectedSemiAfterEnd | expectedImportName | expectedRBrace | expectedQualIdent
  | expectedRBraceExport | expectedExportName | expectedWordName | expectedSigParen
  | expectedQuotation | expectedSemi | unmatchedBracket | unmatchedBrace | unmatchedParen
  | expectedEnumName | expectedFieldIdent | expectedSemiOrEnd | expectedEndSemi | expectedEq
  | expectedNumber | invalidInteger | expectedSubtypeName | expectedEqSubtype | expectedBaseType
  | expectedRangeKeyword | expectedRangeMin | invalidRangeMin | expectedDblDot | expectedRangeMax
  | invalidRangeMax | expectedSemiSubtype | expectedConstName | expectedInterruptVector
  | expectedRegisterName | expectedSemiSkip | tooManyItems | unknownEffect
  | legacyRequiresContract | legacyEffectBang | unsupportedDefClause | expectedIntentString
  /-- a loop of the model without fuel; it has always enough -/
  | stuck
deriving DecidableEq

inductive Site where
  | performs (clause : Range)
  | interrupt (parens : Range)
deriving DecidableEq

abbrev P := SiteParser Token Site ParseError

def look : P Token := do
  let t ← SiteParser.peek 0
  pure (t.getD .eof)

def lookNext : P TokenKind := do
  let t ← SiteParser.peek 1
  pure (t.getD .eof).kind

def bump : P Unit := SiteParser.advance

def pos : P Nat := SiteParser.here

def fail {α : Type} (e : ParseError) : P α := SiteParser.fail e

def loop {σ β : Type} (body : σ → P (σ ⊕ β)) (s : σ) : P β := SiteParser.loop .stuck body s

def expect (kind : TokenKind) (e : ParseError) : P Unit := do
  let t ← look
  if t.kind = kind then pure () else fail e

def eat (kind : TokenKind) (e : ParseError) : P Range := do
  expect kind e
  let start ← pos
  bump
  pure ⟨start, start + 1⟩

def push {α : Type} {cap : Nat} (v : FixedVec α cap) (x : α) : P (FixedVec α cap) :=
  match v.push x with
  | some v => pure v
  | none => fail .tooManyItems

def namePath (separator : TokenKind) (first rest : ParseError) : P Range := do
  let start ← pos
  let _ ← eat .ident first
  loop (fun _ => do
    let t ← look
    if t.kind = separator then do
      bump
      let _ ← eat .ident rest
      pure (.inl ())
    else pure (.inr ())) ()
  let stop ← pos
  pure ⟨start, stop⟩

def modulePath (e : ParseError) : P Range := namePath .slash e e

def captureQualifiedName (e : ParseError) : P Range := namePath .dot e e

/-- To the bracket that closes the current one; `false` where there is none. -/
def skipBalanced («open» close : TokenKind) : P Bool := do
  bump
  loop (fun depth => do
    let t ← look
    if t.kind = .eof then pure (.inr false)
    else do
      bump
      if t.kind = «open» then pure (.inl (depth + 1))
      else if t.kind = close then
        if depth = 1 then pure (.inr true) else pure (.inl (depth - 1))
      else pure (.inl depth)) 1

def captureBalanced («open» close : TokenKind) (e : ParseError) : P Range := do
  expect «open» e
  let start ← pos
  let closed ← skipBalanced «open» close
  let stop ← pos
  if closed then pure ⟨start, stop⟩ else fail e

def captureQuotation (e : ParseError) : P Range := captureBalanced .lBracket .rBracket e

def dumpTermsUntil (stop : TokenKind) : P Unit :=
  loop (fun _ => do
    let t ← look
    if t.kind = stop ∨ t.kind = .eof then pure (.inr ())
    else if t.kind = .lBracket then do
      let _ ← captureBalanced .lBracket .rBracket .unmatchedBracket
      pure (.inl ())
    else if t.kind = .lBrace then do
      let _ ← captureBalanced .lBrace .rBrace .unmatchedBrace
      pure (.inl ())
    else if t.kind = .lParen then do
      let _ ← captureBalanced .lParen .rParen .unmatchedParen
      pure (.inl ())
    else do
      bump
      pure (.inl ())) ()

/-- Open parentheses, braces and brackets; closing ones never count below zero. -/
structure Depth where
  paren : Nat
  brace : Nat
  bracket : Nat

namespace Depth

def zero : Depth := ⟨0, 0, 0⟩

def after (d : Depth) : TokenKind → Depth
  | .lParen => { d with paren := d.paren + 1 }
  | .rParen => { d with paren := d.paren - 1 }
  | .lBrace => { d with brace := d.brace + 1 }
  | .rBrace => { d with brace := d.brace - 1 }
  | .lBracket => { d with bracket := d.bracket + 1 }
  | .rBracket => { d with bracket := d.bracket - 1 }
  | _ => d

def isZero (d : Depth) : Bool := d.paren == 0 && d.brace == 0 && d.bracket == 0

end Depth

/-- Behind the next semicolon outside brackets; `false` where there is none. -/
def skipToSemi : P Bool :=
  loop (fun depth : Depth => do
    let t ← look
    if t.kind = .eof then pure (.inr false)
    else if t.kind = .semi ∧ depth.isZero = true then do
      bump
      pure (.inr true)
    else do
      bump
      pure (.inl (depth.after t.kind))) .zero

def skipUntilSemi : P Unit := do
  let found ← skipToSemi
  if found then pure () else fail .expectedSemiSkip

def nameList {cap : Nat} (e : ParseError) (names : FixedVec Range cap) : P (FixedVec Range cap) :=
  loop (fun names => do
    let t ← look
    if t.kind = .rBrace ∨ t.kind = .eof then pure (.inr names)
    else if t.kind = .ident then do
      let name ← captureQualifiedName e
      let names ← push names name
      pure (.inl names)
    else do
      bump
      pure (.inl names)) names

def skipSemi : P Unit := do
  let t ← look
  if t.kind = .semi then bump else pure ()

def parseImportAst : P ImportAst := do
  bump
  let module ← modulePath .expectedImportName
  let t ← look
  let names ← if t.kind = .lBrace then do
      bump
      let names ← nameList .expectedQualIdent .new
      let _ ← eat .rBrace .expectedRBrace
      pure names
    else pure .new
  skipSemi
  pure ⟨module, names⟩

def parseExportAst (exports : FixedVec Range 256) : P (FixedVec Range 256) := do
  bump
  let t ← look
  let exports ← if t.kind = .lBrace then do
      bump
      let exports ← nameList .expectedExportName exports
      let _ ← eat .rBrace .expectedRBraceExport
      pure exports
    else if t.kind = .ident then do
      let name ← captureQualifiedName .expectedExportName
      push exports name
    else pure exports
  skipSemi
  pure exports

structure Clauses where
  requires : Option Range
  ensures : Option Range
  intent : Option Range
  capSet : Option Range
  performs : Option Range

def Clauses.empty : Clauses := ⟨none, none, none, none, none⟩

def parseRequires (c : Clauses) : P Clauses := do
  bump
  let t ← look
  if t.kind = .lBrace then do
    let set ← captureBalanced .lBrace .rBrace .expectedRBrace
    pure { c with capSet := some set }
  else if t.kind = .lBracket then fail .legacyRequiresContract
  else fail .expectedQuotation

def parsePerforms (c : Clauses) : P Clauses := do
  bump
  let t ← look
  let clause ← if t.kind = .lParen then captureBalanced .lParen .rParen .expectedRBrace
    else captureBalanced .lBrace .rBrace .expectedRBrace
  SiteParser.check (.performs clause) .unknownEffect
  pure { c with performs := some clause }

/-- One clause; `none` where the body begins. -/
def parseClause (c : Clauses) (t : Token) : P (Option Clauses) :=
  if t.kind = .kwNeeds then do
    bump
    let contract ← captureQuotation .expectedQuotation
    pure (some { c with requires := some contract })
  else if t.kind = .kwRequires then do
    let c ← parseRequires c
    pure (some c)
  else if t.kind = .kwEnsures then do
    bump
    let contract ← captureQuotation .expectedQuotation
    pure (some { c with ensures := some contract })
  else if t = ⟨.ident, ascii "intent"⟩ then do
    bump
    let text ← eat .string .expectedIntentString
    pure (some { c with intent := some text })
  else if t.kind = .kwPerforms then do
    let c ← parsePerforms c
    pure (some c)
  else if t = ⟨.ident, ascii "bound"⟩ then fail .unsupportedDefClause
  else pure none

def parseWordAst (attrs : FixedVec AttrAst 16) : P DeclAst := do
  bump
  let name ← captureQualifiedName .expectedWordName
  let t ← look
  let sig ← if t.kind = .lParen then do
      let sig ← captureBalanced .lParen .rParen .expectedSigParen
      pure (some sig)
    else pure none
  -- the old `!\x7b … \x7d`
  let t ← look
  let next ← lookNext
  if t = ⟨.ident, ascii "!"⟩ ∧ next = .lBrace then fail .legacyEffectBang else pure ()
  let c ← loop (fun c => do
    let t ← look
    let c' ← parseClause c t
    match c' with
    | some c' => pure (.inl c')
    | none => pure (.inr c)) Clauses.empty
  let start ← pos
  dumpTermsUntil .semi
  let stop ← pos
  let _ ← eat .semi .expectedSemi
  pure {
    kind := .word
    name := name
    sig := sig
    attrs := attrs
    body := some ⟨start, stop⟩
    requires := c.requires
    ensures := c.ensures
    intent := c.intent
    capSet := c.capSet
    performs := c.performs }

/-! ## Other declarations -/

def I64_MAX : Int := 2 ^ 63 - 1

def digitValue (radix : Int) (b : UInt8) : Option Int :=
  if 0x30 ≤ b ∧ b ≤ 0x39 then some (b.toNat - 0x30)
  else if 0x61 ≤ b ∧ b ≤ 0x66 ∧ radix = 16 then some (b.toNat - 0x61 + 10)
  else if 0x41 ≤ b ∧ b ≤ 0x46 ∧ radix = 16 then some (b.toNat - 0x41 + 10)
  else none

def parseDigits (radix : Int) : Bytes → Int → Option Int
  | [], v => some v
  | b :: bs, v =>
    if b = 0x5F then parseDigits radix bs v
    else do
      let digit ← digitValue radix b
      if radix ≤ digit then none
      else if v * radix + digit ≤ I64_MAX then parseDigits radix bs (v * radix + digit)
      else none

def parseI64 (bytes : Bytes) : Option Int :=
  let negative := bytes.head? = some 0x2D
  let digits := if negative then bytes.tail else bytes
  let magnitude : Option Int := match digits with
    | [] => none
    | 0x30 :: b :: rest =>
      if b = 0x78 ∨ b = 0x58 then parseDigits 16 rest 0
      else if b = 0x62 ∨ b = 0x42 then parseDigits 2 rest 0
      else parseDigits 10 (0x30 :: b :: rest) 0
    | _ => parseDigits 10 digits 0
  magnitude.map fun v => if negative then -v else v

def integer (kind e : ParseError) : P Int := do
  let t ← look
  let _ ← eat .number kind
  match parseI64 t.text with
  | some v => pure v
  | none => fail e

def fieldType : P Range := do
  let start ← pos
  loop (fun depth : Depth => do
    let t ← look
    let next ← lookNext
    if t.kind = .eof ∨ t.kind = .kwEnd then pure (.inr ())
    else if depth.paren = 0 ∧ depth.bracket = 0 ∧ t.kind = .ident ∧ next = .colon then pure (.inr ())
    else do
      bump
      pure (.inl (depth.after t.kind))) Depth.zero
  let stop ← pos
  pure ⟨start, stop⟩

def closeBlock : P Unit := do
  let _ ← eat .kwEnd .expectedEnd
  let _ ← eat .semi .expectedSemiOrEnd
  pure ()

def parseStructDeclAst (attrs : FixedVec AttrAst 16) : P (DeclAst × StructDeclAst) := do
  bump
  let name ← eat .ident .expectedEnumName
  let fields ← loop (fun fields : FixedVec StructFieldAst 32 => do
    let t ← look
    let next ← lookNext
    if t.kind = .kwEnd ∨ t.kind = .eof then pure (.inr fields)
    else if t.kind = .ident ∧ next = .colon then do
      let start ← pos
      bump
      bump
      let ty ← fieldType
      let fields ← push fields ⟨⟨start, start + 1⟩, ty⟩
      pure (.inl fields)
    else do
      bump
      pure (.inl fields)) .new
  closeBlock
  pure (.plain .struct name attrs, ⟨name, fields⟩)

/-- Tokens of a type up to one that ends it; `none` when there are none. -/
def typeUntil (ends : Depth → Token → TokenKind → Bool) : P (Option Range) := do
  let start ← pos
  loop (fun depth : Depth => do
    let t ← look
    let next ← lookNext
    if ends depth t next = true ∨ t.kind = .eof then pure (.inr ())
    else do
      bump
      pure (.inl (depth.after t.kind))) Depth.zero
  let stop ← pos
  pure (if start < stop then some ⟨start, stop⟩ else none)

def parseEnumDeclAst (attrs : FixedVec AttrAst 16) : P (DeclAst × EnumDeclAst) := do
  bump
  let name ← eat .ident .expectedEnumName
  let t ← look
  let base ← if t.kind = .colon then do
      bump
      typeUntil fun depth t next =>
        t.kind == .kwEnd || (depth.paren == 0 && t.kind == .ident && next == .eq)
    else pure none
  let variants ← loop (fun variants : FixedVec EnumVariantAst 64 => do
    let t ← look
    if t.kind = .kwEnd ∨ t.kind = .eof then pure (.inr variants)
    else if t.kind = .ident then do
      let start ← pos
      bump
      let _ ← eat .eq .expectedEq
      let value ← integer .expectedNumber .invalidInteger
      let variants ← push variants ⟨⟨start, start + 1⟩, value⟩
      pure (.inl variants)
    else do
      bump
      pure (.inl variants)) .new
  closeBlock
  pure (.plain .enum name attrs, ⟨name, base, variants⟩)

def parseSemiDeclAst (kind : DeclKind) (attrs : FixedVec AttrAst 16) : P DeclAst := do
  bump
  let name ← eat .ident .expectedFieldIdent
  skipUntilSemi
  pure (.plain kind name attrs)

def parseResourceDeclAst (attrs : FixedVec AttrAst 16) : P DeclAst := do
  bump
  let name ← eat .ident .expectedFieldIdent
  let t ← look
  let ty ← if t.kind = .colon then do
      bump
      typeUntil fun depth t _ => t.kind == .semi ||
        (depth.paren == 0 && (t.kind == .eq || t == ⟨.ident, ascii "ceiling"⟩))
    else pure none
  -- no semicolon is no error here
  let _ ← skipToSemi
  pure { DeclAst.plain .resource name attrs with sig := ty }

/-- Behind the `@` of an instance: `board.<instance>` or a number, and a semicolon. -/
def parseInstance (name map : Range) : P (Option RegMapInstanceAst) := do
  let t ← look
  if t.kind = .kwBoard then do
    bump
    let t ← look
    if t.kind = .dot then do
      bump
      let t ← look
      if t.kind = .ident then do
        let start ← pos
        bump
        let t ← look
        pure (if t.kind = .semi then some ⟨name, map, name, some ⟨start, start + 1⟩⟩ else none)
      else pure none
    else pure none
  else if t.kind = .number then do
    let start ← pos
    bump
    let t ← look
    pure (if t.kind = .semi then some ⟨name, map, ⟨start, start + 1⟩, none⟩ else none)
  else pure none

def parseConstDeclAst (attrs : FixedVec AttrAst 16) : P (DeclAst × Option RegMapInstanceAst) := do
  bump
  let name ← eat .ident .expectedConstName
  let t ← look
  let inst ← if t.kind = .eq then do
      bump
      let t ← look
      if t.kind = .ident then do
        let start ← pos
        bump
        let t ← look
        if t = ⟨.ident, ascii "@"⟩ then do
          bump
          parseInstance name ⟨start, start + 1⟩
        else pure none
      else pure none
    else pure none
  let _ ← skipToSemi
  pure (.plain .const name attrs, inst)

def parseRegisterMapDeclAst (attrs : FixedVec AttrAst 16) : P DeclAst := do
  bump
  let name ← eat .ident .expectedRegisterName
  let start ← pos
  let stop ← loop (fun depth : Depth => do
    let t ← look
    if t.kind = .eof then fail .expectedEndSemi
    else if t.kind = .kwEnd ∧ depth.isZero = true then do
      let stop ← pos
      bump
      let _ ← eat .semi .expectedSemiOrEnd
      pure (.inr stop)
    else do
      bump
      pure (.inl (depth.after t.kind))) Depth.zero
  pure { DeclAst.plain .registerMap name attrs with body := some ⟨start, stop⟩ }

def parseSubtypeDeclAst (attrs : FixedVec AttrAst 16) : P (DeclAst × SubtypeAst) := do
  bump
  let name ← eat .ident .expectedSubtypeName
  let _ ← eat .eq .expectedEqSubtype
  let base ← eat .ident .expectedBaseType
  let t ← look
  if t = ⟨.ident, ascii "range"⟩ then bump else fail .expectedRangeKeyword
  let min ← integer .expectedRangeMin .invalidRangeMin
  let _ ← eat .dblDot .expectedDblDot
  let max ← integer .expectedRangeMax .invalidRangeMax
  let _ ← eat .semi .expectedSemiSubtype
  pure (.plain .subtype name attrs, ⟨name, base, min, max⟩)

/-! ## Modules -/

structure ModuleState where
  ast : ModuleAst
  pending : FixedVec AttrAst 16

def parseAttr (attrName : Token) : P AttrAst := do
  let start ← pos
  bump
  let t ← look
  let afterName ← pos
  let parens ← if t.kind = .lParen then do
      -- without a closing parenthesis the rest of the source is gone, and that is no error here
      let closed ← skipBalanced .lParen .rParen
      let stop ← pos
      pure (if closed then some ⟨afterName, stop⟩ else none)
    else pure none
  if attrName.text = ascii "@interrupt" then
    match parens with
    | some parens => do
      SiteParser.check (.interrupt parens) .expectedInterruptVector
      pure (.interrupt parens)
    | none => fail .expectedInterruptVector
  else pure (.other ⟨start, (parens.map Range.stop).getD (start + 1)⟩)

inductive Extra where
  | none
  | struct (s : StructDeclAst)
  | enum (e : EnumDeclAst)
  | subtype (s : SubtypeAst)
  | inst (i : RegMapInstanceAst)

/-- A declaration with the waiting attributes, by its first token; `none` where no declaration
begins. -/
def parseDecl (attrs : FixedVec AttrAst 16) : TokenKind → Option (P (DeclAst × Extra))
  | .colon => some do
    let d ← parseWordAst attrs
    pure (d, .none)
  | .kwStruct => some do
    let (d, struct) ← parseStructDeclAst attrs
    pure (d, .struct struct)
  | .kwEnum => some do
    let (d, enum) ← parseEnumDeclAst attrs
    pure (d, .enum enum)
  | .kwRegisterMap => some do
    let d ← parseRegisterMapDeclAst attrs
    pure (d, .none)
  | .kwType => some do
    let d ← parseSemiDeclAst .type attrs
    pure (d, .none)
  | .kwSubtype => some do
    let (d, subtype) ← parseSubtypeDeclAst attrs
    pure (d, .subtype subtype)
  | .kwConst => some do
    let (d, inst) ← parseConstDeclAst attrs
    pure (d, match inst with
      | some inst => .inst inst
      | none => .none)
  | .kwResource => some do
    let d ← parseResourceDeclAst attrs
    pure (d, .none)
  | .kwOwned => some do
    let d ← parseSemiDeclAst .owned attrs
    pure (d, .none)
  | .kwIso => some do
    let d ← parseSemiDeclAst .iso attrs
    pure (d, .none)
  | _ => none

def addExtra (ast : ModuleAst) : Extra → P ModuleAst
  | .none => pure ast
  | .struct struct => do
    let structs ← push ast.structs struct
    pure { ast with structs := structs }
  | .enum enum => do
    let enums ← push ast.enums enum
    pure { ast with enums := enums }
  | .subtype subtype => do
    let subtypes ← push ast.subtypes subtype
    pure { ast with subtypes := subtypes }
  | .inst inst => do
    let instances ← push ast.instances inst
    pure { ast with instances := instances }

def addDecl (ast : ModuleAst) (d : DeclAst) (extra : Extra) : P ModuleState := do
  let decls ← push ast.decls d
  let ast ← addExtra { ast with decls := decls } extra
  pure { ast := ast, pending := .new }

def isAttr (t : Token) : Bool := t.kind == .ident && t.text.head? == some 0x40

/-- What begins with the current token: an attribute, an import, an export or a declaration.
Anything else is passed over up to a semicolon, and waiting attributes with it. -/
def parseItem (s : ModuleState) (t : Token) : P ModuleState :=
  if isAttr t = true then do
    let attr ← parseAttr t
    let pending ← push s.pending attr
    pure { s with pending := pending }
  else if t.kind = .kwImport then do
    let imp ← parseImportAst
    let imports ← push s.ast.imports imp
    pure { s with ast := { s.ast with imports := imports } }
  else if t.kind = .kwExport then do
    let exports ← parseExportAst s.ast.exports
    pure { s with ast := { s.ast with exports := exports, hasExportStmt := true } }
  else
    match parseDecl s.pending t.kind with
    | some decl => do
      let (d, extra) ← decl
      addDecl s.ast d extra
    | none => do
      bump
      let _ ← skipToSemi
      pure { s with pending := .new }

def ModuleAst.named (name : Range) : ModuleAst where
  name := name
  imports := .new
  exports := .new
  decls := .new
  hasExportStmt := false
  subtypes := .new
  instances := .new
  structs := .new
  enums := .new

def parseHeader : P Range := do
  let _ ← eat .kwModule .expectedModule
  let name ← modulePath .expectedModuleName
  let _ ← eat .semi .expectedSemiAfterModule
  pure name

def parseItems (s : ModuleState) : P ModuleState :=
  loop (fun s : ModuleState => do
    let t ← look
    if t.kind = .kwEnd ∨ t.kind = .eof then pure (.inr s)
    else do
      let s ← parseItem s t
      pure (.inl s)) s

/-- What stands behind the closing `end;` is not looked at. -/
def parseModule : P ModuleAst := do
  let name ← parseHeader
  let s ← parseItems ⟨.named name, .new⟩
  let _ ← eat .kwEnd .expectedEnd
  let _ ← eat .semi .expectedSemiAfterEnd
  pure s.ast

/-- The bytes from the first token of a range to its last one, with the layout between them. -/
def bytesAt (src : Bytes) (r : Range) : Bytes :=
  if r.start < r.stop then
    match (lex src)[r.start]?, (lex src)[r.stop - 1]? with
    | some first, some last => slice src first.start last.stop
    | _, _ => []
  else []

def innerAt (src : Bytes) (r : Range) : Bytes := (bytesAt src r).tail.dropLast

/-- A `performs` clause names effects, numbers and nothing else, and the argument of
`@interrupt` is not empty. -/
def passes (src : Bytes) : Site → Bool
  | .performs clause => (Irgen.parsePerforms (innerAt src clause)).isSome
  | .interrupt parens => (innerAt src parens) != []

def parseModuleAst (src : Bytes) : Except ParseError ModuleAst :=
  match parseModule.run (passes src) (tokens src) 0 with
  | .ok (ast, _, _) => .ok ast
  | .error e => .error e

end Tyu.Frontend

import Tyu.Lower.Build

/-! # Interfaces -/

namespace Tyu.Irgen

open Lib

abbrev Bytes := List UInt8

def bytesOf (s : String) : Bytes := s.toUTF8.toList

def decoded (bytes : Bytes) : List Char :=
  match String.fromUTF8? ⟨bytes.toArray⟩ with
  | some s => s.toList
  | none => []

def mentions (name token : Bytes) : Bool := token.tails.any fun t => name.isPrefixOf t

def EFFECT_CLAUSE_NAMES : List (String × BitVec 16) :=
  [("suspend", 1#16), ("interrupt", 2#16), ("diverge", 4#16), ("mmio", 8#16), ("alloc", 16#16)]

def afterKey (key : List Char) : List Char → Option (List Char)
  | [] => if key.isEmpty then some [] else none
  | c :: cs =>
    if key.isPrefixOf (c :: cs) then some ((c :: cs).drop key.length) else afterKey key cs

def decimal : List Char → Option Nat
  | [] => none
  | cs => some (cs.foldl (fun v c => v * 10 + (c.toNat - '0'.toNat)) 0)

/-- Digits and signs as an `i16`. -/
def parseI16 : List Char → Option Int
  | '-' :: cs => do
    let n ← if cs.all Char.isDigit then decimal cs else none
    if n ≤ 2 ^ 15 then some (-n) else none
  | cs => do
    let n ← if cs.all Char.isDigit then decimal cs else none
    if n < 2 ^ 15 then some n else none

def parseU32 (cs : List Char) : Option Nat := (decimal cs).filter fun n => n < 2 ^ 32

/-- The effect bits, `net` and `high` of a token `!\x7b … \x7d`.  An effect counts where its name
occurs in the token. -/
def parseEffectBits (token : Bytes) : BitVec 16 × Int × Nat :=
  if token.length < 4 then (0#16, 0, 0)
  else
    let bits := EFFECT_CLAUSE_NAMES.foldl
      (fun bits p => if mentions (bytesOf p.1) token then bits ||| p.2 else bits) 0#16
    let text := decoded token
    let net := (afterKey "net=".toList text).bind fun rest =>
      parseI16 (rest.takeWhile fun c => c.isDigit || c == '-')
    let high := (afterKey "high=".toList text).bind fun rest =>
      parseU32 (rest.takeWhile Char.isDigit)
    (bits, net.getD 0, high.getD 0)

def isTrimmed (c : Char) : Bool :=
  let n := c.toNat
  (0x09 ≤ n && n ≤ 0x0D) || n == 0x20 || n == 0x85 || n == 0xA0 || n == 0x1680 ||
    (0x2000 ≤ n && n ≤ 0x200A) || n == 0x2028 || n == 0x2029 || n == 0x202F || n == 0x205F ||
    n == 0x3000

def trimmed (cs : List Char) : List Char :=
  ((cs.dropWhile isTrimmed).reverse.dropWhile isTrimmed).reverse

def knownSegment (segment : List Char) : Bool :=
  let s := trimmed segment
  s.isEmpty || "net=".toList.isPrefixOf s || "high=".toList.isPrefixOf s ||
    EFFECT_CLAUSE_NAMES.any fun p => p.1.toList == s

/-- What the `performs` clauses of a word declare; without one, nothing. -/
structure Performs where
  bits : BitVec 16
  net : Int
  high : Nat
  explicit : Bool
  silent : explicit = false → bits = 0#16 ∧ net = 0 ∧ high = 0 := by simp

def Performs.none : Performs := ⟨0#16, 0, 0, false, fun _ => ⟨rfl, rfl, rfl⟩⟩

/-- One clause, by what stands between its braces; of that 123 bytes are read.  It takes the
place of an earlier one. -/
def parsePerforms (inner : Bytes) : Option Performs :=
  let parsed := parseEffectBits (bytesOf "!\x7b" ++ inner.take 123 ++ bytesOf "\x7d")
  if ((decoded inner).splitOn ',').all knownSegment then
    some ⟨parsed.1, parsed.2.1, parsed.2.2, true, by simp⟩
  else .none

def parseClauses : List Bytes → Performs → Option Performs
  | [], p => some p
  | inner :: rest, _ => (parsePerforms inner).bind fun p => parseClauses rest p

inductive DeclKind where
  | word | type | subtype | struct | enum | const | resource | registerMap | owned | iso
deriving DecidableEq

inductive AttrAst where
  | interrupt (vector : Range)
  | other (text : Range)
deriving DecidableEq

structure DeclAst where
  kind : DeclKind
  name : String
  sig : Option Range
  attrs : List AttrAst
  body : Option Range
  requires : Option Range
  ensures : Option Range
  capSet : Option (List String)
  performs : Performs

structure ImportAst where
  moduleName : String
  names : List String

structure ModuleAst where
  name : String
  imports : List ImportAst
  hasExportStmt : Bool
  exports : List String
  decls : List DeclAst
  src : Source

/-- The files that the search directories hold: found or not, and parsed or not. -/
structure Files where
  defFile : String → Option (Option ModuleAst)
  modFile : String → Option (Option ModuleAst)

namespace ModuleAst

def exportNames (m : ModuleAst) : List String :=
  if m.hasExportStmt then m.exports else m.decls.map DeclAst.name

def findDecl (m : ModuleAst) (name : String) : Option DeclAst :=
  m.decls.find? fun d => d.name == name

def isExported (m : ModuleAst) (name : String) : Bool :=
  if m.hasExportStmt then m.exports.contains name else (m.findDecl name).isSome

end ModuleAst

def sameToken (a b : Token) : Bool :=
  a.kind == b.kind &&
    (a.text == b.text || !(a.kind == .ident || a.kind == .number || a.kind == .string ||
      a.kind == .kwPerforms || a.kind == .other))

def sameTokens : List Token → List Token → Bool
  | [], [] => true
  | a :: as, b :: bs => sameToken a b && sameTokens as bs
  | _, _ => false

def sigEq (a : Source) (r : Range) (b : Source) (s : Range) : Bool :=
  sameTokens ((a.tokens.drop r.start).take (r.stop - r.start))
    ((b.tokens.drop s.start).take (s.stop - s.start))

def checkWords (defAst modAst : ModuleAst) (defDecl modDecl : DeclAst) : Except Nat Unit := do
  let defSig ← expect defDecl.sig 2216
  let modSig ← expect modDecl.sig 2217
  require (sigEq defAst.src defSig modAst.src modSig = true) 2218
  require (defDecl.performs.bits = modDecl.performs.bits ∧
    defDecl.performs.net = modDecl.performs.net ∧
    defDecl.performs.high = modDecl.performs.high) 2219

/-- Compare one exported declaration of an interface with its implementation. -/
def checkDecl (defAst modAst : ModuleAst) (name : String) : Except Nat Unit := do
  let defDecl ← expect (defAst.findDecl name) 2212
  let modDecl ← expect (modAst.findDecl name) 2213
  require (defDecl.kind = modDecl.kind) 2214
  require (defDecl.attrs = modDecl.attrs) 2215
  if defDecl.kind = .word then checkWords defAst modAst defDecl modDecl else pure ()

def checkIface (defAst modAst : ModuleAst) : Except Nat Unit := do
  defAst.exportNames.forM fun name => require (modAst.isExported name = true) 2210
  modAst.exportNames.forM fun name => require (defAst.isExported name = true) 2211
  defAst.exportNames.forM (checkDecl defAst modAst)

/-- One import: its interface is there, exports what is named, and fits its
implementation. -/
def checkImport (files : Files) (imp : ImportAst) : Except Nat Unit := do
  let file ← expect (files.defFile imp.moduleName) 2201
  let defAst ← expect file 2202
  imp.names.forM fun sym => require (defAst.isExported sym = true) 2203
  match files.modFile imp.moduleName with
  | none => pure ()
  | some file => do
    let modAst ← expect file 2204
    checkIface defAst modAst

def checkOwn (files : Files) (m : ModuleAst) : Except Nat Unit :=
  match files.defFile m.name with
  | none => pure ()
  | some file => do
    let defAst ← expect file 2300
    checkIface defAst m

def checkProgram (files : Files) (m : ModuleAst) : Except Nat Unit := do
  checkOwn files m
  m.imports.forM (checkImport files)

/-- What is left open of a compilation: the parser of signatures, the hash of contracts, the
declarations in scope, the session of a module, fuel, and the text of operations. -/
structure Build where
  parseWordSig : Source → Range → Option WordSig
  contractHash : List String → List String → Nat
  env : ModuleAst → Env
  session : ModuleAst → Session
  fuel : Nat
  opsText : Word → String

/-- The names in the clauses of a word, hashed; a word without clauses has no hash. -/
def wordContractHash (b : Build) (src : Source) (requires ensures : Option Range) : Nat :=
  let names := fun clause : Option Range =>
    (clause.map fun r => contractPredicateNames src r).getD []
  if (names requires).isEmpty && (names ensures).isEmpty then 0
  else b.contractHash (names requires) (names ensures)

def Performs.bound (p : Performs) : StackBound :=
  if p.net ≠ 0 ∨ p.high ≠ 0 then
    ⟨p.net, if p.high = 2 ^ 32 - 1 then .top else .slots p.high⟩
  else .ID

def Performs.effects (p : Performs) : EffectSet :=
  if p.bits ≠ 0#16 then .fromBits p.bits else .empty

def entryOf (b : Build) (src : Source) (d : DeclAst) (name : Atom) (sig : WordSig) : WordEntry where
  name := name
  sig := sig
  performs := d.performs.effects
  requires := .empty
  bound := d.performs.bound
  contractHash := wordContractHash b src d.requires d.ensures

/-- Enter a declaration, when it is a word with a signature; there is room for 256. -/
def enterWord (b : Build) (src : Source) (badSig full badName : Nat) (d : DeclAst)
    (scope : List WordEntry) : Except Nat (List WordEntry) :=
  if d.kind ≠ .word then .ok scope
  else
    match d.sig with
    | none => .ok scope
    | some range => do
      let sig ← expect (b.parseWordSig src range) badSig
      require (scope.length < 256) full
      let name ← expect (Atom.new d.name) badName
      pure (scope ++ [entryOf b src d name sig])

def enterExports (b : Build) (defAst : ModuleAst) (scope : List WordEntry) :
    Except Nat (List WordEntry) :=
  defAst.exportNames.foldlM (fun scope name =>
    match defAst.findDecl name with
    | none => .ok scope
    | some d => enterWord b defAst.src 2205 2207 2206 d scope) scope

def loadImportSigs (b : Build) (files : Files) (m : ModuleAst) (scope : List WordEntry) :
    Except Nat (List WordEntry) :=
  m.imports.foldlM (fun scope imp => do
    let file ← expect (files.defFile imp.moduleName) 2201
    let defAst ← expect file 2202
    enterExports b defAst scope) scope

def loadLocalSigs (b : Build) (m : ModuleAst) (scope : List WordEntry) :
    Except Nat (List WordEntry) :=
  m.decls.foldlM (fun scope d => enterWord b m.src 2219 2223 2220 d scope) scope

def builtinEntry (name : Atom) (inputs outputs : FixedVec TypeAtom 8) (performs : EffectSet)
    (bound : StackBound) : WordEntry :=
  ⟨name, ⟨inputs, outputs⟩, performs, .empty, bound, 0⟩

def POP_B : StackBound := ⟨-1, .slots 0⟩

def binaryEntry (name : Atom) (operand result : TypeAtom) : WordEntry :=
  builtinEntry name ⟨[operand, operand], by simp⟩ ⟨[result], by simp⟩ .empty POP_B

def builtinWords : List WordEntry :=
  [builtinEntry ⟨"dup", by decide⟩ ⟨[AT_I64], by simp⟩ ⟨[AT_I64, AT_I64], by simp⟩ .empty
      ⟨1, .slots 1⟩,
    builtinEntry ⟨"drop", by decide⟩ ⟨[AT_I64], by simp⟩ .new .empty POP_B,
    builtinEntry ⟨"swap", by decide⟩ ⟨[AT_I64, AT_I64], by simp⟩ ⟨[AT_I64, AT_I64], by simp⟩
      .empty .ID,
    binaryEntry ⟨"+", by decide⟩ AT_I64 AT_I64,
    binaryEntry ⟨"-", by decide⟩ AT_I64 AT_I64,
    binaryEntry ⟨"*", by decide⟩ AT_I64 AT_I64,
    binaryEntry ⟨">", by decide⟩ AT_I64 AT_BOOL,
    binaryEntry ⟨"<", by decide⟩ AT_I64 AT_BOOL,
    binaryEntry ⟨">=", by decide⟩ AT_I64 AT_BOOL,
    binaryEntry ⟨"<=", by decide⟩ AT_I64 AT_BOOL,
    binaryEntry ⟨"==", by decide⟩ AT_I64 AT_BOOL,
    binaryEntry ⟨"and", by decide⟩ AT_BOOL AT_BOOL,
    binaryEntry ⟨"or", by decide⟩ AT_BOOL AT_BOOL,
    builtinEntry ⟨"not", by decide⟩ ⟨[AT_BOOL], by simp⟩ ⟨[AT_BOOL], by simp⟩ .empty .ID,
    builtinEntry ⟨"call", by decide⟩ ⟨[AT_QUOT], by simp⟩ .new .empty ⟨0, .top⟩,
    builtinEntry ⟨"platform.task.yield", by decide⟩ .new .new (.fromBits EffectSet.SUSPEND) .ID]

def initEnv (b : Build) (files : Files) (m : ModuleAst) : Except Nat (List WordEntry) := do
  let scope ← loadImportSigs b files m builtinWords
  loadLocalSigs b m scope

def DeclAst.lowered (b : Build) (src : Source) (d : DeclAst) : Decl where
  name := d.name
  sig := d.sig.bind (b.parseWordSig src)
  isInterrupt := d.attrs.any fun a => match a with
    | .interrupt _ => true
    | .other _ => false
  body := d.body
  requires := d.requires
  ensures := d.ensures
  capSet := d.capSet
  effectBits := d.performs.bits
  hasExplicitPerforms := d.performs.explicit

inductive BuildError where
  | iface (code : Nat)
  | type (e : TcError)

/-- A compiled module: the scope it started with, the scope with the summaries of its own
words, and the words. -/
structure Compiled where
  scope : List WordEntry
  summaries : List WordEntry
  words : List LoweredWord

def ModuleAst.wordDecls (m : ModuleAst) : List DeclAst := m.decls.filter fun d => d.kind = .word

def compileModule (b : Build) (files : Files) (m : ModuleAst) : Except BuildError Compiled := do
  (checkProgram files m).mapError .iface
  let scope ← (initEnv b files m).mapError .iface
  let out ← (forEachIrWord { b.env m with src := m.src, words := scope } b.fuel b.opsText
    (m.wordDecls.map (DeclAst.lowered b m.src)) (m.decls.length + 1) (b.session m)).mapError .type
  pure ⟨scope, out.2, out.1⟩

end Tyu.Irgen

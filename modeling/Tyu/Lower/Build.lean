import Tyu.Lower.CompileControl

/-!
# Building words and modules

The prologue moves the arguments into locals and checks them, the epilogue checks the results;
between them stands the body.
-/

namespace Tyu.Irgen

open Lib Obl

def builtinTypes : FixedVec Atom 64 :=
  ⟨[AT_EMPTY, AT_I64, AT_BOOL, AT_STR, AT_PTR, AT_PTR_MUT, AT_MMIO], by decide⟩

def builtinSizes : FixedVec Nat 64 := ⟨[0, 8, 1, 8, 8, 8, 8], by decide⟩

def emptyWord (name : Atom) : Word where
  name := name
  sig := .empty
  performs := .empty
  requires := .empty
  bound := .ID
  entry := ⟨0⟩
  types := builtinTypes
  typeSizes := builtinSizes
  typeClasses := .new
  apertures := .new
  subtypeBases := ⟨List.replicate 7 TY_EMPTY, by decide⟩
  blocks := .new

def Gen.blank (Γ : Env) (session : Session) (arenaLen : Nat) (sig : WordSig) (name : Atom) : Gen where
  word := emptyWord name
  sig := sig
  stack := (sig.inputs.items.map Value.plain).reverse
  locals := []
  nextScope := 1
  scopeStack := []
  ctx := .new
  ledger := []
  acc := .ID
  terminated := false
  contractPredDepth := 0
  predEntryNet := 0
  predPeakSlots := 0
  predClauseNames := []
  nextCallIsPredicate := false
  interp := .new Γ.wordBits sig.inputs.len 64
  session := session
  wordApertures := .new
  extraWords := .new
  arenaLen := arenaLen
  quoteId := 0

def openWord (Γ : Env) : GenM Unit := do
  let g ← get
  let sig ← lirSigForEntry Γ g.sig
  modify fun g => { g with word := { g.word with sig := sig } }
  let entry ← need (FixedVec.ofList? sig.inputs.items) .typeTableFull
  let _ ← addBlock entry

def fillSubtypeBases (Γ : Env) : GenM Unit := do
  let g ← get
  let bases ← g.word.types.items.mapM fun atom =>
    match findSubtype Γ.subtypes atom with
    | some st => tyIdOfType Γ st.base
    | none => pure TY_EMPTY
  let bases ← need (FixedVec.ofList? bases) .typeTableFull
  modify fun g => { g with word := { g.word with subtypeBases := bases } }

def fillTypeClasses : GenM Unit := do
  let g ← get
  let classes ← need
    (FixedVec.ofList? (g.word.types.items.map fun atom => TypeClass.classOf atom.text))
    .typeTableFull
  modify fun g => { g with word := { g.word with typeClasses := classes } }

def arenaAlloc : GenM Unit := fun g =>
  if 17 ≤ g.arenaLen then .error .arenaFull else .ok ((), { g with arenaLen := g.arenaLen + 1 })

def finish (Γ : Env) : GenM Word := do
  fillSubtypeBases Γ
  fillTypeClasses
  modify fun g => { g with word := { g.word with apertures := g.wordApertures, bound := g.acc } }
  arenaAlloc
  let g ← get
  pure g.word

/-! ## Prologue and epilogue -/

def Gen.inputSlots (g : Gen) : List ((TypeAtom × TypeId) × Nat) :=
  (g.sig.inputs.items.zip g.word.sig.inputs.items).zipIdx

def Gen.outputSlots (g : Gen) : List ((TypeAtom × TypeId) × Nat) :=
  (g.sig.outputs.items.zip g.word.sig.outputs.items).zipIdx

def loadInputs (Γ : Env) (cur : BlockId) : GenM Unit := do
  let g ← get
  g.inputSlots.forM fun p => do
    emitOp Γ cur (.localGet p.2 p.1.2) .UNKNOWN
    push (.plain p.1.1)

def compileClause (Γ : Env) (compile : Compile) (cur : BlockId) (clause : Range) (n : Nat) :
    GenM BlockId := do
  let before ← get
  let snap := predicateOriginSnapshot before cur n
  beginContractPredicate Γ clause
  let cur ← compileQuoteSpan compile cur clause false
  endContractPredicate
  let g ← get
  check (g.stack.length = before.stack.length + 1) .contractDepth
  check (g.stack.head? = some (.plain AT_BOOL)) .contractNotBool
  check (predicateOriginSnapshot g cur n = snap) .contractModifiedInputs
  pure cur

def finishClause (Γ : Env) (cur : BlockId) (status : VerdictStatus) : GenM Unit := do
  discard
  let g ← get
  if emitContractCheck g.checks status then emitOp Γ cur (.trapIfFalse .contractFail) .UNKNOWN
  else if g.checks = .undischarged then
    let tid ← tyIdOfType Γ AT_BOOL
    emitOp Γ cur (.drop tid) .UNKNOWN
  else pure ()

def checkInputs (Γ : Env) (cur : BlockId) : GenM Unit := do
  let g ← get
  g.inputSlots.forM fun p =>
    match findSubtype Γ.subtypes p.1.1 with
    | some st => do
      let status ← recordSubtypeParamObligation Γ cur p.2 st
      emitUnlessClosed status (emitSubtypeRangeTrap Γ cur p.2 p.1.2 st .UNKNOWN)
    | none => pure ()

def emitPrologue (Γ : Env) (compile : Compile) (cur : BlockId) (requires : Option Range) :
    GenM BlockId := do
  let g ← get
  g.inputSlots.reverse.forM fun p => do
    let _ ← popOr .stackUnderflow
    emitOp Γ cur (.localSet p.2 p.1.2) .UNKNOWN
  checkInputs Γ cur
  loadInputs Γ cur
  match (if g.checks = .off then none else requires) with
  | some req => do
    let n := g.sig.inputs.len
    let status ← recordContractPreObligation Γ g.word.name.text n
    let cur ← compileClause Γ compile cur req n
    finishClause Γ cur status
    pure cur
  | none => pure cur

/-- The range checks of the results, which sit in temporaries from `tmp` on. -/
def checkOutputs (Γ : Env) (cur : BlockId) (tmp : Nat) (outIvs : List Interval) : GenM Unit := do
  let g ← get
  g.outputSlots.forM fun p =>
    match findSubtype Γ.subtypes p.1.1 with
    | some st => do
      let status ← recordSubtypeReturnObligation Γ p.2 st outIvs
      emitUnlessClosed status (emitSubtypeRangeTrap Γ cur (tmp + p.2) p.1.2 st .UNKNOWN)
    | none => pure ()

/-- Check the results: through temporaries where checks are emitted, else only for the
record. -/
def stageOutputs (Γ : Env) (cur : BlockId) : GenM Unit := do
  let g ← get
  let outIvs := (g.interp.stateOrFresh cur).topNIntervals g.sig.outputs.len
  if g.checks = .all ∨ g.checks = .undischarged then
    let tmp := tempBaseSlot g
    g.outputSlots.reverse.forM fun p => do
      let _ ← popOr .stackUnderflow
      emitOp Γ cur (.localSet (tmp + p.2) p.1.2) .UNKNOWN
    checkOutputs Γ cur tmp outIvs
    g.outputSlots.forM fun p => emitOp Γ cur (.localGet (tmp + p.2) p.1.2) .UNKNOWN
    setStack g.stack
  else
    g.outputSlots.forM fun p =>
      match findSubtype Γ.subtypes p.1.1 with
      | some st => do
        let _ ← recordSubtypeReturnObligation Γ p.2 st outIvs
      | none => pure ()

def emitEpilogue (Γ : Env) (compile : Compile) (cur : BlockId) (ensures : Option Range) :
    GenM BlockId := do
  let g ← get
  let cur ← match (if g.checks = .off then none else ensures) with
    | some ens => do
      let cur ← compileClause Γ compile cur ens g.sig.outputs.len
      let g ← get
      let status ← recordContractPostObligation Γ ((g.interp.stateOrFresh cur).topInterval)
      finishClause Γ cur status
      pure cur
    | none => pure cur
  stageOutputs Γ cur
  pure cur

/-! ## Quotations -/

structure QuoteSig where
  sig : WordSig
  performs : EffectSet
  body : Range
  hasExplicitPerforms : Bool

/-- Does the text mention the effect within its first `room` characters? -/
def mentionsSuspend (text : List Char) (room : Nat) : Bool :=
  (List.range (room + 1 - 7)).any fun i => "suspend".toList.isPrefixOf (text.drop i)

/-- The effects between the braces of `performs { … }`, of which the source looks at 123
bytes; the cursor after them. -/
def parseQuoteEffects (src : Source) : Nat → Nat → Nat → Cursor → EffectSet × Cursor
  | 0, _, _, lex => (.empty, lex)
  | fuel + 1, first, depth, lex =>
    let (t, lex) := src.next lex
    if t.kind = .eof then (.empty, lex)
    else if t.kind = .rBrace ∧ depth = 1 then (.empty, lex)
    else
      let here : EffectSet :=
        if mentionsSuspend t.text.toList (min t.text.length (first + 123 - t.span.start)) then
          .fromBits EffectSet.SUSPEND
        else .empty
      let (rest, lex) := parseQuoteEffects src fuel first
        (if t.kind = .lBrace then depth + 1 else if t.kind = .rBrace then depth - 1 else depth) lex
      (here.union rest, lex)

/-- Read `( … )` and `performs { … }` at the start of a quotation. -/
def parseQuoteSig (Γ : Env) (quot : Range) : Except TcError QuoteSig := do
  require (quot.start + 2 < quot.stop) .quoteSyntax
  let (first, lex) := Γ.src.next quot.inner
  require (first.kind = .lParen) .quoteSyntax
  let (range, lex) ← expect (Γ.src.captureBalanced .lParen .rParen lex) .internal
  let sig ← expect (Γ.parseWordSig range) .typeParseFailed
  let (next, lex₁) := Γ.src.next lex
  if next.kind = .kwPerforms then
    let (brace, lex₂) := Γ.src.next lex₁
    if brace.kind = .lBrace then
      let (performs, lex₃) := parseQuoteEffects Γ.src (lex₂.stop - lex₂.start) brace.span.stop 1 lex₂
      pure ⟨sig, performs, lex₃, true⟩
    else pure ⟨sig, .empty, lex₂, true⟩
  else pure ⟨sig, .empty, lex, false⟩

def quoteName (id : Nat) : String :=
  "__quot_" ++ String.ofList ((List.range 8).map fun i => hexDigit (id / 16 ^ i % 16))

def quoteWordName : GenM Atom := fun g =>
  .ok ((Atom.new (quoteName g.quoteId)).getD AT_QUOT,
    { g with quoteId := (g.quoteId + 1) % 2 ^ 32 })

/-- What the word of a quotation may decide on: no obligations, no verdicts. -/
def Session.forQuote (s : Session) : Session :=
  { s with extraction := none, verdicts := none, keepContractChecks := false }

def popAllCtx : GenM Unit := modify fun g => { g with ctx := .new }

def checkOutputsDeclared (Γ : Env) : GenM Unit := do
  let g ← get
  check (g.stack.length = g.sig.outputs.len) .outputCountMismatch
  check (outputsCompatible Γ g.stack g.sig.outputs.items = true) .outputTypeMismatch

def checkDeclared (explicit : Bool) (declared : EffectSet) : GenM Unit := do
  let g ← get
  check ((explicit && !(g.word.performs.minus declared).isEmpty) = false) .effectNotDeclared

def quoteBody (Γ : Env) (compile : Compile) (parsed : QuoteSig) (lock : Option ContextFrame) :
    GenM Word := do
  openWord Γ
  match lock with
  | some f => pushCtx .lock (match f.resource with
    | some r => .resource r
    | none => .none)
  | none => pure ()
  let cur ← emitPrologue Γ compile ⟨0⟩ none
  if parsed.performs.contains EffectSet.SUSPEND then pushCtx .wordBody .none
  let cur ← compile cur parsed.body false
  popAllCtx
  checkDeclared parsed.hasExplicitPerforms parsed.performs
  let g ← get
  check (checkNoScopedLive g.stack = true) .borrowEscape
  if g.terminated = false then
    checkOutputsDeclared Γ
    emitOp Γ cur .ret .UNKNOWN
  fillSubtypeBases Γ
  modify fun g => { g with word := { g.word with bound := g.acc } }
  arenaAlloc
  let g ← get
  pure g.word

/-- Build the word of a quotation: its name, what it declares, and its bound.  The words
of quotations inside it are built and dropped. -/
def buildQuoteWord (Γ : Env) (compile : Compile) (quot : Range) (inheritContext : Bool) :
    GenM (Atom × QuoteSig × StackBound) := do
  let parsed ← liftM (parseQuoteSig Γ quot)
  let name ← quoteWordName
  let g ← get
  let lock := if inheritContext then g.ctx.lockFrame else none
  let built ← liftM ((quoteBody Γ compile parsed lock).run
    (.blank Γ (Session.forQuote g.session) g.arenaLen parsed.sig name))
  let words ← need (g.extraWords.push built.1) .opTableFull
  modify fun g => { g with extraWords := words, arenaLen := built.2.arenaLen }
  pure (name, parsed, built.1.bound)

def mutBorrowLive (g : Gen) : Bool :=
  g.stack.any fun v =>
    match v with
    | .ptr _ true place => place != PLACE_NONE && decide (place < g.ledger.length)
    | _ => false

/-- `call`: the bound gives up a slot for the quotation, which was never on the stack. -/
def compileCallQuote (Γ : Env) (compile : Compile) (cur : BlockId) (span : Span) :
    GenM BlockId := do
  let bodySpan ← popQuot .callPopQuot .callPopQuot
  account ⟨-1, .slots 0⟩
  let built ← buildQuoteWord Γ compile bodySpan true
  let performs := built.2.1.performs
  let sig := built.2.1.sig
  let g ← get
  check ((performs.contains EffectSet.SUSPEND && suspendBlocked g) = false) .suspendForbidden
  check (mutBorrowLive g = false) .borrowAlias
  account built.2.2
  applySig Γ sig
  let callSig ← lirSigForEntry Γ sig
  emitOp Γ cur (.call built.1 callSig performs .empty built.2.2) span
  pure cur

/-- `platform.task.spawn` -/
def compileTaskSpawn (Γ : Env) (compile : Compile) (cur : BlockId) (span : Span) :
    GenM BlockId := do
  let body ← popOr .taskSpawnPop
  let g ← get
  check (inContractPredicate g = false) .contractPredicateImpure
  let bodySpan ← need body.quot? .taskSpawnPop
  account ⟨-1, .slots 0⟩
  let built ← buildQuoteWord Γ compile bodySpan false
  check (built.2.1.sig.inputs.len = 0 ∧ built.2.1.sig.outputs.len = 0) .taskSpawnSig
  let taskTid ← tyIdOfType Γ TYPE_TASK
  push (.plain TYPE_TASK)
  emitOp Γ cur (.taskSpawn built.1 taskTid) span
  pure cur

/-- `platform.task.run`: the body is compiled in place, and its suspension stays inside. -/
def compileTaskRun (compile : Compile) (cur : BlockId) : GenM BlockId := do
  let g ← get
  check (g.ctx.forbidding (.fromBits EffectSet.SUSPEND) = false) .suspendForbidden
  check (anyScopedLive g = false) .suspendForbidden
  let bodySpan ← popQuot .taskRunPop .taskRunNotQuot
  account ⟨-1, .slots 0⟩
  let base ← getStack
  let g ← get
  let before := g.word.performs
  pushCtx .handler .none
  let cur ← compileQuoteSpan compile cur bodySpan false
  popCtx
  modify fun g => { g with word := { g.word with
    performs := before.union ((g.word.performs.minus before).without EffectSet.SUSPEND) } }
  let stack ← getStack
  check (stack.length = base.length) .taskRunDepth
  check (stack = base) .taskRunModified
  pure cur

/-! ## Names and spans -/

/-- `Enum.Variant`: a name with exactly one dot, neither at its end. -/
def enumParts (name : String) : Option (TypeAtom × TypeAtom) :=
  match splitDots name with
  | [enumPart, varPart] =>
    if varPart = "" then none
    else (Atom.new enumPart).bind fun e => (Atom.new varPart).map fun v => (e, v)
  | _ => none

def MmioResolved.target : MmioResolved → Nat × Nat × AccessMode
  | .reg r => (r.aperture, r.offset, r.access)
  | .field f => (f.aperture, f.offset, f.regAccess)

def compileMmioPlace (Γ : Env) (cur : BlockId) (name : String) (span : Span) : GenM Bool := do
  let resolved ← liftM (Γ.resolveMmioPlace (qualnameToPlacepath name))
  match resolved with
  | none => pure false
  | some res => do
    recordAperture Γ res.target.1 res.target.2.2
    push (.mmioPlace res)
    let place ← lirAtom name
    emitOp Γ cur (.mmioPlace place res.target.1 res.target.2.1) span
    pure true

/-- `lock [ … ]` pushes its block as a quotation first. -/
def compileLockName (Γ : Env) (compile : Compile) (cur : BlockId) (lex : Cursor) (span : Span) :
    GenM (BlockId × Cursor) := do
  let next := (Γ.src.next lex).1
  let lex₁ := (Γ.src.next lex).2
  if next.kind = .lBracket then
    let block ← need (Γ.src.captureScopedBlock lex₁) .typeParseFailed
    push (.quot ⟨lex.start, block.2.start⟩)
    let cur ← compileLock Γ compile cur span
    pure (cur, block.2)
  else
    let cur ← compileLock Γ compile cur span
    pure (cur, lex)

def compileWordName (Γ : Env) (compile : Compile) (cur : BlockId) (lex : Cursor) (name : String)
    (span : Span) : GenM (BlockId × Cursor × Bool) := do
  if name == "dup" || name == "drop" || name == "swap" then
    let cur ← compileStackOp Γ cur name span
    pure (cur, lex, false)
  else if name == "as" || name == "as?" || name == "bitcast" then
    let out ← compileCast Γ cur lex name span
    pure (out.1, out.2, false)
  else if name == "if" then
    let cur ← compileIf Γ compile cur span
    pure (cur, lex, false)
  else if name == "while" then
    let cur ← compileWhile Γ compile cur span
    pure (cur, lex, false)
  else if name == "loop" then
    let cur ← compileLoop Γ compile cur span
    pure (cur, lex, false)
  else if name == "return" then
    modify fun g => { g with terminated := true }
    let cur ← compileReturn Γ cur span
    pure (cur, lex, true)
  else if name == "lock" then
    let out ← compileLockName Γ compile cur lex span
    pure (out.1, out.2, false)
  else if name == "call" then
    let cur ← compileCallQuote Γ compile cur span
    pure (cur, lex, false)
  else if name == "platform.task.spawn" then
    let cur ← compileTaskSpawn Γ compile cur span
    pure (cur, lex, false)
  else if name == "platform.task.run" then
    let cur ← compileTaskRun compile cur
    pure (cur, lex, false)
  else
    let g ← get
    match findLocal g ((Atom.new name).getD AT_EMPTY) with
    | some idx => do
      let cur ← compileLocalRef Γ cur idx span
      pure (cur, lex, false)
    | none => do
      compileEnvWord Γ cur name span
      pure (cur, lex, false)

/-- A name: the block where control goes on, the cursor, and whether the span ends here. -/
def compileName (Γ : Env) (compile : Compile) (cur : BlockId) (lex : Cursor) (isIdent : Bool)
    (name : String) (span : Span) : GenM (BlockId × Cursor × Bool) := do
  if name == "true" || name == "false" then
    let cur ← compileBoolLiteral Γ cur name span
    pure (cur, lex, false)
  else
    match (if isIdent then (Atom.new name).filter fun a => (resourceTy Γ.resources a).isSome
      else none) with
    | some atom => do
      push (.resource atom)
      pure (cur, lex, false)
    | none => do
      let isVariant ← match (if isIdent then enumParts name else none) with
        | some (enumTy, var) => compileEnumVariant Γ cur span enumTy var
        | none => pure false
      if isVariant then pure (cur, lex, false)
      else if startsWith name "@" || startsWith name "!" then
        let cur ← compileLoadStore Γ cur name span
        pure (cur, lex, false)
      else
        let isPlace ← if isIdent then compileMmioPlace Γ cur name span else pure false
        if isPlace then pure (cur, lex, false)
        else compileWordName Γ compile cur lex name span

def isFloat (src : Source) (tok : Token) (lex : Cursor) : Bool :=
  tok.kind == .number && (src.next lex).1.kind == .dot &&
    (src.next (src.next lex).2).1.kind == .number

def compileToken (Γ : Env) (compile : Compile) (cur : BlockId) (tok : Token) (lex : Cursor)
    (allowLocals : Bool) : GenM (BlockId × Cursor × Bool) := do
  match tok.kind with
  | .number => do
    let cur ← compileNumber Γ cur tok
    pure (cur, lex, false)
  | .string => do
    let cur ← compileString Γ cur tok
    pure (cur, lex, false)
  | .arrowBind => do
    let out ← compileDestructBind Γ cur lex allowLocals tok.span
    pure (out.1, out.2, false)
  | .lBracket => do
    let out ← compileQuotation Γ cur lex
    pure (out.1, out.2, false)
  | .arrow => throw .internal
  | .dot => do
    let out ← compileDotOp Γ cur lex tok.span
    pure (out.1, out.2, false)
  | .apostrophe => do
    let out ← compileIndex Γ compile cur lex allowLocals tok.span
    pure (out.1, out.2, false)
  | .amp | .ampBang => do
    let out ← compileAddrOf Γ cur lex (tok.kind == .ampBang) tok.span
    pure (out.1, out.2, false)
  | .pipeGreater => do
    let cur ← compileChannelSend Γ cur tok.span
    pure (cur, lex, false)
  | .lessPipe => do
    let cur ← compileChannelRecv Γ cur tok.span
    pure (cur, lex, false)
  | .ampLBracket | .ampBangLBracket => do
    let out ← compileScopedBlock Γ compile cur lex (tok.kind == .ampBangLBracket) allowLocals
      tok.span
    pure (out.1, out.2, false)
  | .ident => do
    let named := Γ.src.readQualifiedName tok lex
    compileName Γ compile cur named.2 true named.1 tok.span
  | .ge | .le | .eqEq | .ne => compileName Γ compile cur lex false tok.text tok.span
  | _ => pure (cur, lex, false)

/-- The tokens of a range in turn; a `return` ends it. -/
def compileTokens (Γ : Env) (compile : Compile) (allowLocals : Bool) :
    Nat → BlockId → Cursor → GenM BlockId
  | 0, _, _ => throw .outOfFuel
  | fuel + 1, cur, lex => do
    let tok := (Γ.src.next lex).1
    let rest := (Γ.src.next lex).2
    if tok.kind = .eof then pure cur
    else
      check (isFloat Γ.src tok rest = false) .floatSyntax
      let out ← compileToken Γ compile cur tok rest allowLocals
      if out.2.2 then pure out.1
      else compileTokens Γ compile allowLocals fuel out.1 out.2.1

/-- Lower a range; `fuel` bounds how deep ranges nest. -/
def compileSpan (Γ : Env) : Nat → Compile
  | 0, _, _, _ => throw .outOfFuel
  | fuel + 1, cur, span, allowLocals =>
    compileTokens Γ (compileSpan Γ fuel) allowLocals (span.stop - span.start + 1) cur span

/-! ## Words -/

structure Decl where
  name : String
  sig : Option WordSig
  isInterrupt : Bool
  body : Option Range
  requires : Option Range
  ensures : Option Range
  /-- the names in `requires { … }` -/
  capSet : Option (List String)
  effectBits : BitVec 16
  hasExplicitPerforms : Bool

def parseCaps : List String → Except TcError CapSet
  | [] => .ok .empty
  | name :: rest => do
    let here ←
      if name = "suspendable" then Except.ok (CapSet.fromBits CapSet.SUSPENDABLE)
      else if startsWith name "write(" ∧ name.toList.getLast? = some ')' then
        .ok (.fromBits CapSet.WRITE)
      else .error .internal
    let rest ← parseCaps rest
    pure (here.union rest)

def paramRoot (i : Nat) : Atom := (Atom.new ("_param_" ++ toString i)).getD AT_EMPTY

def seedPointerParams : GenM Unit := modify fun g =>
  let isPtr := fun (ty : TypeAtom) => ty == AT_PTR || ty == AT_PTR_MUT
  let keys := ((g.sig.inputs.items.zipIdx.filter fun p => isPtr p.1).map fun p =>
    (⟨paramRoot p.2, AT_EMPTY⟩ : PlaceKey))
  { g with
    ledger := (g.ledger ++ keys).take LEDGER_CAP
    stack := (g.stack.reverse.mapIdx fun i v =>
      match g.sig.inputs.items[i]? with
      | some ty => if isPtr ty then .ptr AT_EMPTY (ty == AT_PTR_MUT) (PARAM_BASE + i) else v
      | none => v).reverse }

def stackCeiling (Γ : Env) (decl : Decl) : High :=
  if decl.isInterrupt then .slots ((Γ.descriptor.map CompiledDescriptor.isrStackSlots).getD 32)
  else .top

def seedContext (Γ : Env) (decl : Decl) : GenM Unit := do
  popAllCtx
  if decl.isInterrupt then pushCtx .isr .none
  if stackCeiling Γ decl ≠ .top then pushCtx .bounded .none
  if decl.effectBits &&& 1#16 ≠ 0#16 then pushCtx .wordBody .none

/-- Everything before the body: the signature, the prologue, the capabilities, the
context. -/
def beginWord (Γ : Env) (compile : Compile) (decl : Decl) : GenM BlockId := do
  openWord Γ
  if decl.isInterrupt then performEffects (.fromBits EffectSet.INTERRUPT)
  let cur ← emitPrologue Γ compile ⟨0⟩ decl.requires
  match decl.capSet with
  | some names => do
    let caps ← liftM (parseCaps names)
    modify fun g => { g with word := { g.word with requires := caps } }
  | none => pure ()
  seedPointerParams
  seedContext Γ decl
  pure cur

def checkBody (decl : Decl) : GenM Unit := do
  popAllCtx
  checkDeclared decl.hasExplicitPerforms (.fromBits decl.effectBits)
  let g ← get
  check (checkNoScopedLive g.stack = true) .borrowEscape

def endWord (Γ : Env) (compile : Compile) (cur : BlockId) (decl : Decl) : GenM Word := do
  checkOutputsDeclared Γ
  let cur ← emitEpilogue Γ compile cur decl.ensures
  emitOp Γ cur .ret .UNKNOWN
  let word ← finish Γ
  check (word.bound.high.exceeds (stackCeiling Γ decl) = false)
    (if decl.isInterrupt then .isrStack else .stackExceedsBudget)
  pure word

/-- The body between the two; after a `return` the word is finished as it stands. -/
def wordBody (Γ : Env) (compile : Compile) (decl : Decl) : GenM Word := do
  let cur ← beginWord Γ compile decl
  let cur ← match decl.body with
    | some body => compile cur body true
    | none => pure cur
  checkBody decl
  let g ← get
  if g.terminated then finish Γ else endWord Γ compile cur decl

structure IrWordOutput where
  word : Word
  extraWords : FixedVec Word 16
  session : Session

def buildIrWord (Γ : Env) (fuel : Nat) (session : Session) (decl : Decl) (sig : WordSig) :
    Except TcError IrWordOutput := do
  let name ← expect (Atom.new decl.name) .atomTooLong
  let (word, g) ← (wordBody Γ (compileSpan Γ fuel) decl).run (.blank Γ session 0 sig name)
  pure ⟨word, g.extraWords, g.session⟩

/-!
## Modules

The words of a module are lowered in passes until their summaries, the effects and the
stack bounds under which callers see them, no longer change.  Then every word is lowered
once more, verified, and its facts are recorded.
-/

def maxHigh : High → High → High
  | .slots a, .slots b => .slots (max a b)
  | _, _ => .top

def WordEntry.merge (entry : WordEntry) (word : Word) : WordEntry :=
  { entry with
    performs := entry.performs.union word.performs
    bound := ⟨word.bound.net, maxHigh entry.bound.high word.bound.high⟩ }

/-- Merge a lowered word into its entry, the first of its name; has it changed? -/
def mergeWordSummary (name : String) (word : Word) : List WordEntry → List WordEntry × Bool
  | [] => ([], false)
  | entry :: rest =>
    if entry.name.text == name then
      (entry.merge word :: rest, decide (entry.merge word ≠ entry))
    else
      let (rest, changed) := mergeWordSummary name word rest
      (entry :: rest, changed)

def forecastSession (checks : ChecksMode) : Session where
  keepContractChecks := false
  checks := checks
  verdicts := none
  extraction := none
  provenGate := false
  bindObl := none
  refinements := []

def summaryPass (Γ : Env) (fuel : Nat) (checks : ChecksMode) :
    List Decl → List WordEntry → Bool → Except TcError (List WordEntry × Bool)
  | [], env, changed => .ok (env, changed)
  | decl :: rest, env, changed =>
    if decl.body.isNone then summaryPass Γ fuel checks rest env changed
    else do
      let sig ← expect decl.sig .noSig
      let out ← buildIrWord { Γ with words := env } fuel (forecastSession checks) decl sig
      let merged := mergeWordSummary decl.name out.word env
      summaryPass Γ fuel checks rest merged.1 (changed || merged.2)

def localSummaryEnv (Γ : Env) (fuel : Nat) (checks : ChecksMode) (decls : List Decl) :
    Nat → List WordEntry → Except TcError (List WordEntry)
  | 0, _ => .error .summaryDiverged
  | passes + 1, env => do
    let (env, changed) ← summaryPass Γ fuel checks decls env false
    if changed then localSummaryEnv Γ fuel checks decls passes env else pure env

structure WordFact where
  name : String
  net : Int
  high : Nat
  top : Bool
  performs : List String
  divergeFree : Bool
  blocks : Nat

def EFFECT_NAMES : List (BitVec 16 × String) :=
  [(EffectSet.SUSPEND, "suspend"), (EffectSet.INTERRUPT, "interrupt"),
    (EffectSet.DIVERGE, "diverge"), (EffectSet.MMIO, "mmio"), (EffectSet.ALLOC, "alloc")]

def wordFact (name : String) (w : Word) : WordFact where
  name := name
  net := w.bound.net
  high := match w.bound.high with
    | .slots n => n
    | .top => 2 ^ 32 - 1
  top := w.bound.high.isTop
  performs := (EFFECT_NAMES.filter fun p => w.performs.contains p.1).map Prod.snd
  divergeFree := !w.performs.contains EffectSet.DIVERGE
  blocks := w.blocks.len

def ExtractionCtx.beginWord (ctx : ExtractionCtx) (name : String) : ExtractionCtx :=
  { ctx with word := name, counters := fun _ => 0, wordMmioOpen := false }

structure LoweredWord where
  decl : Decl
  word : Word
  extraWords : FixedVec Word 16
  fact : WordFact

/-- Lower and verify one declared word.  `opsText` writes its canonical text. -/
def lowerDecl (Γ : Env) (fuel : Nat) (opsText : Word → String) (session : Session) (decl : Decl) :
    Except TcError (LoweredWord × Session) := do
  let sig ← expect decl.sig .noSig
  let session := { session with
    extraction := session.extraction.map fun ctx => ExtractionCtx.beginWord ctx decl.name }
  let out ← buildIrWord Γ fuel session decl sig
  (verifyWord out.word).mapError .verify
  out.extraWords.items.forM fun w => (verifyWord w).mapError .verify
  let session := { out.session with
    extraction := out.session.extraction.map fun ctx => { ctx with
      set := { ctx.set with words := ctx.set.words ++ [⟨decl.name, opsText out.word⟩] } } }
  pure (⟨decl, out.word, out.extraWords, wordFact decl.name out.word⟩, session)

def lowerDecls (Γ : Env) (fuel : Nat) (opsText : Word → String) :
    List Decl → Session → Except TcError (List LoweredWord)
  | [], _ => .ok []
  | decl :: rest, session =>
    if decl.body.isNone then lowerDecls Γ fuel opsText rest session
    else do
      let (lowered, session) ← lowerDecl Γ fuel opsText session decl
      let rest ← lowerDecls Γ fuel opsText rest session
      pure (lowered :: rest)

/-- Check and lower a module: the summaries, then every word.  `Γ.words` are the words in
scope with their declared summaries; `passes` is one more than the number of
declarations. -/
def forEachIrWord (Γ : Env) (fuel : Nat) (opsText : Word → String) (decls : List Decl)
    (passes : Nat) (session : Session) : Except TcError (List LoweredWord × List WordEntry) := do
  let words ← localSummaryEnv Γ fuel session.checks decls passes Γ.words
  let lowered ← lowerDecls { Γ with words := words } fuel opsText decls session
  pure (lowered, words)

end Tyu.Irgen

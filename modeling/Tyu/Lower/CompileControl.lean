import Tyu.Lower.CompileMemory

/-! # Lowering of control -/

namespace Tyu.Irgen

open Lib Obl

def compileQuoteSpan (compile : Compile) (cur : BlockId) (quot : Range) (allowLocals : Bool) :
    GenM BlockId :=
  if quot.stop ≤ quot.start + 2 then pure cur else compile cur quot.inner allowLocals

def popQuot (missing notQuot : TcError) : GenM Range := do
  let v ← popOr missing
  need v.quot? notQuot

/-- The difference of two 32-bit numbers as an `i32`. -/
def subI32 (a b : Int) : Int := (a - b).bmod (2 ^ 32)

/-- The bound of the code compiled between `prev` and `curr`.  A mark is read as an `i32`. -/
def boundDelta (prev curr : StackBound) : StackBound :=
  ⟨(curr.net - prev.net).bmod (2 ^ 16),
    match curr.high with
    | .top => .top
    | .slots h => .slots (subI32 ((h : Int).bmod (2 ^ 32)) prev.net).toNat⟩

def emitBr (Γ : Env) (cur target : BlockId) (span : Span) : GenM Unit :=
  emitOp Γ cur (.br target) span

/-! ## Branches and loops -/

/-- `if` -/
def compileIf (Γ : Env) (compile : Compile) (cur : BlockId) (span : Span) : GenM BlockId := do
  let elseQ ← popOr .ifPopElse
  let thenQ ← popOr .ifPopThen
  let cond ← popOr .ifPopCond
  check (cond = .plain AT_BOOL) .ifCondNotBool
  account ⟨-1, .slots 0⟩
  let thenSpan ← need thenQ.quot? .ifThenNotQuot
  let elseSpan ← need elseQ.quot? .ifElseNotQuot
  let base ← getStack
  let preIf ← getAcc
  let thenBlk ← newBlock Γ base
  let elseBlk ← newBlock Γ base
  modifyInterp fun l => l.seedFrom thenBlk cur base.length
  modifyInterp fun l => l.seedFrom elseBlk cur base.length
  emitOp Γ cur (.brIf thenBlk elseBlk) span
  setAcc preIf
  let thenEnd ← compileQuoteSpan compile thenBlk thenSpan false
  let thenAcc ← getAcc
  let thenStack ← getStack
  setStack base
  setAcc preIf
  let elseEnd ← compileQuoteSpan compile elseBlk elseSpan false
  let elseAcc ← getAcc
  let elseStack ← getStack
  check (thenStack.length = elseStack.length) .ifBranchDepth
  check (thenStack = elseStack) .ifBranchContent
  setAcc (preIf.compose ((boundDelta preIf thenAcc).branchMax (boundDelta preIf elseAcc)))
  let joinBlk ← newBlock Γ thenStack
  modifyInterp fun l => l.seedJoin joinBlk thenEnd elseEnd thenStack.length
  emitBr Γ thenEnd joinBlk span
  emitBr Γ elseEnd joinBlk span
  setStack thenStack
  pure joinBlk

/-- Close a loop: the bound of the body, the effect, the back edge, and the states after
widening. -/
def closeLoop (Γ : Env) (preAcc : StackBound) (base : List Value) (header bodyEnd after : BlockId)
    (depth content : TcError) (span : Span) : GenM Unit := do
  let bodyAcc ← getAcc
  let bodyStack ← getStack
  check (bodyStack.length = base.length) depth
  check (bodyStack = base) content
  setAcc (preAcc.compose ⟨0, (boundDelta preAcc bodyAcc).high⟩)
  performEffects (.fromBits EffectSet.DIVERGE)
  requireUnforbidden EffectSet.DIVERGE .divergeInBounded
  emitBr Γ bodyEnd header span
  modifyInterp fun l => l.widenLoop header bodyEnd base.length
  modifyInterp fun l => l.seedFrom after header base.length
  setStack base

/-- `while`: the bound of the condition is not kept. -/
def compileWhile (Γ : Env) (compile : Compile) (cur : BlockId) (span : Span) : GenM BlockId := do
  let bodyQ ← popOr .whilePopBody
  let condQ ← popOr .whilePopCond
  let bodySpan ← need bodyQ.quot? .whileBodyNotQuot
  let condSpan ← need condQ.quot? .whileCondNotQuot
  let base ← getStack
  let preWhile ← getAcc
  let header ← newBlock Γ base
  modifyInterp fun l => l.seedFrom header cur base.length
  emitBr Γ cur header span
  setAcc preWhile
  let condEnd ← compileQuoteSpan compile header condSpan false
  let condStack ← getStack
  check (condStack.length = base.length + 1) .whileCondDepth
  check (condStack.head? = some (.plain AT_BOOL)) .whileCondNotBool
  check (condStack.tail = base) .whileCondModifiedStack
  let bodyBlk ← newBlock Γ base
  let afterBlk ← newBlock Γ base
  emitOp Γ condEnd (.brIf bodyBlk afterBlk) span
  modifyInterp fun l => l.seedFrom bodyBlk condEnd base.length
  modifyInterp fun l => l.seedFrom afterBlk condEnd base.length
  setStack base
  setAcc preWhile
  let bodyEnd ← compileQuoteSpan compile bodyBlk bodySpan false
  closeLoop Γ preWhile base header bodyEnd afterBlk .whileBodyDepth .whileBodyModifiedStack span
  pure afterBlk

/-- `loop`: the constant that its check block pushes is not accounted. -/
def compileLoop (Γ : Env) (compile : Compile) (cur : BlockId) (span : Span) : GenM BlockId := do
  let bodySpan ← popQuot .loopPopBody .loopBodyNotQuot
  let base ← getStack
  let preLoop ← getAcc
  let checkBlk ← newBlock Γ base
  modifyInterp fun l => l.seedFrom checkBlk cur base.length
  emitBr Γ cur checkBlk span
  let bodyBlk ← newBlock Γ base
  let afterBlk ← newBlock Γ base
  emitOp Γ checkBlk (.constBool true) span
  emitOp Γ checkBlk (.brIf bodyBlk afterBlk) span
  modifyInterp fun l => l.seedFrom bodyBlk checkBlk base.length
  modifyInterp fun l => l.seedFrom afterBlk checkBlk base.length
  setAcc preLoop
  let bodyEnd ← compileQuoteSpan compile bodyBlk bodySpan false
  closeLoop Γ preLoop base checkBlk bodyEnd afterBlk .loopBodyDepth .loopBodyModifiedStack span
  pure afterBlk

def popResource : GenM (Option Atom) := do
  let stack ← getStack
  match stack.head? with
  | some (.resource name) => do
    discard
    pure (some name)
  | _ => pure none

/-- `lock`: interrupts are masked when an interrupt handler may reach the resource. -/
def compileLock (Γ : Env) (compile : Compile) (cur : BlockId) (span : Span) : GenM BlockId := do
  let g ← get
  check (g.ctx.lockFrame.isNone = true) .lockNest
  let bodySpan ← popQuot .lockPopBody .lockBodyNotQuot
  let locked ← popResource
  pushCtx .lock (match locked with
    | some name => .resource name
    | none => .none)
  let base ← getStack
  let mask := locked.any (resourceIsIsrReachable Γ.resources)
  if mask then emitOp Γ cur .interruptDisable span
  let last ← compileQuoteSpan compile cur bodySpan true
  if mask then emitOp Γ last .interruptEnable span
  let stack ← getStack
  check (stack = base) .lockStack
  popCtx
  pure last

def scopedRef (top : TypeAtom) (isMut : Bool) : Except TcError (TypeAtom × Nat) :=
  match arrayElemType top with
  | some elem => do
    let ty ← expect (sliceTypeOfElem elem isMut) .sliceTypeFailed
    let len ← expect (arrayLen top) .sliceTypeFailed
    pure (ty, len)
  | none => if top = TYPE_REGION then .ok (regionRefType isMut, 0) else .error .scopedTypeMismatch

/-- `&[ … ]` and `&![ … ]` -/
def compileScopedBlock (Γ : Env) (compile : Compile) (cur : BlockId) (lex : Cursor) (isMut : Bool)
    (allowLocals : Bool) (span : Span) : GenM (BlockId × Cursor) := do
  let top ← peekOr .emptyStackForScoped
  let ref ← liftM (scopedRef top.toTypeAtom isMut)
  let scope ← enterScope
  push (.scoped ref.1 scope)
  let tid ← tyIdOfType Γ ref.1
  emitOp Γ cur (.scopedEnter tid ref.2) span
  let block ← need (Γ.src.captureScopedBlock lex) .typeParseFailed
  pushCtx (if isMut then .mutBorrow else .readBorrow) (.scope scope)
  let cur ← compile cur block.1 allowLocals
  popCtx
  closeScope scope
  invalidateScopeLocals scope
  leaveScope scope
  pure (cur, block.2)

/-- The values on the stack may be returned where `outputs` are declared. -/
def outputsCompatible (Γ : Env) (stack : List Value) (outputs : List TypeAtom) : Bool :=
  (stack.reverse.zip outputs).all fun p => typeCompatible p.1.toTypeAtom p.2 Γ.subtypes

/-- `return`: no check of the epilogue is emitted before it. -/
def compileReturn (Γ : Env) (cur : BlockId) (span : Span) : GenM BlockId := do
  let g ← get
  check (g.stack.length = g.sig.outputs.len) .returnStackDepth
  check (anyScopedLive g = false) .borrowEscape
  check (outputsCompatible Γ g.stack g.sig.outputs.items = true) .returnTypeMismatch
  emitOp Γ cur .ret span
  pure cur

def applySig (Γ : Env) (sig : WordSig) : GenM Unit := do
  let g ← get
  let need := sig.inputs.len
  check (need ≤ g.stack.length) .sigStackUnderflow
  check (outputsCompatible Γ (g.stack.take need) sig.inputs.items = true) .sigTypeMismatch
  setStack (g.stack.drop need)
  sig.outputs.items.forM fun ty => push (.ofType ty)

def builtinOp (name : String) : Option OpKind :=
  match name with
  | "+" => some .addI64
  | "-" => some .subI64
  | "*" => some .mulI64
  | ">" => some (.cmp TY_BOOL .gt)
  | "<" => some (.cmp TY_BOOL .lt)
  | ">=" => some (.cmp TY_BOOL .ge)
  | "<=" => some (.cmp TY_BOOL .le)
  | "==" => some (.cmp TY_BOOL .eq)
  | "!=" => some (.cmp TY_BOOL .ne)
  | "and" => some .andBool
  | "or" => some .orBool
  | "not" => some .notBool
  | _ => none

def checkCallable (entry : WordEntry) : GenM Unit := do
  let g ← get
  check ((entry.performs.contains EffectSet.SUSPEND && suspendBlocked g) = false) .suspendForbidden
  check ((inContractPredicate g && !((entry.performs.without EffectSet.SUSPEND).without
    EffectSet.DIVERGE).isEmpty) = false) .contractPredicateImpure

def noteSelfCall (name : String) : GenM Unit := do
  let g ← get
  if name == g.word.name.text then
    performEffects (.fromBits EffectSet.DIVERGE)
    account ⟨0, .top⟩
    requireUnforbidden EffectSet.DIVERGE .divergeInBounded
  else pure ()

def emitCall (Γ : Env) (cur : BlockId) (name : String) (entry : WordEntry) (span : Span) :
    GenM Unit := do
  account ⟨(entry.sig.outputs.len : Int) - entry.sig.inputs.len, entry.bound.high⟩
  let sig ← lirSigForEntry Γ entry.sig
  modify fun g => { g with
    nextCallIsPredicate := isPredicateClauseWord g name || g.nextCallIsPredicate }
  let atom ← lirAtom name
  emitOp Γ cur (.call atom sig entry.performs entry.requires entry.bound) span

def compileEnvWord (Γ : Env) (cur : BlockId) (name : String) (span : Span) : GenM Unit := do
  let entry ← need (lookup Γ.words name) .wordNotFound
  checkCallable entry
  applySig Γ entry.sig
  performEffects entry.performs
  noteSelfCall name
  let g ← get
  check ((entry.performs.contains EffectSet.DIVERGE &&
    g.ctx.ambientForbids.contains EffectSet.DIVERGE) = false) .divergeInBounded
  if entry.contractHash ≠ 0 then
    let _ ← recordContractPreObligation Γ name entry.sig.inputs.len
  match builtinOp name with
  | some kind => emitOp Γ cur kind span
  | none => emitCall Γ cur name entry span

end Tyu.Irgen

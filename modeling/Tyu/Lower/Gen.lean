import Tyu.Lower.Tables
import Tyu.Ir.Verify

/-!
# The state of the lowering

A generator lowers one word. It carries the stack of compile-time values, the locals, the word
under construction with its type tables, the accumulated stack bound, and the abstract states of
the interval engine.
-/

namespace Tyu.Irgen

inductive ContextKind where
  | wordBody | lock | readBorrow | mutBorrow | isr | handler | bounded | contractPredicate
deriving DecidableEq

inductive FrameParam where
  | none
  | scope (id : Nat)
  | resource (name : Atom)

structure MatrixRow where
  grants : CapSet
  forbids : EffectSet
  conditionalSuspend : Bool

def row : ContextKind → MatrixRow
  | .wordBody => ⟨.fromBits CapSet.SUSPENDABLE, .empty, false⟩
  | .lock => ⟨.empty, .fromBits EffectSet.SUSPEND, false⟩
  | .readBorrow => ⟨.empty, .empty, true⟩
  | .mutBorrow => ⟨.empty, .fromBits EffectSet.SUSPEND, false⟩
  | .isr => ⟨.empty, .fromBits EffectSet.SUSPEND, false⟩
  | .handler => ⟨.fromBits CapSet.SUSPENDABLE, .empty, false⟩
  | .bounded => ⟨.fromBits CapSet.BOUNDED_STACK, .fromBits EffectSet.DIVERGE, false⟩
  | .contractPredicate =>
    ⟨.empty, .fromBits (EffectSet.SUSPEND ||| EffectSet.INTERRUPT ||| EffectSet.DIVERGE |||
      EffectSet.MMIO ||| EffectSet.ALLOC), false⟩

def MAX_CONTEXT_DEPTH : Nat := 16

structure ContextFrame where
  kind : ContextKind
  grants : CapSet
  forbids : EffectSet
  param : FrameParam
  savedAmbientGrants : CapSet
  savedAmbientForbids : EffectSet

def ContextFrame.scope (f : ContextFrame) : Option Nat :=
  match f.param with
  | .scope s => some s
  | _ => none

def ContextFrame.resource (f : ContextFrame) : Option Atom :=
  match f.param with
  | .resource r => some r
  | _ => none

structure ContextStack where
  frames : List ContextFrame
  ambientGrants : CapSet
  ambientForbids : EffectSet

namespace ContextStack

def new : ContextStack := ⟨[], .empty, .empty⟩

def push (ctx : ContextStack) (kind : ContextKind) (param : FrameParam) : Option ContextStack :=
  if MAX_CONTEXT_DEPTH ≤ ctx.frames.length then none
  else
    let r := row kind
    some ⟨⟨kind, r.grants, r.forbids, param, ctx.ambientGrants, ctx.ambientForbids⟩ :: ctx.frames,
      ctx.ambientGrants.union r.grants, ctx.ambientForbids.union r.forbids⟩

/-- Close the innermost frame; there is none on an empty stack, where the source panics. -/
def pop (ctx : ContextStack) : Option ContextStack :=
  match ctx.frames with
  | [] => none
  | f :: rest => some ⟨rest, f.savedAmbientGrants, f.savedAmbientForbids⟩

def lockFrame (ctx : ContextStack) : Option ContextFrame :=
  ctx.frames.find? fun f => f.kind == .lock

def forbidding (ctx : ContextStack) (effect : EffectSet) : Bool :=
  ctx.frames.any fun f => (f.forbids.intersect effect).bits != 0#16

end ContextStack

end Tyu.Irgen

/-!
## The state of the lowering

A generator lowers one word.  It carries the stack of compile-time values, the locals,
the word under construction with its type tables, the accumulated stack bound, and the
abstract states of the interval engine.  The declarations it reads are in an `Env`.
-/

namespace Tyu.Irgen

open Lib Obl

inductive TcError where
  | stackOverflow | stackUnderflow | sigStackUnderflow | sigTypeMismatch
  | typeTableFull | tooManyTypes | blockTableFull | blockNotFound | opTableFull | arenaFull
  | atomTooLong | typeParseFailed | wordNotFound | noSig | summaryDiverged
  | verify (e : VerifyError)
  | ifPopElse | ifPopThen | ifPopCond | ifCondNotBool | ifThenNotQuot | ifElseNotQuot
  | ifBranchDepth | ifBranchContent
  | whilePopBody | whilePopCond | whileBodyNotQuot | whileCondNotQuot | whileCondDepth
  | whileCondNotBool | whileCondModifiedStack | whileBodyDepth | whileBodyModifiedStack
  | loopPopBody | loopBodyNotQuot | loopBodyDepth | loopBodyModifiedStack
  | divergeInBounded | suspendForbidden
  | lockNest | lockPopBody | lockBodyNotQuot | lockStack
  | callPopQuot | quoteSyntax | effectNotDeclared | outputCountMismatch | outputTypeMismatch
  | taskSpawnPop | taskSpawnSig | taskRunPop | taskRunNotQuot | taskRunDepth | taskRunModified
  | chanSendPop | chanSendType | chanSendValueMismatch | chanRecvPop | chanRecvType
  | returnStackDepth | returnTypeMismatch
  | borrowEscape | borrowAlias | borrowLedgerFull | borrowLocalReuse | borrowDupMut
  | isoUseAfterMove | isoDup | isoDrop | localNotLive | mutRefToLocal
  | scopeDepthExceeded | emptyStackForScoped | sliceTypeFailed | scopedTypeMismatch
  | castParseFailed | castPopValue | castSubtypeMismatch | castNotAllowed | bitcastOnSubtype
  | bitcastWidthUnknown | bitcastWidthMismatch
  | bindNotAllowed | expectedIdent | destructExpectedIdent | destructBorrowMix | destructEmpty
  | destructNotStruct | destructFieldCount | bindingCapacityExceeded | bindingAlreadyDefined
  | fieldNotFound | fieldSizeError | indexError | arrayIndexOob | enumVariantNotFound
  | placeParseFailed | placeTooDeep | placeUnknownRoot | capMissing | resourceSharedUnlocked
  | mmioMapNotFound | mmioPlaceTooDeep | mmioRegNotFound | mmioFieldNotFound
  | mmioArrayIndexNonArray | mmioArrayIndexOob | mmioFieldNotAddressable | mmioAccessViolation
  | mmioReadNotAllowed | mmioTypedAtomInvalid | mmioTypedPopAddr | mmioTypedTypeMismatch
  | mmioTypedMismatch | mmioTypedNotAllowed | mmioOverWideAccess | mmioPhantomRead
  | mmioApertureUnbindable | typedLoadStoreTypeMismatch
  | floatSyntax | floatExponent
  | contractDepth | contractNotBool | contractModifiedInputs | contractPredicateTooLarge
  | contractPredicateImpure
  | isrStack | stackUnbounded | stackExceedsBudget
  | internal
  /-- the source indexes out of bounds and panics -/
  | panic
  /-- the lowering was not given enough fuel -/
  | outOfFuel

inductive Step where
  | field (name : Atom)
  | index (n : Nat)
  | dynamicIndex (expr : Range)

structure PlacePath where
  root : String
  steps : List Step
  full : String

def splitDots (name : String) : List String :=
  (name.toList.splitOn '.').map String.ofList

/-- The place that a qualified name denotes; segments that fit no atom are skipped. -/
def qualnameToPlacepath (name : String) : PlacePath :=
  match splitDots name with
  | [] => ⟨name, [], name⟩
  | root :: segs =>
    ⟨root, ((segs.filter fun s => s != "").filterMap fun s => (Atom.new s).map Step.field).take 8,
      name⟩

abbrev PlaceId := Nat

def PLACE_NONE : PlaceId := 65535

def PARAM_BASE : Nat := 65280

/-- A compile-time value.  Quotations and resource names have no run-time counterpart. -/
inductive Value where
  | plain (ty : TypeAtom)
  | scoped (ty : TypeAtom) (scope : Nat)
  | resource (name : Atom)
  | quot (span : Range)
  | mmioPlace (place : MmioResolved)
  | ptr (ty : TypeAtom) (isMut : Bool) (place : PlaceId)
  | mmioPtr (reg : MmioResolvedReg) (isMut : Bool)
deriving DecidableEq

def Value.toTypeAtom : Value → TypeAtom
  | .plain t => t
  | .scoped ty _ => ty
  | .resource _ => AT_RESOURCE
  | .quot _ => AT_QUOT
  | .mmioPlace _ => AT_MMIO
  | .ptr _ false _ | .mmioPtr _ false => AT_PTR
  | .ptr _ true _ | .mmioPtr _ true => AT_PTR_MUT

def Value.quot? : Value → Option Range
  | .quot r => some r
  | _ => none

def Value.rawPtr (isMut : Bool) : Value := .ptr AT_EMPTY isMut PLACE_NONE

/-- A value of a type as a signature or a cast names it: pointers get their shape. -/
def Value.ofType (ty : TypeAtom) : Value :=
  if ty = AT_PTR ∨ ty = AT_PTR_MUT then .rawPtr (ty == AT_PTR_MUT) else .plain ty

structure LocalVar where
  name : Atom
  ty : TypeAtom
  live : Bool
  scope : Nat
  place : PlaceId

structure PlaceKey where
  root : Atom
  full : TypeAtom

def LEDGER_CAP : Nat := 64

/-- What a generator reads: the source, the words and declarations in scope, the target.
The last three fields stand for the parsers of register maps, types and signatures. -/
structure Env where
  src : Source
  words : List WordEntry
  subtypes : List SubtypeInfo
  descriptor : Option CompiledDescriptor
  resources : List ResourceInfo
  nominals : NominalDb
  iso : List TypeAtom
  allowRawCasts : Bool
  wordBits : Nat
  digest : Digest
  rangeReason : Interval → Int → Int → Bool → String
  resolveMmioPlace : PlacePath → Except TcError (Option MmioResolved)
  parseTypeExpr : Cursor → Option (TypeAtom × Nat)
  parseWordSig : Range → Option WordSig

def Env.isIso (Γ : Env) (ty : TypeAtom) : Bool := Γ.iso.contains ty

structure Gen where
  word : Word
  sig : WordSig
  /-- compile-time values, topmost first -/
  stack : List Value
  locals : List LocalVar
  nextScope : Nat
  scopeStack : List Nat
  ctx : ContextStack
  ledger : List PlaceKey
  acc : StackBound
  terminated : Bool
  contractPredDepth : Nat
  predEntryNet : Int
  predPeakSlots : Nat
  predClauseNames : List String
  nextCallIsPredicate : Bool
  interp : Linear
  session : Session
  wordApertures : FixedVec ApertureUse 8
  extraWords : FixedVec Word 16
  arenaLen : Nat
  quoteId : Nat

abbrev GenM := StateT Gen (Except TcError)

def Gen.checks (g : Gen) : ChecksMode := g.session.checks

/-- Go on when `c` holds. -/
def check (c : Prop) [Decidable c] (e : TcError) : GenM Unit := fun g => do
  require c e
  pure ((), g)

def need {α : Type} (o : Option α) (e : TcError) : GenM α := fun g => do
  let a ← expect o e
  pure (a, g)

def pop : GenM (Option Value) := fun g =>
  match g.stack with
  | [] => .ok (none, g)
  | v :: rest => .ok (some v, { g with stack := rest })

/-- Pop a value, or report `e`. -/
def popOr (e : TcError) : GenM Value := do
  let v ← pop
  need v e

def discard : GenM Unit := do
  let _ ← pop

def push (v : Value) : GenM Unit := fun g =>
  if 256 ≤ g.stack.length then .error .stackOverflow
  else .ok ((), { g with stack := v :: g.stack })

def getStack : GenM (List Value) := fun g => .ok (g.stack, g)

def setStack (stack : List Value) : GenM Unit := fun g => .ok ((), { g with stack := stack })

def peekOr (e : TcError) : GenM Value := do
  let stack ← getStack
  need stack.head? e

def setTop (v : Value) : GenM Unit := fun g => .ok ((), { g with stack := v :: g.stack.tail })

/-- The id of a type in the word's table; a new name is entered with its size. -/
def internType (db : NominalDb) (types : FixedVec Atom 64) (sizes : FixedVec Nat 64) (atom : Atom) :
    Except TcError (TypeId × FixedVec Atom 64 × FixedVec Nat 64) :=
  match types.items.findIdx? fun a => a == atom with
  | some i => .ok (⟨i⟩, types, sizes)
  | none => do
    let idx := types.len
    require (idx ≤ 255) .tooManyTypes
    let types ← expect (types.push atom) .typeTableFull
    let sizes ← expect (sizes.push ((typeSizeBytes db atom).getD 0)) .typeTableFull
    pure (⟨idx⟩, types, sizes)

def tyIdOfType (Γ : Env) (ty : TypeAtom) : GenM TypeId := fun g => do
  let (tid, types, sizes) ← internType Γ.nominals g.word.types g.word.typeSizes ty
  pure (tid, { g with word := { g.word with types := types, typeSizes := sizes } })

def tyIdOfValue (Γ : Env) (v : Value) : GenM TypeId :=
  match v with
  | .plain t => tyIdOfType Γ t
  | .scoped ty _ => tyIdOfType Γ ty
  | .resource _ => tyIdOfType Γ AT_RESOURCE
  | .quot _ => tyIdOfType Γ AT_QUOT
  | .mmioPlace _ => pure TY_MMIO
  | .ptr _ false _ | .mmioPtr _ false => pure TY_PTR
  | .ptr _ true _ | .mmioPtr _ true => pure TY_PTR_MUT

def lirSigForEntry (Γ : Env) (sig : WordSig) : GenM Sig := do
  let inputs ← sig.inputs.items.mapM (tyIdOfType Γ)
  let outputs ← sig.outputs.items.mapM (tyIdOfType Γ)
  let inputs ← need (FixedVec.ofList? inputs) .internal
  let outputs ← need (FixedVec.ofList? outputs) .internal
  pure ⟨inputs, outputs⟩

/-- The effect of one operation on the data stack; operations whose effect depends on
their callers have none here. -/
def opStackDelta : OpKind → Option StackBound
  | .constI64 _ | .constBool _ | .constStr _ => some ⟨1, .slots 1⟩
  | .addrOf _ _ _ | .mmioPlace _ _ _ => some ⟨1, .slots 1⟩
  | .scopedEnter _ _ => some ⟨1, .slots 1⟩
  | .taskSpawn _ _ => some ⟨1, .slots 1⟩
  | .ptrAddConst _ _ => some ⟨0, .slots 0⟩
  | .ptrAddIndex _ _ => some ⟨-1, .slots 0⟩
  | .dup _ => some ⟨1, .slots 1⟩
  | .drop _ => some ⟨-1, .slots 0⟩
  | .swap _ _ => some ⟨0, .slots 0⟩
  | .addI64 | .subI64 | .mulI64 => some ⟨-1, .slots 0⟩
  | .cmp _ _ | .andBool | .orBool => some ⟨-1, .slots 0⟩
  | .notBool | .interruptDisable | .interruptEnable => some ⟨0, .slots 0⟩
  | .localSet _ _ => some ⟨-1, .slots 0⟩
  | .localGet _ _ => some ⟨1, .slots 1⟩
  | .cast _ _ | .bitcast _ _ => some ⟨0, .slots 0⟩
  | .load _ | .mmioVolLoad _ _ _ _ _ | .mmioVolLoadField _ _ _ _ _ _ _ _ => some ⟨0, .slots 0⟩
  | .store _ | .mmioVolStore _ _ _ _ _ _ | .mmioVolStoreField _ _ _ _ _ _ _ _ _ =>
    some ⟨-2, .slots 0⟩
  | .trapIfFalse _ => some ⟨-1, .slots 0⟩
  | .brIf _ _ | .call _ _ _ _ _ | .br _ | .ret => none

def Gen.accAfter (g : Gen) (kind : OpKind) : StackBound :=
  match opStackDelta kind with
  | some delta => g.acc.compose delta
  | none => g.acc

def interpSr (types : FixedVec Atom 64) (subtypes : List SubtypeInfo) : SubtypeRange := fun tid => do
  let name ← types.get? tid.idx
  let st ← findSubtype subtypes name
  pure (st.min, st.max)

/-- The abstract states after one operation.  The call of a predicate that the clause
names keeps its arguments. -/
def Gen.interpAfter (Γ : Env) (g : Gen) (cur : BlockId) (kind : OpKind) : Linear × Bool :=
  if g.checks = .off then (g.interp, g.nextCallIsPredicate)
  else
    match kind, g.nextCallIsPredicate with
    | .call _ sig _ _ _, true => (g.interp.predicateCall cur sig.inLen sig.outLen, false)
    | _, flag => ((g.interp.step cur kind (interpSr g.word.types Γ.subtypes) FlatMem.mk).1, flag)

def Gen.peakAfter (g : Gen) (acc : StackBound) : Nat :=
  if 0 < g.contractPredDepth then max g.predPeakSlots (acc.net - g.predEntryNet).toNat
  else g.predPeakSlots

def appendOp (w : Word) (cur : BlockId) (op : Op) : Except TcError Word := do
  let b ← expect (w.blocks.get? cur.idx) .blockNotFound
  let ops ← expect (b.ops.push op) .opTableFull
  pure { w with blocks := w.blocks.set cur.idx { b with ops := ops } }

/-- Emit an operation: the bound, the abstract states and the predicate's peak move with
it. -/
def emitOp (Γ : Env) (cur : BlockId) (kind : OpKind) (span : Span) : GenM Unit := fun g => do
  let word ← appendOp g.word cur ⟨kind, span⟩
  pure ((), { g with
    acc := g.accAfter kind
    interp := (g.interpAfter Γ cur kind).1
    nextCallIsPredicate := (g.interpAfter Γ cur kind).2
    predPeakSlots := g.peakAfter (g.accAfter kind)
    word := word })

def addBlock (entry : FixedVec TypeId 32) : GenM BlockId := fun g => do
  let id : BlockId := ⟨g.word.blocks.len⟩
  let blocks ← expect (g.word.blocks.push ⟨id, entry, .new⟩) .blockTableFull
  pure (id, { g with word := { g.word with blocks := blocks } })

def newBlock (Γ : Env) (stack : List Value) : GenM BlockId := do
  let types ← stack.reverse.mapM (tyIdOfValue Γ)
  let entry ← need (FixedVec.ofList? types) .typeTableFull
  addBlock entry

def getAcc : GenM StackBound := fun g => .ok (g.acc, g)

def setAcc (acc : StackBound) : GenM Unit := fun g => .ok ((), { g with acc := acc })

def account (delta : StackBound) : GenM Unit := fun g =>
  .ok ((), { g with acc := g.acc.compose delta })

def performEffects (e : EffectSet) : GenM Unit := fun g =>
  .ok ((), { g with word := { g.word with performs := g.word.performs.union e } })

def modifyInterp (f : Linear → Linear) : GenM Unit := fun g =>
  .ok ((), { g with interp := f g.interp })

def pushCtx (kind : ContextKind) (param : FrameParam) : GenM Unit := fun g => do
  let ctx ← expect (g.ctx.push kind param) .scopeDepthExceeded
  pure ((), { g with ctx := ctx })

def popCtx : GenM Unit := fun g => do
  let ctx ← expect g.ctx.pop .panic
  pure ((), { g with ctx := ctx })

def requireUnforbidden (effect : BitVec 16) (e : TcError) : GenM Unit := do
  let g ← get
  check (g.ctx.ambientForbids.contains effect = false) e

def findLocal (g : Gen) (name : Atom) : Option Nat := g.locals.findIdx? fun l => l.name == name

def localSlot (g : Gen) (idx : Nat) : Nat := (g.sig.inputs.len + idx) % 2 ^ 16

def tempBaseSlot (g : Gen) : Nat := (g.sig.inputs.len + g.locals.length + 1) % 2 ^ 16

def addLocal (l : LocalVar) (full : TcError) : GenM Unit := fun g => do
  require (g.locals.length < 64) full
  pure ((), { g with locals := g.locals ++ [l] })

def checkNoScopedLive (stack : List Value) : Bool :=
  stack.all fun v =>
    match v with
    | .plain ty => ty != TYPE_SCOPED
    | .scoped _ _ => false
    | _ => true

def anyScopedLive (g : Gen) : Bool :=
  !checkNoScopedLive g.stack || g.locals.any fun l => l.live && l.scope != 0

def enterScope : GenM Nat := fun g =>
  if 16 ≤ g.scopeStack.length then .error .scopeDepthExceeded
  else .ok (g.nextScope, { g with
    nextScope := (g.nextScope + 1) % 2 ^ 16
    scopeStack := g.nextScope :: g.scopeStack })

def leaveScope (id : Nat) : GenM Unit := fun g =>
  match g.scopeStack with
  | top :: rest => .ok ((), { g with scopeStack := if top = id then rest else g.scopeStack })
  | [] => .ok ((), g)

def scopeLive (g : Gen) (scope : Nat) : Bool :=
  (g.stack.any fun v =>
    match v with
    | .scoped _ s => s == scope
    | _ => false) ||
  g.locals.any fun l => l.scope == scope && l.live

def closeScope (scope : Nat) : GenM Unit := do
  let g ← get
  check (scopeLive g scope = false) .borrowEscape

def invalidateScopeLocals (scope : Nat) : GenM Unit := fun g =>
  .ok ((), { g with locals := g.locals.map fun l =>
    if l.scope = scope then { l with scope := 0, live := false } else l })

/-- Is a suspension blocked here: by a frame, by the missing capability, or by a live
read borrow? -/
def suspendBlocked (g : Gen) : Bool :=
  g.ctx.forbidding (.fromBits EffectSet.SUSPEND) ||
  !g.ctx.ambientGrants.contains CapSet.SUSPENDABLE ||
  g.ctx.frames.any fun f => (row f.kind).conditionalSuspend && (f.scope.any (scopeLive g))

/-- Does a live borrow of the same root exclude a new one?  Exclusive borrows exclude
all others. -/
def borrowConflict (g : Gen) (root : Atom) (isMut : Bool) : Bool :=
  (g.stack.any fun v =>
    match v with
    | .ptr _ m place => conflicts place m
    | _ => false) ||
  g.locals.any fun l => l.live && conflicts l.place (l.ty == AT_PTR_MUT)
where
  conflicts (place : PlaceId) (m : Bool) : Bool :=
    place != PLACE_NONE &&
      match g.ledger[place]? with
      | some key => key.root == root && (isMut || m)
      | none => false

def mintId (root : Atom) (full : TypeAtom) : GenM PlaceId := fun g =>
  match g.ledger.findIdx? fun k => k.root == root && k.full == full with
  | some i => .ok (i, g)
  | none =>
    if LEDGER_CAP ≤ g.ledger.length then .error .borrowLedgerFull
    else .ok (g.ledger.length, { g with ledger := g.ledger ++ [⟨root, full⟩] })

def recordAperture (Γ : Env) (aperture : Nat) (access : AccessMode) : GenM Unit := fun g =>
  match Γ.descriptor.bind fun d => d.apertures.find? fun w => w.id == aperture with
  | none => .ok ((), g)
  | some spec =>
    if spec.kind = .bus ∧ spec.base = none then .error .mmioApertureUnbindable
    else
      let bits := apertureAccessBits access
      match g.wordApertures.items.findIdx? fun wu => wu.id == aperture with
      | some i =>
        let apertures := g.wordApertures.modify i fun wu =>
          { wu with accessMask := wu.accessMask ||| bits }
        .ok ((), { g with wordApertures := apertures })
      | none =>
        let bind := match spec.relocIsa with
          | some .armThumbLdrLiteral => BindKind.armThumbLdrLiteral
          | some .riscVHi20Lo12 => .riscVHi20Lo12
          | none => .none
        -- a ninth aperture is dropped
        let apertures := g.wordApertures.push
          ⟨spec.id, spec.name, spec.kind, spec.base, spec.size, bits, bind⟩
        .ok ((), { g with wordApertures := apertures.getD g.wordApertures })

end Tyu.Irgen

import Tyu.Lower.CompileOps

/-! # Lowering of places and memory accesses -/

namespace Tyu.Irgen

open Lib Obl

/-! ## Place paths -/

/-- Up to the first closing parenthesis; without one the source does not come back. -/
def skipToParen (src : Source) : Nat → Cursor → Except TcError Cursor
  | 0, _ => .error .outOfFuel
  | fuel + 1, lex =>
    let (t, lex) := src.next lex
    if t.kind = .rParen then .ok lex else skipToParen src fuel lex

/-- The steps behind the root of a place: the steps, where they end, the cursor. -/
def parseSteps (src : Source) : Nat → List Step → Nat → Cursor →
    Except TcError (List Step × Nat × Cursor)
  | 0, _, _, _ => .error .outOfFuel
  | fuel + 1, steps, stop, lex =>
    let (next, lex₁) := src.next lex
    if next.kind = .dot then do
      let (seg, lex₂) := src.next lex₁
      if seg.kind = .ident then
        let field ← expect (Atom.new seg.text) .placeParseFailed
        require (steps.length < 8) .placeTooDeep
        parseSteps src fuel (steps ++ [.field field]) lex₂.start lex₂
      else if seg.kind = .number then
        let n ← expect (parseU32Any seg.text.toList) .placeParseFailed
        require (steps.length < 8) .placeTooDeep
        parseSteps src fuel (steps ++ [.index n]) lex₂.start lex₂
      else if seg.kind = .lParen then
        let lex₃ ← skipToParen src (lex₂.stop - lex₂.start) lex₂
        require (steps.length < 8) .placeTooDeep
        parseSteps src fuel (steps ++ [.dynamicIndex ⟨lex₂.start, lex₃.start - 1⟩]) lex₃.start lex₃
      else .error .placeParseFailed
    else if next.kind = .apostrophe then .error .placeParseFailed
    else .ok (steps, stop, lex)

def parsePlacePath (src : Source) (lex : Cursor) : Except TcError (PlacePath × Cursor) := do
  let (first, lex₁) := src.next lex
  require (first.kind = .ident) .placeParseFailed
  let (steps, stop, lex₂) ← parseSteps src (lex.stop - lex.start + 1) [] lex₁.start lex₁
  pure (⟨first.text, steps, src.textOf ⟨lex.start, stop⟩⟩, lex₂)

def stepTy (db : NominalDb) (ty : TypeAtom) : Step → Option TypeAtom
  | .field name => structFieldTy db ty name
  | .index _ | .dynamicIndex _ => arrayElemType ty

def resolvePlacePointeeTy (Γ : Env) (g : Gen) (place : PlacePath) :
    Except TcError (Option TypeAtom) := do
  let root ← expect (Atom.new place.root) .placeParseFailed
  let start :=
    match resourceTy Γ.resources root with
    | some ty => some ty
    | none => ((findLocal g root).bind fun i => g.locals[i]?).map LocalVar.ty
  match start with
  | none => pure none
  | some ty => do
    let ty ← place.steps.foldlM (fun ty step => expect (stepTy Γ.nominals ty step) .fieldNotFound) ty
    pure (some ty)

def checkResourceLocked (Γ : Env) (g : Gen) (root : Atom) (isMut : Bool) : Except TcError Unit :=
  if (resourceTy Γ.resources root).isSome then
    if (g.ctx.lockFrame.bind ContextFrame.resource) = some root then .ok ()
    else if resourceIsIsrReachable Γ.resources root then .error .resourceSharedUnlocked
    else .error .capMissing
  else if isMut ∧ (findLocal g root).isSome then .error .mutRefToLocal
  else .ok ()

/-- The reference to a place: its value and the base its address is computed from. -/
def addressOf (Γ : Env) (place : PlacePath) (isMut : Bool) : GenM AddrOfBase := do
  let root := (Atom.new place.root).getD AT_EMPTY
  let resolved ← liftM (Γ.resolveMmioPlace place)
  match resolved with
  | some (.reg reg) => do
    check ((isMut && !accessCanWrite reg.access) = false) .mmioAccessViolation
    recordAperture Γ reg.aperture reg.access
    push (.mmioPtr reg isMut)
    pure (.mmio reg.aperture reg.offset)
  | some (.field _) => throw .mmioFieldNotAddressable
  | none => do
    let g ← get
    liftM (checkResourceLocked Γ g root isMut)
    let pointee ← liftM (resolvePlacePointeeTy Γ g place)
    let ty ← need pointee .placeUnknownRoot
    check (borrowConflict g root isMut = false) .borrowAlias
    let id ← mintId root ty
    push (.ptr ty isMut id)
    pure .runtime

/-- `& place` and `&! place` -/
def compileAddrOf (Γ : Env) (cur : BlockId) (lex : Cursor) (isMut : Bool) (span : Span) :
    GenM (BlockId × Cursor) := do
  let parsed ← liftM (parsePlacePath Γ.src lex)
  let base ← addressOf Γ parsed.1 isMut
  let place ← lirAtom parsed.1.full
  emitOp Γ cur (.addrOf place isMut base) span
  pure (cur, parsed.2)

/-! ## Steps on values -/

def fieldAt (db : NominalDb) (name : Atom) :
    List StructFieldInfo → Nat → Except TcError (Nat × TypeAtom)
  | [], _ => .error .fieldNotFound
  | f :: rest, offset => do
    let fsize ← expect (typeSizeBytes db f.ty) .fieldSizeError
    let start := alignUp offset (fieldAlign fsize)
    if f.name = name then pure (start, f.ty)
    else do
      let next ← expect (checkedAddU32 start fsize) .fieldSizeError
      fieldAt db name rest next

/-- `.name`: on a pointer the address of the field, on a struct its value. -/
def compileFieldAccess (Γ : Env) (cur : BlockId) (field : Atom) (span : Span) : GenM BlockId := do
  let base ← peekOr .stackUnderflow
  match base with
  | .ptr ty isMut place => do
    let sinfo ← need (Γ.nominals.struct ty) .fieldNotFound
    let found ← liftM (fieldAt Γ.nominals field sinfo.fields 0)
    emitOp Γ cur (.ptrAddConst (if isMut then TY_PTR_MUT else TY_PTR) found.1) span
    setTop (.ptr found.2 isMut place)
    pure cur
  | .plain ty => do
    let sinfo ← need (Γ.nominals.struct ty) .fieldNotFound
    let found ← liftM (fieldAt Γ.nominals field sinfo.fields 0)
    let structTid ← tyIdOfType Γ ty
    emitOp Γ cur (.ptrAddConst structTid found.1) span
    let fieldTid ← tyIdOfType Γ found.2
    emitOp Γ cur (.load fieldTid) span
    discard
    push (.plain found.2)
    pure cur
  | _ => throw .fieldNotFound

inductive IndexOut where
  | value
  | ptr (isMut : Bool)
  | mmio
deriving DecidableEq

/-- The element type of an index step, its size, what it leaves, and the id of the base. -/
structure IndexPlan where
  elem : TypeAtom
  scale : Nat
  out : IndexOut
  baseTid : TypeId

def arrayPlan (db : NominalDb) (ty : TypeAtom) (constIdx : Option Nat) (out : IndexOut)
    (baseTid : TypeId) : Except TcError IndexPlan := do
  let elem ← expect (arrayElemType ty) .indexError
  let len ← expect (arrayLen ty) .indexError
  require (constIdx.all fun idx => decide (idx < len)) .arrayIndexOob
  let size ← expect (typeSizeBytes db elem) .indexError
  pure ⟨elem, size, out, baseTid⟩

def indexPlan (db : NominalDb) (constIdx : Option Nat) : Value → Except TcError IndexPlan
  | .plain ty => arrayPlan db ty constIdx .value TY_PTR
  | .ptr ty isMut _ => arrayPlan db ty constIdx (.ptr isMut) (if isMut then TY_PTR_MUT else TY_PTR)
  | .mmioPlace (.reg reg) => do
    let width ← expect (mmioTypeWidthBytes reg.regTy) .indexError
    require (constIdx.all fun idx => reg.arrayLen.all fun len => decide (idx < len))
      .mmioArrayIndexOob
    pure ⟨reg.regTy, width, .mmio, TY_MMIO⟩
  | _ => .error .indexError

def IndexPlan.after (plan : IndexPlan) (base : Value) : Value :=
  match plan.out with
  | .value => .ptr plan.elem false PLACE_NONE
  | .ptr isMut => .ptr plan.elem isMut base.placeId
  | .mmio => base

/-- Multiplication on `u32` that stops at the greatest value. -/
def saturatingMulU32 (a b : Nat) : Nat := min (a * b) (2 ^ 32 - 1)

def finishIndex (Γ : Env) (cur : BlockId) (plan : IndexPlan) (span : Span) : GenM Unit := do
  if plan.out = .value then
    let tid ← tyIdOfType Γ plan.elem
    emitOp Γ cur (.load tid) span
    setTop (.plain plan.elem)
  else pure ()

def compileStaticIndex (Γ : Env) (cur : BlockId) (idx : Nat) (span : Span) : GenM BlockId := do
  let base ← peekOr .indexError
  let plan ← liftM (indexPlan Γ.nominals (some idx) base)
  setTop (plan.after base)
  emitOp Γ cur (.ptrAddConst plan.baseTid (saturatingMulU32 idx plan.scale)) span
  finishIndex Γ cur plan span
  pure cur

def compileDynamicIndex (Γ : Env) (cur : BlockId) (span : Span) : GenM BlockId := do
  let idx ← popOr .indexError
  check (idx = .plain AT_I64) .indexError
  let base ← peekOr .indexError
  let plan ← liftM (indexPlan Γ.nominals none base)
  emitOp Γ cur (.ptrAddIndex plan.baseTid plan.scale) span
  setTop (plan.after base)
  finishIndex Γ cur plan span
  pure cur

/-- `'N` and `'( … )` -/
def compileIndex (Γ : Env) (compile : Compile) (cur : BlockId) (lex : Cursor) (allowLocals : Bool)
    (span : Span) : GenM (BlockId × Cursor) := do
  let next := (Γ.src.next lex).1
  let lex := (Γ.src.next lex).2
  if next.kind = .number then
    let idx ← need (parseU32Any next.text.toList) .indexError
    let cur ← compileStaticIndex Γ cur idx span
    pure (cur, lex)
  else if next.kind = .lParen then
    let captured ← need (Γ.src.captureBalanced .lParen .rParen lex) .indexError
    let cur ← compile cur captured.1.inner allowLocals
    let cur ← compileDynamicIndex Γ cur span
    pure (cur, captured.2)
  else throw .indexError

/-- `.name` and `.N` -/
def compileDotOp (Γ : Env) (cur : BlockId) (lex : Cursor) (span : Span) :
    GenM (BlockId × Cursor) := do
  let next := (Γ.src.next lex).1
  let lex := (Γ.src.next lex).2
  if next.kind = .ident then
    let field ← need (Atom.new next.text) .fieldNotFound
    let cur ← compileFieldAccess Γ cur field span
    pure (cur, lex)
  else if next.kind = .number then
    let idx ← need (parseU32Any next.text.toList) .indexError
    let cur ← compileStaticIndex Γ cur idx span
    pure (cur, lex)
  else throw .indexError

/-! ## Loads and stores -/

def mmioWidth (regTy : TypeAtom) : Nat := (mmioTypeWidthBytes regTy).getD 1

def checkAtomicWidth (regTy : TypeAtom) (m : MmioAccessMeta) : GenM Unit :=
  check (mmioWidth regTy * 8 ≤ m.atomicMax) .mmioOverWideAccess

def checkStoreSemantics (regTy : TypeAtom) (m : MmioAccessMeta) : GenM Unit := do
  check (¬(m.readKind = .effectful ∧ m.writeKind ≠ .plain)) .mmioPhantomRead
  checkAtomicWidth regTy m

def loadReg (Γ : Env) (cur : BlockId) (reg : MmioResolvedReg) (want : Option TypeAtom)
    (span : Span) : GenM Unit := do
  check (accessCanRead reg.access = true) .mmioReadNotAllowed
  check (want.all fun ty => ty == reg.regTy) .mmioTypedTypeMismatch
  checkAtomicWidth reg.regTy reg.accessMeta
  let _ ← recordMmioBoundsObligation Γ reg.aperture reg.offset (mmioWidth reg.regTy)
  push (.plain reg.regTy)
  let tid ← tyIdOfType Γ reg.regTy
  let place ← lirAtom reg.place
  emitOp Γ cur (.mmioVolLoad tid place reg.accessMeta.readKind reg.accessMeta.atomicMax
    reg.accessMeta.barrier) span

def loadField (Γ : Env) (cur : BlockId) (f : MmioResolvedField) (want : Option TypeAtom)
    (span : Span) : GenM Unit := do
  check (accessCanRead f.regAccess = true ∧ accessCanRead f.field.access = true)
    .mmioReadNotAllowed
  check (want.isNone = true) .mmioTypedMismatch
  checkAtomicWidth f.regTy f.accessMeta
  let _ ← recordMmioBoundsObligation Γ f.aperture f.offset (mmioWidth f.regTy)
  push (.plain f.field.ty)
  let regTid ← tyIdOfType Γ f.regTy
  let tid ← tyIdOfType Γ f.field.ty
  let place ← lirAtom f.place
  emitOp Γ cur (.mmioVolLoadField regTid tid place (fieldMaskShift f.field).1
    (fieldMaskShift f.field).2 f.accessMeta.readKind f.accessMeta.atomicMax f.accessMeta.barrier)
    span

/-- The type a typed access has; an untyped pointer takes the type that is asked for. -/
def accessTy (ty : TypeAtom) (want : Option TypeAtom) : GenM TypeAtom := do
  let want ← need want .mmioTypedNotAllowed
  let resolved := if ty = AT_EMPTY then want else ty
  check (want = resolved) .typedLoadStoreTypeMismatch
  pure resolved

/-- `@` and `@T` -/
def compileLoad (Γ : Env) (cur : BlockId) (want : Option TypeAtom) (span : Span) :
    GenM BlockId := do
  let addr ← popOr .mmioTypedPopAddr
  match addr with
  | .mmioPtr reg _ => do
    loadReg Γ cur reg want span
    pure cur
  | .mmioPlace (.reg reg) => do
    loadReg Γ cur reg want span
    pure cur
  | .mmioPlace (.field f) => do
    loadField Γ cur f want span
    pure cur
  | .ptr ty _ _ => do
    let resolved ← accessTy ty want
    push (.plain resolved)
    let tid ← tyIdOfType Γ resolved
    emitOp Γ cur (.load tid) span
    pure cur
  | _ => throw .mmioTypedNotAllowed

def storeReg (Γ : Env) (cur : BlockId) (reg : MmioResolvedReg) (valTy : TypeAtom)
    (want : Option TypeAtom) (span : Span) : GenM Unit := do
  check (accessCanWrite reg.access = true) .mmioAccessViolation
  check (want.all fun ty => ty == reg.regTy) .mmioTypedTypeMismatch
  check (valTy = reg.regTy) .returnTypeMismatch
  checkStoreSemantics reg.regTy reg.accessMeta
  let _ ← recordMmioBoundsObligation Γ reg.aperture reg.offset (mmioWidth reg.regTy)
  let tid ← tyIdOfType Γ reg.regTy
  let place ← lirAtom reg.place
  emitOp Γ cur (.mmioVolStore tid place reg.accessMeta.writeKind reg.accessMeta.readKind
    reg.accessMeta.atomicMax reg.accessMeta.barrier) span

def storeField (Γ : Env) (cur : BlockId) (f : MmioResolvedField) (valTy : TypeAtom)
    (want : Option TypeAtom) (span : Span) : GenM Unit := do
  check (accessCanWrite f.regAccess = true ∧ accessCanWrite f.field.access = true)
    .mmioAccessViolation
  check (want.isNone = true) .mmioTypedMismatch
  check (valTy = f.field.ty) .returnTypeMismatch
  check (f.accessMeta.readKind ≠ .effectful) .mmioPhantomRead
  checkAtomicWidth f.regTy f.accessMeta
  let _ ← recordMmioBoundsObligation Γ f.aperture f.offset (mmioWidth f.regTy)
  let regTid ← tyIdOfType Γ f.regTy
  let tid ← tyIdOfType Γ f.field.ty
  let place ← lirAtom f.place
  emitOp Γ cur (.mmioVolStoreField regTid tid place (fieldMaskShift f.field).1
    (fieldMaskShift f.field).2 f.accessMeta.writeKind f.accessMeta.readKind
    f.accessMeta.atomicMax f.accessMeta.barrier) span

/-- Write through a pointer; a value for a subtype-typed place is checked first. -/
def storePtr (Γ : Env) (cur : BlockId) (ty : TypeAtom) (isMut : Bool) (valTy : TypeAtom)
    (want : Option TypeAtom) (span : Span) : GenM Unit := do
  check (want.isSome = true) .mmioTypedNotAllowed
  check (isMut = true) .mmioTypedNotAllowed
  let resolved ← accessTy ty want
  check (valTy = resolved) .returnTypeMismatch
  let tid ← tyIdOfType Γ resolved
  match findSubtype Γ.subtypes resolved with
  | some st => do
    let g ← get
    let verdict ← recordStoreObligation Γ st ((g.interp.stateOrFresh cur).topInterval)
    emitUnlessClosed verdict (emitTopRangeTrap Γ cur tid st span)
  | none => pure ()
  emitOp Γ cur (.store tid) span

/-- `!` and `!T` -/
def compileStore (Γ : Env) (cur : BlockId) (want : Option TypeAtom) (span : Span) :
    GenM BlockId := do
  let v ← popOr .returnStackDepth
  let addr ← popOr .returnStackDepth
  match addr, v with
  | .mmioPtr _ false, _ => throw .mmioTypedNotAllowed
  | .mmioPtr reg true, .plain valTy => do
    storeReg Γ cur reg valTy want span
    pure cur
  | .mmioPlace (.reg reg), .plain valTy => do
    storeReg Γ cur reg valTy want span
    pure cur
  | .mmioPlace (.field f), .plain valTy => do
    storeField Γ cur f valTy want span
    pure cur
  | .ptr ty isMut _, .plain valTy => do
    storePtr Γ cur ty isMut valTy want span
    pure cur
  | _, _ => throw .mmioTypedNotAllowed

/-- A name that starts with `@` or `!`. -/
def compileLoadStore (Γ : Env) (cur : BlockId) (name : String) (span : Span) : GenM BlockId := do
  let isLoad := startsWith name "@"
  let g ← get
  -- a predicate must not write
  check ((!isLoad && inContractPredicate g) = false) .contractPredicateImpure
  if 1 < name.utf8ByteSize then
    let ty ← need (Atom.new (String.ofList name.toList.tail)) .mmioTypedAtomInvalid
    if isLoad then compileLoad Γ cur (some ty) span else compileStore Γ cur (some ty) span
  else if isLoad then compileLoad Γ cur none span
  else compileStore Γ cur none span

def chanElem (ch : Value) : Option (TypeAtom × TypeAtom) :=
  match ch with
  | .plain t => (chanElemType t).map fun elem => (t, elem)
  | _ => none

def AT_CHANNEL_SEND : Atom := ⟨"platform.channel.send", by decide⟩
def AT_CHANNEL_RECV : Atom := ⟨"platform.channel.recv", by decide⟩

/-- `|>`: the bound of the word does not account the two values it consumes. -/
def compileChannelSend (Γ : Env) (cur : BlockId) (span : Span) : GenM BlockId := do
  let val ← popOr .chanSendPop
  let ch ← popOr .chanSendPop
  let types ← need (chanElem ch) .chanSendType
  check (typeCompatible val.toTypeAtom types.2 Γ.subtypes = true) .chanSendValueMismatch
  let chTid ← tyIdOfType Γ types.1
  let valTid ← tyIdOfType Γ val.toTypeAtom
  emitOp Γ cur (.call AT_CHANNEL_SEND ⟨⟨[chTid, valTid], by simp⟩, .new⟩ .empty .empty .ID) span
  pure cur

/-- `<|` -/
def compileChannelRecv (Γ : Env) (cur : BlockId) (span : Span) : GenM BlockId := do
  let ch ← popOr .chanRecvPop
  let types ← need (chanElem ch) .chanRecvType
  push (.plain types.2)
  account ⟨0, .slots 1⟩
  let chTid ← tyIdOfType Γ types.1
  let elemTid ← tyIdOfType Γ types.2
  emitOp Γ cur (.call AT_CHANNEL_RECV ⟨⟨[chTid], by simp⟩, ⟨[elemTid], by simp⟩⟩ .empty .empty
    .ID) span
  pure cur

end Tyu.Irgen

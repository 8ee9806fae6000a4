import Tyu.Lower.Gen

/-! # Lowering of straight-line words -/

namespace Tyu.Irgen

open Lib Obl

/-!
## Check sites

Each place where the source may put a run-time check records an obligation, resolves it,
and emits the check unless the verdict and the mode say otherwise.
-/

def closeSite (Γ : Env) (kind : Kind) (formula : Formula) (inTree : Option InTreeVerdict) :
    GenM VerdictStatus := fun g =>
  let (r, session) := g.session.closeSite Γ.digest kind formula inTree
  .ok ((r.map ResolvedVerdict.status).getD .opened, { g with session := session })

/-- What the interval engine says of a value's range; it is asked only under
`undischarged`. -/
def rangeVerdict (Γ : Env) (g : Gen) (iv : Interval) (st : SubtypeInfo) : Option InTreeVerdict :=
  if g.checks = .undischarged then some (.ofRange Γ.rangeReason iv st.min st.max) else none

/-- Close a range site whose value has the interval `iv`. -/
def closeRangeSite (Γ : Env) (value : Oel) (st : SubtypeInfo) (iv : Gen → Interval) :
    GenM VerdictStatus := do
  let g ← get
  closeSite Γ .subtypeRange (.inRange value st.min st.max) (rangeVerdict Γ g (iv g) st)

def recordSubtypeParamObligation (Γ : Env) (cur : BlockId) (i : Nat) (st : SubtypeInfo) :
    GenM VerdictStatus :=
  closeRangeSite Γ (.var ("in." ++ toString i)) st fun g =>
    ((g.interp.stateOrFresh cur).locals.getD i .top).iv

/-- A subtype-typed output; `outIvs` are the outputs' intervals at the epilogue's entry. -/
def recordSubtypeReturnObligation (Γ : Env) (i : Nat) (st : SubtypeInfo) (outIvs : List Interval) :
    GenM VerdictStatus :=
  closeRangeSite Γ (.var ("out." ++ toString i)) st fun _ => outIvs.getD i .top

/-- A narrowing cast; `preCast` is the operand's interval. -/
def recordCastObligation (Γ : Env) (fromTy toTy : TypeAtom) (st : SubtypeInfo)
    (preCast : Interval) : GenM VerdictStatus :=
  closeRangeSite Γ (.cast fromTy.text toTy.text (.var "$top")) st fun _ => preCast

def recordStoreObligation (Γ : Env) (st : SubtypeInfo) (preStore : Interval) :
    GenM VerdictStatus :=
  closeRangeSite Γ (.var "$top") st fun _ => preStore

/-- A register access in an emulated aperture; other accesses have no obligation. -/
def recordMmioBoundsObligation (Γ : Env) (aperture offset width : Nat) : GenM VerdictStatus :=
  match Γ.descriptor.bind fun d => d.apertures.find? fun w => w.id == aperture with
  | none => pure .opened
  | some spec =>
    if spec.kind ≠ .emulated then pure .opened
    else
      closeSite Γ .mmioBounds (.offsetLE (some offset) width spec.size)
        (some (if saturatingAddU32 offset width ≤ spec.size then ⟨.discharged, false, none⟩
          else ⟨.opened, false, some "emulated aperture access past the aperture size"⟩))

def predicateRef (name : String) : PredicateRef := ⟨"", name, [], ""⟩

/-- The postcondition of the word; `predIv` is the interval of the predicate's answer. -/
def recordContractPostObligation (Γ : Env) (predIv : Interval) : GenM VerdictStatus := do
  let g ← get
  closeSite Γ .contractPost
    (.predicateHolds (predicateRef "")
      ((List.range g.sig.outputs.len).map fun i => .var ("out." ++ toString i)))
    (if g.checks ≠ .off ∧ g.session.keepContractChecks = false then
      some (.ofRange Γ.rangeReason predIv 1 1) else none)

def recordContractPreObligation (Γ : Env) (callee : String) (inLen : Nat) : GenM VerdictStatus :=
  closeSite Γ .contractPre
    (.predicateHolds (predicateRef callee) (List.replicate inLen (.var "$top"))) none

def emitSubtypeRangeTrap (Γ : Env) (cur : BlockId) (slot : Nat) (ty : TypeId) (st : SubtypeInfo)
    (span : Span) : GenM Unit := do
  emitOp Γ cur (.localGet slot ty) span
  emitOp Γ cur (.constI64 st.min) span
  emitOp Γ cur (.cmp TY_BOOL .ge) span
  emitOp Γ cur (.trapIfFalse .subtypeFail) span
  emitOp Γ cur (.localGet slot ty) span
  emitOp Γ cur (.constI64 st.max) span
  emitOp Γ cur (.cmp TY_BOOL .le) span
  emitOp Γ cur (.trapIfFalse .subtypeFail) span

def emitTopRangeTrap (Γ : Env) (cur : BlockId) (ty : TypeId) (st : SubtypeInfo) (span : Span) :
    GenM Unit := do
  let g ← get
  emitOp Γ cur (.dup ty) span
  emitOp Γ cur (.localSet (tempBaseSlot g) ty) span
  emitSubtypeRangeTrap Γ cur (tempBaseSlot g) ty st span

def emitUnlessClosed (status : VerdictStatus) (trap : GenM Unit) : GenM Unit := do
  let g ← get
  if emitSubtypeCheck g.checks status then trap else pure ()

def PREDICATE_PEAK_SLOTS_MAX : Nat := 64

/-- Start a clause: the frame that forbids every effect, the peak, the clause's names. -/
def beginContractPredicate (Γ : Env) (clause : Range) : GenM Unit := do
  pushCtx .contractPredicate .none
  fun g =>
    let depth := g.contractPredDepth + 1
    let g := { g with contractPredDepth := depth }
    .ok ((), if depth = 1 then { g with
        predEntryNet := g.acc.net
        predPeakSlots := 0
        predClauseNames := (contractPredicateNames Γ.src clause).take 4 }
      else g)

def endContractPredicate : GenM Unit := do
  modify fun g => { g with contractPredDepth := g.contractPredDepth - 1 }
  popCtx
  let g ← get
  check (g.predPeakSlots ≤ PREDICATE_PEAK_SLOTS_MAX) .contractPredicateTooLarge

def isPredicateClauseWord (g : Gen) (name : String) : Bool :=
  decide (0 < g.contractPredDepth) && decide (name.utf8ByteSize ≤ 32) &&
    g.predClauseNames.contains name

def inContractPredicate (g : Gen) : Bool := decide (0 < g.contractPredDepth)

/-- The abstract slots of the `n` lowest stack entries. -/
def predicateOriginSnapshot (g : Gen) (cur : BlockId) (n : Nat) : List Slot :=
  (List.range n).map fun i => (g.interp.stateOrFresh cur).stack.reverse.getD i .top

/-!
## Lowering of straight-line words

Literals, names, casts, bindings and memory accesses.  None of these opens a block: each
emits operations into the current one.  Where the source reads an identifier through its
lexer, the functions here take the cursor and return it.
-/

/-- Lowering of a range: the current block, the range, and whether locals may be bound
in it; the answer is the block where control goes on. -/
abbrev Compile := BlockId → Range → Bool → GenM BlockId

def lirAtom (text : String) : GenM Atom := need (Atom.new text) .atomTooLong

def hasFloatExponent (text : String) : Bool :=
  !(decide (2 < text.length) && (startsWith text "0x" || startsWith text "0X")) &&
    text.toList.any fun c => c == 'e' || c == 'E'

def compileNumber (Γ : Env) (cur : BlockId) (tok : Token) : GenM BlockId := do
  check (hasFloatExponent tok.text = false) .floatExponent
  push (.plain AT_I64)
  emitOp Γ cur (.constI64 ((parseI64Token tok.text.toList).getD 0)) tok.span
  pure cur

def compileString (Γ : Env) (cur : BlockId) (tok : Token) : GenM BlockId := do
  push (.plain AT_STR)
  emitOp Γ cur (.constStr tok.span) tok.span
  pure cur

def compileBoolLiteral (Γ : Env) (cur : BlockId) (name : String) (span : Span) :
    GenM BlockId := do
  push (.plain AT_BOOL)
  emitOp Γ cur (.constBool (name == "true")) span
  pure cur

def compileEnumVariant (Γ : Env) (cur : BlockId) (span : Span) (enumTy var : TypeAtom) :
    GenM Bool :=
  match enumVariantValue Γ.nominals enumTy var with
  | some v => do
    emitOp Γ cur (.constI64 v) span
    push (.plain AT_I64)
    let toId ← tyIdOfType Γ enumTy
    emitOp Γ cur (.cast TY_I64 toId) span
    discard
    push (.plain enumTy)
    pure true
  | none => do
    check ((Γ.nominals.enum enumTy).isNone = true) .enumVariantNotFound
    pure false

/-! ## Stack words and casts -/

/-- An exclusive borrow with a known place, or an exclusive register reference. -/
def Value.isMutBorrow : Value → Bool
  | .ptr _ true place => place != PLACE_NONE
  | .mmioPtr _ true => true
  | _ => false

def compileStackOp (Γ : Env) (cur : BlockId) (name : String) (span : Span) : GenM BlockId := do
  if name == "dup" then
    let top ← popOr .stackUnderflow
    check (top.isMutBorrow = false) .borrowDupMut
    check (Γ.isIso top.toTypeAtom = false) .isoDup
    push top
    push top
    let tid ← tyIdOfValue Γ top
    emitOp Γ cur (.dup tid) span
    pure cur
  else if name == "drop" then
    let top ← popOr .stackUnderflow
    check (Γ.isIso top.toTypeAtom = false) .isoDrop
    let tid ← tyIdOfValue Γ top
    emitOp Γ cur (.drop tid) span
    pure cur
  else if name == "swap" then
    let b ← popOr .stackUnderflow
    let a ← popOr .stackUnderflow
    push b
    push a
    let aId ← tyIdOfValue Γ a
    let bId ← tyIdOfValue Γ b
    emitOp Γ cur (.swap aId bId) span
    pure cur
  else pure cur

/-- The range test that `as?` leaves on the stack. -/
def emitRangeTest (Γ : Env) (cur : BlockId) (ty : TypeId) (st : SubtypeInfo) (span : Span) :
    GenM Unit := do
  let g ← get
  let tmp := tempBaseSlot g
  emitOp Γ cur (.dup ty) span
  emitOp Γ cur (.localSet tmp ty) span
  emitOp Γ cur (.localGet tmp ty) span
  emitOp Γ cur (.constI64 st.min) span
  emitOp Γ cur (.cmp TY_BOOL .ge) span
  emitOp Γ cur (.localGet tmp ty) span
  emitOp Γ cur (.constI64 st.max) span
  emitOp Γ cur (.cmp TY_BOOL .le) span
  emitOp Γ cur .andBool span

def checkCast (Γ : Env) (name : String) (fromTy toTy : TypeAtom) (subtype : Option SubtypeInfo) :
    GenM Unit := do
  check (subtype.all fun st => typeCompatible fromTy st.base Γ.subtypes) .castSubtypeMismatch
  if name == "bitcast" then
    check (subtype.isNone = true) .bitcastOnSubtype
    let src ← need (tyBitsSigned Γ.nominals Γ.subtypes fromTy) .bitcastWidthUnknown
    let tgt ← need (tyBitsSigned Γ.nominals Γ.subtypes toTy) .bitcastWidthUnknown
    check (src.1 = tgt.1) .bitcastWidthMismatch
  check (checkRawCastAllowed Γ.allowRawCasts fromTy toTy = true) .castNotAllowed

/-- What follows the cast itself: the test of `as?`, the check of `as`. -/
def finishCast (Γ : Env) (cur : BlockId) (name : String) (fromTy toTy : TypeAtom) (toId : TypeId)
    (subtype : Option SubtypeInfo) (preCast : Interval) (span : Span) : GenM Unit := do
  push (.ofType toTy)
  if name == "as?" then
    match subtype with
    | some st => emitRangeTest Γ cur toId st span
    | none => emitOp Γ cur (.constBool true) span
    push (.plain AT_BOOL)
  else if name == "as" then
    match subtype with
    | some st => do
      let verdict ← recordCastObligation Γ fromTy toTy st preCast
      emitUnlessClosed verdict (emitTopRangeTrap Γ cur toId st span)
    | none => pure ()
  else pure ()

/-- `as T`, `as? T` and `bitcast T`; the type follows in the source. -/
def compileCast (Γ : Env) (cur : BlockId) (lex : Cursor) (name : String) (span : Span) :
    GenM (BlockId × Cursor) := do
  let parsed ← need (Γ.parseTypeExpr lex) .castParseFailed
  let toTy := parsed.1
  let v ← popOr .castPopValue
  let fromTy := v.toTypeAtom
  let subtype := findSubtype Γ.subtypes toTy
  checkCast Γ name fromTy toTy subtype
  let fromId ← tyIdOfType Γ fromTy
  let toId ← tyIdOfType Γ toTy
  let g ← get
  -- the operand's interval before the cast narrows it
  let preCast := (g.interp.stateOrFresh cur).topInterval
  emitOp Γ cur (if name == "bitcast" then .bitcast fromId toId else .cast fromId toId) span
  finishCast Γ cur name fromTy toTy toId subtype preCast span
  pure (cur, ⟨min parsed.2 lex.stop, lex.stop⟩)

/-! ## Locals -/

def Value.scopeId : Value → Nat
  | .scoped _ s => s
  | _ => 0

def Value.placeId : Value → PlaceId
  | .ptr _ _ place => place
  | _ => PLACE_NONE

def LocalVar.value (l : LocalVar) : Value :=
  if l.place ≠ PLACE_NONE then .ptr l.ty (l.ty == AT_PTR_MUT) l.place
  else if l.ty = AT_PTR ∨ l.ty = AT_PTR_MUT then .rawPtr (l.ty == AT_PTR_MUT)
  else if l.scope ≠ 0 then .scoped l.ty l.scope
  else .plain l.ty

def LocalVar.afterUse (Γ : Env) (l : LocalVar) : LocalVar :=
  if (l.ty == AT_PTR_MUT && l.place != PLACE_NONE) || Γ.isIso l.ty then { l with live := false }
  else l

def compileLocalRef (Γ : Env) (cur : BlockId) (idx : Nat) (span : Span) : GenM BlockId := do
  let g ← get
  let l ← need g.locals[idx]? .panic
  check (l.live = true) (if Γ.isIso l.ty then .isoUseAfterMove
    else if l.place ≠ PLACE_NONE then .borrowLocalReuse else .localNotLive)
  modify fun g => { g with locals := g.locals.set idx (l.afterUse Γ) }
  push l.value
  let tid ← tyIdOfType Γ l.ty
  emitOp Γ cur (.localGet (localSlot g idx) tid) span
  pure cur

structure DestructBind where
  name : Atom
  borrow : Bool
  isMut : Bool

def parseBinds (src : Source) : Nat → Bool → List DestructBind → Cursor →
    Except TcError (List DestructBind × Cursor)
  | 0, _, _, _ => .error .outOfFuel
  | fuel + 1, sawBorrow, binds, lex =>
    let (b, lex) := src.next lex
    if b.kind = .rBrace then .ok (binds, lex)
    else if b.kind = .comma then parseBinds src fuel sawBorrow binds lex
    else if b.kind = .amp ∨ b.kind = .ampBang then do
      let (nameTok, lex) := src.next lex
      require (nameTok.kind = .ident) .expectedIdent
      let name ← expect (Atom.new nameTok.text) .typeParseFailed
      require (binds.length < 32) .bindingCapacityExceeded
      parseBinds src fuel true (binds ++ [⟨name, true, b.kind == .ampBang⟩]) lex
    else if b.kind = .ident then do
      require (sawBorrow = false) .destructBorrowMix
      let name ← expect (Atom.new b.text) .typeParseFailed
      require (binds.length < 32) .bindingCapacityExceeded
      parseBinds src fuel sawBorrow (binds ++ [⟨name, false, false⟩]) lex
    else .error .destructExpectedIdent

/-- The offset of a field that starts at or after `offset`, and the offset behind it. -/
def placeField (Γ : Env) (offset : Nat) (ty : TypeAtom) : GenM (Nat × Nat) := do
  let fsize ← need (typeSizeBytes Γ.nominals ty) .fieldSizeError
  let start := alignUp offset (fieldAlign fsize)
  let next ← need (checkedAddU32 start fsize) .fieldSizeError
  pure (start, next)

def bindLocal (Γ : Env) (cur : BlockId) (l : LocalVar) (tid : TypeId) (full : TcError)
    (span : Span) : GenM Unit := do
  let g ← get
  addLocal l full
  emitOp Γ cur (.localSet (localSlot g g.locals.length) tid) span

/-- Bind one field of the struct whose address is in the slot `tmp`; the answer is the
offset behind the field. -/
def compileFieldBind (Γ : Env) (cur : BlockId) (structTy : TypeAtom) (baseMut : Bool)
    (basePlace : PlaceId) (tmp : Nat) (offset : Nat) (p : DestructBind × StructFieldInfo)
    (span : Span) : GenM Nat := do
  let bind := p.1
  let field := p.2
  let baseTid := if baseMut then TY_PTR_MUT else TY_PTR
  check ((bind.borrow && bind.isMut && !baseMut) = false) .mutRefToLocal
  let placed ← placeField Γ offset field.ty
  emitOp Γ cur (.localGet tmp baseTid) span
  push (.ptr structTy baseMut basePlace)
  emitOp Γ cur (.ptrAddConst baseTid placed.1) span
  if bind.borrow then
    let g ← get
    check (findLocal g bind.name = none) .bindingAlreadyDefined
    discard
    bindLocal Γ cur ⟨bind.name, if bind.isMut then AT_PTR_MUT else AT_PTR, true, 0, basePlace⟩
      (if bind.isMut then TY_PTR_MUT else TY_PTR) .panic span
  else
    let tid ← tyIdOfType Γ field.ty
    emitOp Γ cur (.load tid) span
    discard
    push (.plain field.ty)
    let g ← get
    check (findLocal g bind.name = none) .bindingAlreadyDefined
    discard
    bindLocal Γ cur ⟨bind.name, field.ty, true, 0, PLACE_NONE⟩ tid .panic span
  pure placed.2

/-- The struct a pattern takes apart: its type, whether it may be written, its place. -/
def destructBase (hasBorrow : Bool) : Value → Option (TypeAtom × Bool × PlaceId)
  | .ptr ty isMut place => some (ty, isMut, place)
  | .plain t => if hasBorrow then none else some (t, false, PLACE_NONE)
  | _ => none

/-- `=> { … }` -/
def compileDestruct (Γ : Env) (cur : BlockId) (binds : List DestructBind) (span : Span) :
    GenM BlockId := do
  check (binds ≠ []) .destructEmpty
  let base ← peekOr .stackUnderflow
  let st ← need (destructBase (binds.any DestructBind.borrow) base) .destructNotStruct
  let sinfo ← need (Γ.nominals.struct st.1) .fieldNotFound
  check (binds.length = sinfo.fields.length) .destructFieldCount
  let g ← get
  let tmp := tempBaseSlot g
  emitOp Γ cur (.localSet tmp (if st.2.1 then TY_PTR_MUT else TY_PTR)) span
  discard
  let _ ← (binds.zip sinfo.fields).foldlM
    (fun offset p => compileFieldBind Γ cur st.1 st.2.1 st.2.2 tmp offset p span) 0
  pure cur

/-- `=> name` -/
def compileBind (Γ : Env) (cur : BlockId) (nameTok : Token) (span : Span) : GenM BlockId := do
  check (nameTok.kind = .ident) .expectedIdent
  let v ← popOr .stackUnderflow
  check (v ≠ .plain TYPE_SCOPED) .borrowEscape
  let name ← need (Atom.new nameTok.text) .typeParseFailed
  let g ← get
  check (findLocal g name = none) .bindingAlreadyDefined
  check (g.locals.length < 64) .bindingCapacityExceeded
  let slot := localSlot g g.locals.length
  addLocal ⟨name, v.toTypeAtom, true, v.scopeId, v.placeId⟩ .bindingCapacityExceeded
  let tid ← tyIdOfType Γ v.toTypeAtom
  emitOp Γ cur (.localSet slot tid) span
  pure cur

def compileDestructBind (Γ : Env) (cur : BlockId) (lex : Cursor) (allowLocals : Bool)
    (span : Span) : GenM (BlockId × Cursor) := do
  check (allowLocals = true) .bindNotAllowed
  let first := (Γ.src.next lex).1
  let lex := (Γ.src.next lex).2
  if first.kind = .lBrace then
    let parsed ← liftM (parseBinds Γ.src (lex.stop - lex.start + 1) false [] lex)
    let cur ← compileDestruct Γ cur parsed.1 span
    pure (cur, parsed.2)
  else
    let cur ← compileBind Γ cur first span
    pure (cur, lex)

/-- `[ … ]` -/
def compileQuotation (Γ : Env) (cur : BlockId) (lex : Cursor) : GenM (BlockId × Cursor) := do
  let captured ← need (Γ.src.captureBalanced .lBracket .rBracket lex) .typeParseFailed
  push (.quot captured.1)
  pure (cur, captured.2)

end Tyu.Irgen

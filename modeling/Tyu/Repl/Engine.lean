import Tyu.Repl.State

/-! # The engine -/

namespace Tyu.Repl

open Lib Lib.Wire Exec

variable {σ : Type}

def blockIndex (w : Word) (id : BlockId) : Option Nat :=
  w.blocks.items.findIdx? fun b => b.id = id

def entryBlock (w : Word) : Nat := (blockIndex w w.entry).getD (2 ^ 32 - 1)

def localCount (w : Word) : Nat :=
  (w.blocks.items.flatMap fun b => b.ops.items).foldl (fun n op => match op.kind with
    | .localGet slot _ | .localSet slot _ => max n (slot + 1)
    | _ => n) 0

def localsFor (w : Word) : List Slot := List.replicate (localCount w) (.int TY_I64 0)

def boundOk (w : Word) (depth : Nat) : Bool :=
  match w.bound.high with
  | .top => true
  | .slots extra => depth + extra ≤ STACK_CAP

def bitsToWidth (bits : Nat) : Nat := max 1 (bits / 8) % 2 ^ 8

def Compiled.mmioBase (c : Compiled) (aperture offset : Nat) : UInt64 :=
  match c.apertures.find? fun a => a.id = aperture with
  | some a => a.base + UInt64.ofNat offset
  | none => UInt64.ofNat offset

def Compiled.mmioTarget (c : Compiled) (addr : UInt64) : Option (Nat × Nat) :=
  (c.apertures.find? fun a => a.base ≤ addr ∧ addr < a.base + UInt64.ofNat a.size).map fun a =>
    (a.id, (addr - a.base).toNat % 2 ^ 32)

/-- The types on the stack at the entry of a block must be the ones it was checked with. -/
def checkBlockEntry (w : Word) (blockIdx : Nat) (span : Span) : Exec σ PUnit := do
  match w.blocks.items[blockIdx]? with
  | none => pure ⟨⟩
  | some block =>
    let stack ← view ExecCore.stack
    let n := block.entryStack.len
    if stack.length < n then
      internal span
        "block entry below its checked entry-stack depth (engine bug; see the plan, Q7)"
    else if (stack.take n).reverse.map Slot.ty ≠ block.entryStack.items then
      internal span
        "block-entry stack types diverge from the checked IR (engine bug; see the plan, Q7)"
    else pure ⟨⟩

/-- A slot with its new type; an integer must lie in the range of a subtype. -/
def stepCast (c : Compiled) (w : Word) (tgt : TypeId) (v : Slot) : Option Slot :=
  let base := (w.subtypeBases.get? tgt.idx).getD TY_EMPTY
  let inRange : Bool :=
    if base ≠ TY_EMPTY then
      match (w.types.get? tgt.idx).bind fun a => c.subtypeRange a.text, v.val with
      | some r, .int x => r.min ≤ x ∧ x ≤ r.max
      | _, _ => true
    else true
  if inRange then some ⟨tgt, v.val⟩ else none

def widen (raw : Nat) : Nat → Bool → Option Int64
  | 1, true => some (UInt8.ofNat raw).toInt8.toInt64
  | 1, false => some (Int64.ofNat (raw % 2 ^ 8))
  | 2, true => some (UInt16.ofNat raw).toInt16.toInt64
  | 2, false => some (Int64.ofNat (raw % 2 ^ 16))
  | 4, true => some (UInt32.ofNat raw).toInt32.toInt64
  | 4, false => some (Int64.ofNat (raw % 2 ^ 32))
  | 8, _ => some (Int64.ofNat raw)
  | _, _ => none

def stepLoad (c : Compiled) (w : Word) (ty : TypeId) (span : Span) : Exec σ PUnit := do
  let (bits, signed) ← orStop (.fault (.internal span "load type has no storage encoding"))
    (storageBitsSigned w ty c.wordBits)
  let width := bitsToWidth bits
  let addr ← popPtr w span
  let heap ← view ExecCore.heap
  let raw ← ofAccess span (heap.load addr width)
  let v ← orStop (.fault (.internal span "unreachable storage width")) (widen raw width signed)
  push (.int ty v)

def stepStore (c : Compiled) (w : Word) (ty : TypeId) (span : Span) : Exec σ PUnit := do
  let (bits, _) ← orStop (.fault (.internal span "store type has no storage encoding"))
    (storageBitsSigned w ty c.wordBits)
  let width := bitsToWidth bits
  let v ← popInt w span
  let addr ← popPtr w span
  changeHeap fun h =>
    match h.store addr width v.toUInt64.toNat with
    | .ok (old, h') => (.ok (⟨⟩, .store addr width old), h')
    | .fault f => (.error (.trap f.trap span), h)
    | .panic => (.error .panic, h)

def stepScopedEnter (w : Word) (ty : TypeId) (len : Nat) (span : Span) : Exec σ PUnit := do
  match w.typeClasses.get? ty.idx with
  | some .slice =>
    match ← view ExecCore.stack with
    | [] => trap .stackOverflow span
    | top :: _ =>
      match top.val with
      | .ptr base =>
        let addr ← heapOp span (fun h => h.scopedEnter base (UInt64.ofNat len))
          (fun r => .scopedEnter r.1 r.2) Prod.fst
        push (.ptr ty (UInt64.ofNat addr))
      | _ => trap .contractFail span
  | some .regionRef | some .regionRefMut =>
    match ← view ExecCore.stack with
    | [] => trap .stackOverflow span
    | top :: _ => push top
  | _ => trap .unreachable span

section Mmio

variable (c : Compiled) (p : Peripheral σ) (w : Word)

def mmioWidth (ty : TypeId) (span : Span) : Exec σ Nat := do
  let (bits, _) ← orStop
    (.fault (.internal span "mmio register width unresolved (descriptor/module mismatch)"))
    (storageBitsSigned w ty c.wordBits)
  pure (bitsToWidth bits)

def popTarget (span : Span) : Exec σ (Nat × Nat) := do
  let addr ← popPtr w span
  orStop (.device E9152_PERIPH_UNBOUND span none) (c.mmioTarget addr)

def readDevice (target : Nat × Nat) (width : Nat) (span : Span) : Exec σ UInt64 := do
  orStop (.device E9152_PERIPH_UNBOUND span (some target.1))
    (← device fun d => p.read d target.1 target.2 width)

def writeDevice (target : Nat × Nat) (width : Nat) (val : UInt64) (span : Span) :
    Exec σ PUnit := do
  if ← device fun d => p.write d target.1 target.2 width val then
    record (.periph target.1 target.2 width val true)
  else stop (.device E9152_PERIPH_UNBOUND span (some target.1))

def stepMmioLoad (ty : TypeId) (span : Span) : Exec σ PUnit := do
  let width ← mmioWidth c w ty span
  let target ← popTarget c w span
  let v ← readDevice p target width span
  push (.int ty v.toInt64)
  record (.periph target.1 target.2 width v false)

def stepMmioStore (ty : TypeId) (writeKind : WriteKind) (span : Span) : Exec σ PUnit := do
  let width ← mmioWidth c w ty span
  let v ← popInt w span
  let target ← popTarget c w span
  if writeKind = .plain then
    writeDevice p target width (v.toUInt64 &&& widthMask width) span
  else
    let cur ← readDevice p target width span
    writeDevice p target width (applyWriteKind cur v.toUInt64 width writeKind) span

def stepMmioLoadField (regTy fieldTy : TypeId) (mask shift : Nat) (span : Span) :
    Exec σ PUnit := do
  let width ← mmioWidth c w regTy span
  let target ← popTarget c w span
  let reg ← readDevice p target width span
  push (.int fieldTy (extractField reg (UInt64.ofNat mask) shift).toInt64)
  record (.periph target.1 target.2 width reg false)

def stepMmioStoreField (regTy : TypeId) (mask shift : Nat) (writeKind : WriteKind)
    (span : Span) : Exec σ PUnit := do
  let width ← mmioWidth c w regTy span
  let field ← popInt w span
  let target ← popTarget c w span
  let cur ← readDevice p target width span
  let reg := insertField cur (UInt64.ofNat mask) shift field.toUInt64
  let out := if writeKind = .plain then reg else applyWriteKind cur reg width writeKind
  writeDevice p target width out span

end Mmio

def retagOutputs (outs : List TypeId) : Exec σ PUnit := do
  let stack ← view ExecCore.stack
  if stack.length < outs.length then stop .panic
  else
    setStack ((stack.take outs.length).zipWith (fun s ty => { s with ty := ty }) outs.reverse ++
      stack.drop outs.length)

def callBuiltin (w : Word) (name : Atom) (sig : Sig) (b : Builtin) (span : Span) :
    Exec σ PUnit := do
  let stack ← view ExecCore.stack
  match b.checkArgs stack with
  | .error none => trap .stackOverflow span
  | .error (some want) =>
    stop (.contract span ⟨name.text, want.name, topCells stack w DETAIL_ACTUAL_CAP⟩)
  | .ok _ =>
    b.execute span
    retagOutputs sig.outputs.items

def translate (src tgt : Word) (ty : TypeId) (noName noType : Fault) : Except Fault TypeId :=
  match src.types.get? ty.idx with
  | none => .error noName
  | some atom =>
    match tgt.types.items.findIdx? fun a => a = atom with
    | none => .error noType
    | some id => .ok ⟨id⟩

/-- The arguments of a call, bottom first: each must have the wanted type, and gets it in
the tables of the callee. -/
def retagInputs (w callee : Word) (span : Span) (inLen : Nat) : Nat → List TypeId → Exec σ PUnit
  | _, [] => pure ⟨⟩
  | i, want :: wants => do
    let stack ← view ExecCore.stack
    let slot ← orStop .panic stack[inLen - 1 - i]?
    let id ← ofExcept Stop.fault <| translate w callee slot.ty
      (.internal span "argument type id out of the caller's type table (engine bug)")
      (.internal span "argument type missing from the callee's type table (engine bug)")
    if id ≠ want then
      stop (.contract span ⟨callee.name.text, sigTextOf callee,
        (((stack.take inLen).reverse).take DETAIL_ACTUAL_CAP).map (cellOf w)⟩)
    else
      setStack (stack.set (inLen - 1 - i) { slot with ty := id })
      retagInputs w callee span inLen (i + 1) wants

def callWord (c : Compiled) (cur : Cursor) (w : Word) (sig : Sig) (calleeIdx : Nat) (span : Span) :
    Exec σ Cursor := do
  let depth ← view fun st => st.stack.length
  let frames ← view ExecCore.frames
  let callee ← orStop .panic c.module.words[calleeIdx]?
  if depth < sig.inLen then trap .stackOverflow span
  else if CALL_DEPTH_CAP ≤ frames.length + 1 then trap .stackOverflow span
  else if !boundOk callee depth then trap .stackOverflow span
  else
    retagInputs w callee span sig.inLen 0 sig.inputs.items
    setFrames (⟨calleeIdx, localsFor callee, some { cur with op := cur.op + 1 }⟩ :: frames)
    record (.call callee.name.text frames.length)
    checkBlockEntry callee (entryBlock callee) span
    pure ⟨calleeIdx, entryBlock callee, 0⟩

def retagResults (callee caller : Word) (span : Span) : Nat → Exec σ PUnit
  | 0 => pure ⟨⟩
  | k + 1 => do
    let stack ← view ExecCore.stack
    let slot ← orStop .panic stack[k]?
    let id ← ofExcept Stop.fault <| translate callee caller slot.ty
      (.internal span "return type id out of the callee's type table (engine bug)")
      (.internal span "return type missing from the caller's type table (engine bug)")
    setStack (stack.set k { slot with ty := id })
    retagResults callee caller span k

def stepRet (c : Compiled) (callee : Word) (span : Span) : Exec σ Cursor := do
  match ← view ExecCore.frames with
  | [] => stop .done
  | frame :: frames =>
    setFrames frames
    match frame.ret with
    | none => stop .done
    | some ret =>
      if 0 < callee.sig.outLen then
        match frames with
        | [] => internal span "return without a caller frame (engine bug)"
        | f :: _ =>
          let caller ← orStop .panic c.module.words[f.word]?
          let depth ← view fun st => st.stack.length
          retagResults callee caller span (min callee.sig.outLen depth)
      pure ret

/-! ## One operation -/

def jump (cur : Cursor) (w : Word) (target : BlockId) (span : Span) : Exec σ Cursor := do
  let b ← orStop
    (.fault (.internal span "branch target out of range (verified IR cannot reach this)"))
    (blockIndex w target)
  checkBlockEntry w b span
  pure ⟨cur.word, b, 0⟩

def intOp (w : Word) (span : Span) (f : Int64 → Int64 → Slot) : Exec σ PUnit := do
  let (a, b) ← popTwo w span .int Value.int?
  push (f a b)

def boolOp (w : Word) (span : Span) (f : Bool → Bool → Bool) : Exec σ PUnit := do
  let (a, b) ← popTwo w span .bool Value.bool?
  push (.bool (f a b))

def CmpKind.compare (k : CmpKind) (a b : Int64) : Bool :=
  match k with
  | .lt => a < b
  | .le => a ≤ b
  | .gt => b < a
  | .ge => b ≤ a
  | .eq => a = b
  | .ne => a ≠ b

/-- An operation that only changes the state; control is `stepOp`'s. -/
def stepPlain (c : Compiled) (p : Peripheral σ) (w : Word) (op : Op) : Exec σ PUnit :=
  let span := op.span
  match op.kind with
  | .constI64 v => push (.int TY_I64 (Int64.ofInt v))
  | .constBool b => push (.bool b)
  | .constStr lit => do
    let addr ← orStop (.trap .regionExhausted span) (← view fun st => st.internedString lit)
    push (.ptr TY_STR (UInt64.ofNat addr))
  | .addrOf place _ base =>
    match base with
    | .runtime => do
      let addr ← resourceAddr place span
      push (.ptr TY_PTR_MUT (UInt64.ofNat addr))
    | .mmio aperture offset => push (.ptr TY_PTR_MUT (c.mmioBase aperture offset))
  | .mmioPlace _ aperture offset => push (.ptr TY_PTR_MUT (c.mmioBase aperture offset))
  | .scopedEnter ty len => stepScopedEnter w ty len span
  | .taskSpawn _ _ => stop (.fault (.tasks span))
  | .ptrAddConst _ offset => do
    let base ← popPtr w span
    push (.ptr TY_PTR_MUT (base + UInt64.ofNat offset))
  | .ptrAddIndex _ scale => do
    let i ← popAs Value.int?
    let b ← popAs Value.ptr?
    let i ← ofExcept (popFault w span .int) i
    let b ← ofExcept (popFault w span .ptr) b
    push (.ptr TY_PTR_MUT (b + i.toUInt64 * UInt64.ofNat scale))
  | .dup _ => do
    match ← view ExecCore.stack with
    | [] => trap .stackOverflow span
    | top :: _ => push top
  | .drop _ => do
    let _ ← ofExcept (popFault w span .int) (← popAny)
  | .swap _ _ => do
    match ← view ExecCore.stack with
    | b :: a :: rest => setStack (a :: b :: rest)
    | _ => trap .stackOverflow span
  | .addI64 => intOp w span fun a b => .int TY_I64 (a + b)
  | .subI64 => intOp w span fun a b => .int TY_I64 (a - b)
  | .mulI64 => intOp w span fun a b => .int TY_I64 (a * b)
  | .cmp out k => intOp w span fun a b => ⟨out, .bool (CmpKind.compare k a b)⟩
  | .andBool => boolOp w span fun a b => a && b
  | .orBool => boolOp w span fun a b => a || b
  | .notBool => do
    let a ← popBool w span
    push (.bool (!a))
  | .interruptDisable | .interruptEnable => stop (.fault (.tasks span))
  | .localSet slot _ => do
    let v ← ofExcept (popFault w span .int) (← popAny)
    match ← view ExecCore.frames with
    | [] => trap .stackOverflow span
    | f :: frames =>
      let locals := f.locals ++ List.replicate (slot + 1 - f.locals.length) (.int TY_I64 0)
      setFrames ({ f with locals := locals.set slot v } :: frames)
  | .localGet slot _ => do
    let frames ← view ExecCore.frames
    let v ← orStop (.trap .stackOverflow span) (frames.head?.bind fun f => f.locals[slot]?)
    push v
  | .cast _ tgt => do
    let v ← ofExcept (popFault w span .int) (← popAny)
    let s ← orStop (.trap .subtypeFail span) (stepCast c w tgt v)
    push s
  | .bitcast _ tgt => do
    let v ← ofExcept (popFault w span .int) (← popAny)
    push ⟨tgt, v.val⟩
  | .load ty => stepLoad c w ty span
  | .store ty => stepStore c w ty span
  | .mmioVolLoad ty _ _ _ _ => stepMmioLoad c p w ty span
  | .mmioVolStore ty _ writeKind _ _ _ => stepMmioStore c p w ty writeKind span
  | .mmioVolLoadField regTy fieldTy _ mask shift _ _ _ =>
    stepMmioLoadField c p w regTy fieldTy mask shift span
  | .mmioVolStoreField regTy _ _ mask shift writeKind _ _ _ =>
    stepMmioStoreField c p w regTy mask shift writeKind span
  | .trapIfFalse code => do
    let b ← popBool w span
    let elideGuards ← view ExecCore.elideGuards
    let stack ← view ExecCore.stack
    if elideGuards || b then pure ⟨⟩
    else if code = .contractFail then
      stop (.contract span ⟨w.name.text, sigTextOf w, topCells stack w DETAIL_ACTUAL_CAP⟩)
    else trap code span
  | .call _ _ _ _ _ | .br _ | .brIf _ _ | .ret => pure ⟨⟩

def stepOp (c : Compiled) (p : Peripheral σ) (cur : Cursor) (w : Word) (op : Op) :
    Exec σ Cursor :=
  let next : Cursor := { cur with op := cur.op + 1 }
  match op.kind with
  | .call name sig _ _ _ =>
    match c.dictLookup name with
    | some (.builtin b) => do
      callBuiltin w name sig b op.span
      pure next
    | some (.word callee) => callWord c cur w sig callee op.span
    | none => trap .unsupportedImport op.span
  | .br target => jump cur w target op.span
  | .brIf thenTgt elseTgt => do
    let b ← popBool w op.span
    jump cur w (if b then thenTgt else elseTgt) op.span
  | .ret => stepRet c w op.span
  | _ => do
    stepPlain c p w op
    pure next

def opAt (w : Word) (cur : Cursor) : Option Op :=
  (w.blocks.items[cur.block]?).bind fun b => b.ops.items[cur.op]?

def step (c : Compiled) (p : Peripheral σ) (cur : Cursor) : Exec σ Cursor := do
  let w ← orStop .panic c.module.words[cur.word]?
  let block ← orStop
    (.fault (.internal .UNKNOWN "cursor block out of range (verified IR cannot reach this)"))
    w.blocks.items[cur.block]?
  let op ← orStop
    (.fault (.internal .UNKNOWN "cursor op out of range (verified IR cannot reach this)"))
    block.ops.items[cur.op]?
  stepOp c p cur w op

theorem step_eq (c : Compiled) (p : Peripheral σ) {cur : Cursor} {w : Word} {op : Op}
    (hw : c.module.words[cur.word]? = some w) (hop : opAt w cur = some op) :
    step c p cur = stepOp c p cur w op := by
  obtain ⟨block, hb, hop⟩ := Option.bind_eq_some_iff.mp hop
  unfold step
  rw [hw]
  show (do
    let block ← Exec.orStop _ w.blocks.items[cur.block]?
    let op ← Exec.orStop _ block.ops.items[cur.op]?
    stepOp c p cur w op) = _
  rw [hb]
  show (do
    let op ← Exec.orStop _ block.ops.items[cur.op]?
    stepOp c p cur w op) = _
  rw [hop]
  rfl

inductive Ending where
  | stopped (r : Stop)
  | fuel (span : Span)

structure Outcome where
  ending : Ending
  out : Bytes

structure ExecState where
  core : ExecCore
  fuel : Nat
  cursor : Option Cursor

def opSpan (c : Compiled) (cur : Cursor) : Span :=
  match (c.module.words[cur.word]?).bind fun w => opAt w cur with
  | some op => op.span
  | none => .UNKNOWN

def ExecCore.takeOut (st : ExecCore) : ExecCore := { st with out := [] }

def drive (c : Compiled) (p : Peripheral σ) :
    Nat → Cursor → ExecCore × σ → Outcome × ExecState × σ
  | 0, cur, (st, d) => (⟨.fuel (opSpan c cur), st.out⟩, ⟨st.takeOut, 0, some cur⟩, d)
  | n + 1, cur, s =>
    match step c p cur s with
    | (.ok cur, s) => drive c p n cur s
    | (.error r, (st, d)) => (⟨.stopped r, st.out⟩, ⟨st.takeOut, n, some cur⟩, d)

def refuse (st : ExecState) (d : σ) (r : Stop) : Outcome × ExecState × σ :=
  (⟨.stopped r, st.core.out⟩, { st with core := st.core.takeOut }, d)

def run (c : Compiled) (p : Peripheral σ) (entry : Atom) (st : ExecState) (d : σ) :
    Outcome × ExecState × σ :=
  match c.dictLookup entry with
  | none => refuse st d
      (.fault (.internal .UNKNOWN "entry word missing from the dictionary"))
  | some (.builtin _) => refuse st d
      (.fault (.internal .UNKNOWN "entry name resolves to a builtin"))
  | some (.word idx) =>
    match c.module.words[idx]? with
    | none => refuse st d .panic
    | some w =>
      if boundOk w st.core.stack.length then
        drive c p st.fuel ⟨idx, entryBlock w, 0⟩
          ({ st.core with frames := [⟨idx, localsFor w, none⟩] }, d)
      else refuse st d (.trap .stackOverflow .UNKNOWN)

def resume (c : Compiled) (p : Peripheral σ) (st : ExecState) (d : σ) :
    Outcome × ExecState × σ :=
  match st.cursor with
  | none => refuse st d (.fault (.internal .UNKNOWN "resume without a stored cursor"))
  | some cur => drive c p st.fuel cur (st.core, d)

end Tyu.Repl

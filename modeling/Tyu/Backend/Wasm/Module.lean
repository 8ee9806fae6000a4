import Tyu.Backend.Wasm.Code

/-! # The module -/

namespace Tyu.Wasm

open Lib.Wire

def STACK_CAP : Nat := 4096

structure Access where
  offset : Nat
  op : MemOp
  span : Span
deriving DecidableEq

/-- The loads and stores among instructions that are written from an offset on. -/
def accesses (start : Nat) : List Instr → List Access
  | [] => []
  | .access op span :: is =>
    ⟨start, op, span⟩ :: accesses (start + (Instr.access op span).bytes.length) is
  | i :: is => accesses (start + i.bytes.length) is

/-- A function; `accesses` lists the loads and stores in its body. -/
structure Func where
  name : String
  typeIndex : Nat
  body : Bytes
  calls : List (Nat × Callee)
  accesses : List Access

structure TrapSite where
  func : Nat
  bodyOffset : Nat
  span : Span

structure Backend where
  types : List (Bytes × Bytes)
  funcs : List Func
  usesExit : Bool
  usesMmio : Bool
  usesBarrier : Bool
  entryName : String
  tables : Tables
  trapSites : List TrapSite

def Backend.new (entryName : String) : Backend :=
  ⟨[], [], false, false, false, entryName, ⟨[], [], [], [], 0⟩, []⟩

def typeIndex (types : List (Bytes × Bytes)) (params results : Bytes) :
    Nat × List (Bytes × Bytes) :=
  match types.findIdx? (· = (params, results)) with
  | some i => (i, types)
  | none => (types.length, types ++ [(params, results)])

/-! ## Words -/

def scanOp (b : Backend) (op : Op) : Except CodegenError Backend :=
  match op.kind with
  | .call name _ _ _ _ =>
    .ok (if name.text = "testio.exit" then { b with usesExit := true } else b)
  | .taskSpawn _ _ | .interruptEnable | .interruptDisable => .error .unsupportedConstruct
  | .addrOf _ _ (.mmio _ _) | .mmioPlace _ _ _ => .ok { b with usesMmio := true }
  | kind =>
    match barrierOf kind with
    | some barrier =>
      .ok { b with
        usesMmio := true
        usesBarrier := b.usesBarrier || decide (barrier ≠ .none) }
    | none => .ok b

def opsOf (w : Word) : List Op := w.blocks.items.flatMap fun blk => blk.ops.items

def slotLocals (w : Word) : Nat :=
  let peak :=
    match w.bound.high with
    | .top => STACK_CAP
    | .slots extra => w.sig.inLen + extra
  max peak w.sig.inLen + 1

def maxDeclared (w : Word) : Nat :=
  (opsOf w).foldl (fun n op =>
    match op.kind with
    | .localGet slot _ | .localSet slot _ => max n (slot + 1)
    | _ => n) w.sig.inLen

/-- The groups of locals: the slots, the cursor, the scratch, and the slots the operations
name beyond the parameters. -/
def header (w : Word) : Bytes :=
  let slots := slotLocals w
  let overflow := maxDeclared w - w.sig.inLen
  let groups :=
    (if 0 < slots then [localsGroup slots VAL_I64] else []) ++
      [localsGroup 1 VAL_I32, localsGroup 1 VAL_I64] ++
      (if 0 < overflow then [localsGroup overflow VAL_I64] else [])
  uleb groups.length ++ groups.flatten

/-- The operations of a block; `at` places one at a height. -/
def emitOps (src : Source) (c : Op → Nat → OpContext) :
    List Op → Nat → Tables → Except CodegenError (List Instr × Tables)
  | [], _, t => .ok ([], t)
  | op :: ops, h, t => do
    let (code, h, t) ← emitOp src (c op h) t
    let (rest, t) ← emitOps src c ops h t
    .ok (code ++ rest, t)

/-- Where the operations of block `k` stand. -/
def contextOf (w : Word) (k : Nat) (op : Op) (h : Nat) : OpContext :=
  let slots := slotLocals w
  let cur := w.sig.inLen + slots
  ⟨w, op, h, cur, w.sig.inLen, slots, cur + 1, k, w.blocks.len⟩

/-- The cases of the dispatch ladder from block `k` on. -/
def emitCases (src : Source) (w : Word) :
    List Block → Nat → Tables → Except CodegenError (List Instr × Tables)
  | [], _, t => .ok ([], t)
  | blk :: blks, k, t => do
    let (code, t) ← emitOps src (contextOf w k) blk.ops.items blk.entryStack.len t
    let (rest, t) ← emitCases src w blks (k + 1) t
    .ok ((if 0 < k then [Instr.end] else []) ++ code ++ rest, t)

def dispatchHead (blocks cur : Nat) : List Instr :=
  .loop :: List.replicate (blocks - 1) .block ++
    [.block, .block, .localGet cur, .brTable (List.range blocks) 0, .end]

/-- The instructions of a word: straight code for a single block, else a ladder over the
blocks in a loop. -/
def emitCode (src : Source) (w : Word) (t : Tables) :
    Except CodegenError (List Instr × Tables) := do
  let cur := w.sig.inLen + slotLocals w
  let entry := (blockIndex w w.entry).getD 0
  let prologue : List Instr := [.i32Const entry, .localSet cur]
  match w.blocks.items with
  | [blk] =>
    let (code, t) ← emitOps src (contextOf w entry) blk.ops.items blk.entryStack.len t
    .ok (prologue ++ code ++ [.end], t)
  | blks =>
    let (code, t) ← emitCases src w blks 0 t
    .ok (prologue ++ dispatchHead blks.length cur ++ code ++
      [.end, .br 0, .end, .unreachable, .end], t)

def emitWord (src : Source) (b : Backend) (w : Word) : Except CodegenError Backend := do
  let b ← (opsOf w).foldlM scanOp b
  let (index, types) := typeIndex b.types (List.replicate w.sig.inLen VAL_I64)
    (List.replicate w.sig.outLen VAL_I64)
  let (code, t) ← emitCode src w b.tables
  let body := Body.addAll ⟨header w, [], []⟩ code
  .ok { b with
    types := types
    tables := t
    funcs := b.funcs ++
      [⟨w.name.text, index, body.out, body.calls, Wasm.accesses (header w).length code⟩]
    trapSites := b.trapSites ++ body.traps.map fun e => ⟨b.funcs.length, e.1, e.2⟩ }

/-- A helper as its module provides it: a name, a type and a finished body. -/
structure RegionHelper where
  name : String
  params : Bytes
  results : Bytes
  body : Bytes

def helperKey : Helper → String
  | .create => "$helper:create"
  | .alloc => "$helper:alloc"
  | .reset => "$helper:reset"
  | .destroy => "$helper:destroy"
  | .emitStr => "$helper:emit_str"

def importCount (b : Backend) : Nat :=
  2 + b.usesExit.toNat + 2 * b.usesMmio.toNat + b.usesBarrier.toNat

def usedHelpers (b : Backend) : List Helper :=
  [.create, .alloc, .reset, .destroy, .emitStr].filter (· ∈ b.tables.usedHelpers)

def keys (b : Backend) : List (String × Nat) :=
  [("$import:write_byte", IMPORT_WRITE_BYTE), ("$import:trap", IMPORT_TRAP)] ++
    (if b.usesExit then [("$import:exit", IMPORT_EXIT)] else []) ++
    (if b.usesMmio then [("$import:periph_read", 2 + b.usesExit.toNat),
      ("$import:periph_write", 2 + b.usesExit.toNat + 1)] else []) ++
    (if b.usesBarrier then
      [("$import:barrier", 2 + b.usesExit.toNat + 2 * b.usesMmio.toNat)] else []) ++
    b.funcs.zipIdx.map (fun e => (e.1.name, importCount b + e.2)) ++
    (usedHelpers b).zipIdx.map fun e =>
      (helperKey e.1, importCount b + b.funcs.length + e.2)

def resolve (b : Backend) : Callee → Option Nat
  | .imported i => some i
  | .exit => some IMPORT_EXIT
  | .peripheralRead => some (IMPORT_PERIPH_READ + b.usesExit.toNat - 1)
  | .peripheralWrite => some (IMPORT_PERIPH_WRITE + b.usesExit.toNat - 1)
  | .barrier _ _ => some (IMPORT_BARRIER + b.usesExit.toNat - 1)
  | .word name => (keys b).lookup name
  | .helper h => (keys b).lookup (helperKey h)

def operand (b : Backend) (call : Nat × Callee) : Except CodegenError (Nat × Bytes) :=
  match resolve b call.2 with
  | some i => .ok (call.1, paddedUleb i CALL_LEB_WIDTH)
  | none => .error (.unsupportedOp "call (unresolved call target on wasm32)")

def patchCalls (b : Backend) (f : Func) : Except CodegenError Func := do
  let operands ← f.calls.mapM (operand b)
  .ok { f with body := patchAll f.body operands }

def addHelpers (helpers : Helper → RegionHelper) :
    List Helper → List (Bytes × Bytes) → List Func × List (Bytes × Bytes)
  | [], types => ([], types)
  | h :: hs, types =>
    let (index, types) := typeIndex types (helpers h).params (helpers h).results
    let (rest, types) := addHelpers helpers hs types
    (⟨(helpers h).name, index, (helpers h).body, [], []⟩ :: rest, types)

/-! ## The sections -/

/-- The function behind the exported entry: zeros for the inputs of the entry word, and only
its top result is kept. -/
def wrapperBody (mainIdx imports mainIn mainOut : Nat) : Bytes :=
  uleb 0 ++ (List.replicate mainIn (0x42 :: sleb 0)).flatten ++
    (OP_CALL :: paddedUleb (mainIdx + imports) CALL_LEB_WIDTH) ++
    (if mainOut = 0 then 0x41 :: sleb 0 else List.replicate (mainOut - 1) 0x1a ++ [0xa7]) ++
    [0x0b]

/-- The entries of the code section behind a first part, and the offset of each body. -/
def codeEntries (payload : Bytes) : List Bytes → Bytes × List Nat
  | [] => (payload, [])
  | body :: bodies =>
    let front := payload ++ uleb body.length
    let rest := codeEntries (front ++ body) bodies
    (rest.1, front.length :: rest.2)

/-- `tyu`, the name space of the imports. -/
def NAMESPACE : Bytes := [0x74, 0x79, 0x75]

def importEntry (text : String) (ty : Nat) : Bytes :=
  name NAMESPACE ++ name text.toUTF8.toList ++ [0x00] ++ uleb ty

/-- `\0asm` and the version. -/
def MAGIC : Bytes := [0x00, 0x61, 0x73, 0x6d, 1, 0, 0, 0]

def MEMORY_MIN_PAGES : Nat := 16
def MEMORY_MAX_PAGES : Nat := 256
def ARENA_BASE : Nat := 256 * 1024

def frontSections (b : Backend) (types : List (Bytes × Bytes)) (funcs : List Func)
    (imports wrapperType : Nat) (importPayload : Bytes) : Bytes :=
  MAGIC ++
    sectionBytes SEC_TYPE (uleb types.length ++ types.flatMap fun t => functype t.1 t.2) ++
    sectionBytes SEC_IMPORT (uleb (2 + b.usesExit.toNat + 2 * b.usesMmio.toNat +
      b.usesBarrier.toNat) ++ importPayload) ++
    sectionBytes SEC_FUNCTION (uleb (funcs.length + 1) ++
      funcs.flatMap (fun f => uleb f.typeIndex) ++ uleb wrapperType) ++
    sectionBytes SEC_MEMORY (uleb 1 ++ uleb 1 ++ uleb MEMORY_MIN_PAGES ++ uleb MEMORY_MAX_PAGES) ++
    sectionBytes SEC_GLOBAL (uleb 1 ++ [VAL_I64, 0x01] ++ (0x42 :: sleb ARENA_BASE) ++ [0x0b]) ++
    sectionBytes SEC_EXPORT (uleb 2 ++ name "tyu_main".toUTF8.toList ++ [0x00] ++
      uleb (imports + funcs.length) ++ name "memory".toUTF8.toList ++ [0x02] ++ uleb 0)

def dataSection (bytes : Bytes) : Bytes :=
  if bytes = [] then []
  else
    sectionBytes SEC_DATA (uleb 1 ++ uleb 0 ++ (0x41 :: sleb STRINGS_BASE) ++ [0x0b] ++
      uleb bytes.length ++ bytes)

/-- A module as it is written: the bytes, the records of the span table, and the loads and
stores of all functions at their offsets in the module. -/
structure Emitted where
  bin : Bytes
  records : List SpanRecord
  sites : List Access

def recordOf (codePayloadBase : Nat) (funcOffsets : List Nat) (site : TrapSite) : SpanRecord :=
  ⟨UInt32.ofNat (codePayloadBase + (funcOffsets[site.func]?).getD 0 + site.bodyOffset),
    UInt32.ofNat site.span.start, UInt32.ofNat (site.span.stop - site.span.start)⟩

def sitesOf (codePayloadBase : Nat) (funcOffsets : List Nat) (funcs : List Func) : List Access :=
  (funcs.zip funcOffsets).flatMap fun e =>
    e.1.accesses.map fun a => { a with offset := codePayloadBase + e.2 + a.offset }

/-- The types of the imports, the wrapper's type first, and the import entries. -/
def registerImports (b : Backend) (types : List (Bytes × Bytes)) :
    Nat × List (Bytes × Bytes) × Bytes :=
  let (wrapperType, types) := typeIndex types [] [VAL_I32]
  let (sig10, types) := typeIndex types [VAL_I64] []
  let (sig30, types) := typeIndex types [VAL_I64, VAL_I32, VAL_I32] []
  let (read, types) :=
    if b.usesMmio then typeIndex types [VAL_I32, VAL_I32, VAL_I32] [VAL_I64] else (0, types)
  let (write, types) :=
    if b.usesMmio then typeIndex types [VAL_I32, VAL_I32, VAL_I32, VAL_I64] [] else (0, types)
  let (barrier, types) :=
    if b.usesBarrier then typeIndex types [VAL_I32, VAL_I32] [] else (0, types)
  (wrapperType, types,
    importEntry "write_byte" sig10 ++ importEntry "trap" sig30 ++
      (if b.usesExit then importEntry "exit" sig10 else []) ++
      (if b.usesMmio then importEntry "periph_read" read ++ importEntry "periph_write" write
        else []) ++
      (if b.usesBarrier then importEntry "barrier" barrier else []))

def emitModuleSections (b : Backend) (imports : Nat) (funcs : List Func) :
    Except CodegenError Emitted :=
  match funcs.findIdx? (·.name = b.entryName) with
  | none => .error (.missingEntryPoint b.entryName)
  | some mainIdx =>
    let mainType := (funcs[mainIdx]?.bind fun f => b.types[f.typeIndex]?).getD ([], [])
    let wrapBody := wrapperBody mainIdx imports mainType.1.length mainType.2.length
    let (wrapperType, types, importPayload) := registerImports b b.types
    let (codePayload, funcOffsets) :=
      codeEntries (uleb (funcs.length + 1)) (funcs.map (·.body) ++ [wrapBody])
    let front := frontSections b types funcs imports wrapperType importPayload ++
      (SEC_CODE :: uleb codePayload.length)
    let records := b.trapSites.map (recordOf front.length funcOffsets)
    .ok {
      bin := front ++ codePayload ++ dataSection b.tables.stringBytes ++
        Spans.customSection records
      records := records
      sites := sitesOf front.length funcOffsets funcs }

def emitPostlude (helpers : Helper → RegionHelper) (b : Backend) : Except CodegenError Emitted := do
  let (more, types) := addHelpers helpers (usedHelpers b) b.types
  let funcs ← (b.funcs ++ more).mapM (patchCalls b)
  emitModuleSections { b with types := types } (importCount b) funcs

def emitModule (src : Source) (helpers : Helper → RegionHelper) (entryName : String)
    (words : List Word) : Except CodegenError Emitted := do
  let b ← words.foldlM (emitWord src) (Backend.new entryName)
  emitPostlude helpers b

end Tyu.Wasm

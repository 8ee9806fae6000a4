import Tyu.Backend.Simulation
import Tyu.Backend.Wasm.Spans
import Tyu.Repl.Compiled

/-!
# The code of an operation

Every slot of the data stack is a local; the height of the stack is known while the code is
written, so an operation names the locals of the slots it uses.
-/

namespace Tyu.Wasm

open Lib.Wire

/-! ## Instructions -/

inductive NumOp where
  | i32GeU | i32LeU | i32And | i32Sub | i32Shl | i32Eqz
  | i64Eqz | i64Eq | i64Ne | i64LtS | i64GtS | i64LeS | i64GeS
  | i64Add | i64Sub | i64Mul | i64And | i64Or | i64Xor | i64Shl | i64ShrS | i64ShrU
  | i32WrapI64 | i64ExtendI32U

def NumOp.opcode : NumOp → UInt8
  | .i32GeU => 0x4f
  | .i32LeU => 0x4d
  | .i32And => 0x71
  | .i32Sub => 0x6b
  | .i32Shl => 0x74
  | .i32Eqz => 0x45
  | .i64Eqz => 0x50
  | .i64Eq => 0x51
  | .i64Ne => 0x52
  | .i64LtS => 0x53
  | .i64GtS => 0x55
  | .i64LeS => 0x57
  | .i64GeS => 0x59
  | .i64Add => 0x7c
  | .i64Sub => 0x7d
  | .i64Mul => 0x7e
  | .i64And => 0x83
  | .i64Or => 0x84
  | .i64Xor => 0x85
  | .i64Shl => 0x86
  | .i64ShrS => 0x87
  | .i64ShrU => 0x88
  | .i32WrapI64 => 0xa7
  | .i64ExtendI32U => 0xad

inductive Helper where
  | create | alloc | reset | destroy | emitStr
deriving DecidableEq

inductive Callee where
  | imported (index : Nat)
  | exit
  | peripheralRead
  | peripheralWrite
  | barrier (kind : Nat) (after : Bool)
  | word (name : String)
  | helper (h : Helper)

def OP_CALL : UInt8 := 0x10
def OP_I64_LOAD : UInt8 := 0x29
def OP_I64_STORE : UInt8 := 0x37

def CALL_LEB_WIDTH : Nat := 5

inductive MemOp where
  | load | store
deriving DecidableEq

def MemOp.opcode : MemOp → UInt8
  | .load => OP_I64_LOAD
  | .store => OP_I64_STORE

inductive Instr where
  | num (op : NumOp)
  | i32Const (v : Int)
  | i64Const (v : Int)
  | localGet (i : Nat)
  | localSet (i : Nat)
  | drop
  | select
  | memorySize
  | unreachable
  | ret
  | end
  | else
  | if
  | block
  | loop
  | br (depth : Nat)
  | brTable (targets : List Nat) (default : Nat)
  /-- a store of the backend's own -/
  | storeDesc
  /-- a load or store of the source, noted for the span table -/
  | access (op : MemOp) (span : Span)
  | call (callee : Callee)

namespace Instr

def bytes : Instr → Bytes
  | num op => [op.opcode]
  | i32Const v => 0x41 :: sleb v
  | i64Const v => 0x42 :: sleb v
  | localGet i => 0x20 :: uleb i
  | localSet i => 0x21 :: uleb i
  | drop => [0x1a]
  | select => [0x1b]
  | memorySize => [0x3f, 0]
  | unreachable => [0x00]
  | ret => [0x0f]
  | «end» => [0x0b]
  | «else» => [0x05]
  | «if» => [0x04, 0x40]
  | block => [0x02, 0x40]
  | loop => [0x03, 0x40]
  | br depth => 0x0c :: uleb depth
  | brTable targets default => 0x0e :: (uleb targets.length ++ targets.flatMap uleb ++ uleb default)
  | storeDesc => OP_I64_STORE :: memarg 0
  | access op _ => op.opcode :: memarg 0
  | call _ => OP_CALL :: List.replicate CALL_LEB_WIDTH 0

end Instr

structure Body where
  out : Bytes
  calls : List (Nat × Callee)
  traps : List (Nat × Span)

/-- Write an instruction.  The offset of a load or store is noted once its operands are
written, that of a call operand before. -/
def Body.add (b : Body) (i : Instr) : Body :=
  let out := b.out ++ i.bytes
  match i with
  | .access _ span => { b with out := out, traps := b.traps ++ [(out.length - 2, span)] }
  | .call callee => { b with out := out, calls := b.calls ++ [(b.out.length + 1, callee)] }
  | _ => { b with out := out }

def Body.addAll (b : Body) (is : List Instr) : Body := is.foldl Body.add b

/-! ## Operations -/

inductive CodegenError where
  | unsupportedConstruct
  | unsupportedOp (name : String)
  | malformedIr (detail : Nat)
  | unknownTypeProperties (ty : TypeId)
  | stringLiteralCapacityExceeded
  | unsupportedAddrOf
  | resourceCapacityExceeded
  | scopedAllocationOverflow
  | missingEntryPoint (name : String)
deriving DecidableEq

def IMPORT_WRITE_BYTE : Nat := 0
def IMPORT_TRAP : Nat := 1
def IMPORT_EXIT : Nat := 2
def IMPORT_PERIPH_READ : Nat := 3
def IMPORT_PERIPH_WRITE : Nat := 4
def IMPORT_BARRIER : Nat := 5

def RESOURCES_BASE : Nat := 4096
def RESOURCES_CAP : Nat := 256
def RESOURCE_STRIDE : Nat := 16
def STRINGS_BASE : Nat := 8192
def STRINGS_CAP : Nat := 64 * 1024
def SCOPED_BASE : Nat := 128 * 1024
def SCOPED_SITES_CAP : Nat := 1024
def SCOPED_STRIDE : Nat := 16

structure Tables where
  usedHelpers : List Helper
  strings : List (Nat × Nat)
  stringBytes : Bytes
  resources : List Atom
  scopedSites : Nat

/-- What the emission reads of the module: the resources it declares, the literal at a span
and the text of the span. -/
structure Source where
  declared : Atom → Bool
  literal : Span → Option Bytes
  text : Span → Option Bytes

def internString (src : Source) (t : Tables) (span : Span) : Except CodegenError (Nat × Tables) :=
  match t.strings.find? fun e => e.1 = span.start % 2 ^ 32 with
  | some (_, addr) => .ok (addr, t)
  | none =>
    match (src.literal span).or (src.text span) with
    | none => .error (.malformedIr 1)
    | some bytes =>
      if STRINGS_CAP - t.stringBytes.length < 8 + bytes.length then
        .error .stringLiteralCapacityExceeded
      else
        let addr := STRINGS_BASE + t.stringBytes.length
        .ok (addr, { t with
          stringBytes := t.stringBytes ++ (putLE 8 bytes.length ++ bytes)
          strings := t.strings ++ [(span.start % 2 ^ 32, addr)] })

def internResource (src : Source) (t : Tables) (place : Atom) :
    Except CodegenError (Nat × Tables) :=
  if !src.declared place then .error .unsupportedAddrOf
  else
    match t.resources.findIdx? (· = place) with
    | some i => .ok (RESOURCES_BASE + i * RESOURCE_STRIDE, t)
    | none =>
      if RESOURCES_CAP ≤ t.resources.length then .error .resourceCapacityExceeded
      else
        .ok (RESOURCES_BASE + t.resources.length * RESOURCE_STRIDE,
          { t with resources := t.resources ++ [place] })

def nextScopedDesc (t : Tables) : Except CodegenError (Nat × Tables) :=
  if SCOPED_SITES_CAP ≤ t.scopedSites then .error .scopedAllocationOverflow
  else
    .ok (SCOPED_BASE + t.scopedSites * SCOPED_STRIDE, { t with scopedSites := t.scopedSites + 1 })

/-- Where an operation stands: its word, the height of the stack, the locals of the dispatch
cursor and of the scratch value, and its block. -/
structure OpContext where
  w : Word
  op : Op
  h : Nat
  cur : Nat
  inLen : Nat
  slots : Nat
  mmioScratch : Nat
  k : Nat
  blocks : Nat

/-- The local of a slot that the operations name: a parameter, or one behind the scratch. -/
def declaredLocal (slot inLen slots : Nat) : Nat :=
  if slot < inLen then slot else inLen + slots + 2 + (slot - inLen)

def spanArgs (span : Span) : List Instr :=
  [.i32Const span.start, .i32Const (span.stop - span.start)]

def emitMemoryGuard (scratch : Nat) (span : Span) : List Instr :=
  [.localGet scratch, .i64Const 32, .num .i64ShrU, .num .i64Eqz,
    .localGet scratch, .num .i32WrapI64, .i32Const 4096, .num .i32GeU, .num .i32And,
    .localGet scratch, .num .i32WrapI64, .memorySize, .i32Const 16, .num .i32Shl, .i32Const 8,
    .num .i32Sub, .num .i32LeU, .num .i32And,
    .if, .else, .i64Const 22] ++ spanArgs span ++
    [.call (.imported IMPORT_TRAP), .unreachable, .end]

def emitLoad (h scratch : Nat) (span : Span) : List Instr :=
  [.localGet (h - 1), .localSet scratch] ++ emitMemoryGuard scratch span ++
    [.localGet scratch, .num .i32WrapI64, .access .load span, .localSet (h - 1)]

def emitStore (h scratch : Nat) (span : Span) : List Instr :=
  [.localGet (h - 2), .localSet scratch] ++ emitMemoryGuard scratch span ++
    [.localGet scratch, .num .i32WrapI64, .localGet (h - 1), .access .store span]

def emitBarrier (kind : BarrierKind) (after : Bool) : List Instr :=
  let value : Option Nat :=
    match kind with
    | .none => none
    | .before => some 1
    | .after => some 2
    | .both => some 3
  match value with
  | none => []
  | some value =>
    [.i32Const value, .i32Const (if after then 1 else 0), .call (.barrier value after)]

/-! ### Registers -/

/-- A register pointer is the aperture in the upper half and the offset in the lower. -/
def emitMmioAddrParts (ptr : Nat) : List Instr :=
  [.localGet ptr, .i64Const 32, .num .i64ShrU, .num .i32WrapI64, .localGet ptr, .num .i32WrapI64]

def emitPeriphRead (ptr width : Nat) : List Instr :=
  emitMmioAddrParts ptr ++ [.i32Const width, .call .peripheralRead]

def emitPeriphWritePrefix (ptr width : Nat) : List Instr :=
  emitMmioAddrParts ptr ++ [.i32Const width]

def constOf (v : UInt64) : Instr := .i64Const v.toInt64.toInt

def emitWidthMask (width : Nat) : List Instr :=
  if width < 8 then [.i64Const (2 ^ (width * 8) - 1), .num .i64And] else []

def emitWriteKind : WriteKind → List Instr
  | .w1c => [.i64Const (-1), .num .i64Xor, .num .i64And]
  | .w1s => [.num .i64Or]
  | .xor => [.num .i64Xor]
  | .plain => []

def emitShift (op : NumOp) (shift : Nat) : List Instr :=
  if shift ≠ 0 then [.i64Const shift, .num op] else []

def emitMmioVolLoad (h width : Nat) : List Instr :=
  emitPeriphRead (h - 1) width ++ emitWidthMask width ++ [.localSet (h - 1)]

def emitMmioVolStore (h scratch width : Nat) (writeKind : WriteKind) : List Instr :=
  (if writeKind ≠ .plain then emitPeriphRead (h - 2) width ++ [.localSet scratch] else []) ++
    emitPeriphWritePrefix (h - 2) width ++
    (if writeKind = .plain then [.localGet (h - 1)]
      else [.localGet scratch, .localGet (h - 1)] ++ emitWriteKind writeKind) ++
    emitWidthMask width ++ [.call .peripheralWrite]

def emitMmioVolLoadField (h width fieldWidth : Nat) (mask : UInt64) (shift : Nat) : List Instr :=
  emitPeriphRead (h - 1) width ++ [constOf mask, .num .i64And] ++ emitShift .i64ShrU shift ++
    emitWidthMask fieldWidth ++ [.localSet (h - 1)]

def emitMmioVolStoreField (h scratch width : Nat) (mask : UInt64) (shift : Nat)
    (writeKind : WriteKind) : List Instr :=
  emitPeriphRead (h - 2) width ++ [.localSet scratch] ++ emitPeriphWritePrefix (h - 2) width ++
    (if writeKind ≠ .plain then [.localGet scratch] else []) ++
    [.localGet scratch, constOf (~~~mask), .num .i64And, .localGet (h - 1)] ++
    emitShift .i64Shl shift ++ [constOf mask, .num .i64And, .num .i64Or] ++
    emitWriteKind writeKind ++ emitWidthMask width ++ [.call .peripheralWrite]

def mmioWidth (w : Word) (ty : TypeId) : Except CodegenError Nat :=
  match storageBitsSigned w ty 64 with
  | none => .error (.unknownTypeProperties ty)
  | some (8, _) => .ok 1
  | some (16, _) => .ok 2
  | some (32, _) => .ok 4
  | some (64, _) => .ok 8
  | some _ => .error .unsupportedConstruct

/-! ### Casts -/

def maskForBits (bits : Nat) : UInt64 :=
  if 64 ≤ bits then 0xffffffffffffffff else UInt64.ofNat (2 ^ bits - 1)

/-- `top = top & mask` -/
def maskTop (top : Nat) (mask : UInt64) : List Instr :=
  [.localGet top, constOf mask, .num .i64And, .localSet top]

/-- `v = (v << sh) >> sh`, with the sign. -/
def signExtend (top sh : Nat) : List Instr :=
  [.localGet top, .i64Const sh, .num .i64Shl, .i64Const sh, .num .i64ShrS, .localSet top]

def canonicalize (top bits : Nat) (signed : Bool) : List Instr :=
  if bits < 64 then
    maskTop top (maskForBits bits) ++ if signed then signExtend top (64 - bits) else []
  else []

/-- A cast between unlike primitives brings the slot to the source's width and then to the
target's. -/
def emitCast (w : Word) (src tgt : TypeId) (h : Nat) : List Instr :=
  match storageBitsSigned w src 64, storageBitsSigned w tgt 64 with
  | some (fromBits, fromSigned), some (toBits, toSigned) =>
    if fromBits = toBits ∧ fromSigned = toSigned then []
    else canonicalize (h - 1) fromBits fromSigned ++ canonicalize (h - 1) toBits toSigned
  | _, _ => []

/-! ### The dispatch -/

def boolify : List Instr := [.num .i64Eqz, .num .i32Eqz, .num .i64ExtendI32U]

def binary (h : Nat) (ops : List Instr) : List Instr :=
  [.localGet (h - 2), .localGet (h - 1)] ++ ops ++ [.localSet (h - 2)]

def cmpOp : CmpKind → NumOp
  | .eq => .i64Eq
  | .ne => .i64Ne
  | .lt => .i64LtS
  | .gt => .i64GtS
  | .le => .i64LeS
  | .ge => .i64GeS

def blockIndex (w : Word) (id : BlockId) : Option Nat :=
  w.blocks.items.findIdx? fun b => b.id = id

/-- The callee of a name, the arguments added to it, and the helper it uses. -/
def calleeOf (name : String) (span : Span) : Callee × List Instr × List Helper :=
  let helper (h : Helper) (args : List Instr) := (Callee.helper h, args, [h])
  if name = "testio.write-byte" ∨ name = "testio.emit-output" then
    (.imported IMPORT_WRITE_BYTE, [], [])
  else if name = "testio.write-str" ∨ name = "platform.io.log" then helper .emitStr []
  else if name = "testio.exit" then (.exit, [], [])
  else if name = "platform.mem.region-create" then helper .create (spanArgs span)
  else if name = "platform.mem.region-alloc" then helper .alloc (spanArgs span)
  else if name = "platform.mem.region-reset" then helper .reset (spanArgs span)
  else if name = "platform.mem.region-destroy" then helper .destroy (spanArgs span)
  else (.word name, [], [])

def emitCall (h : Nat) (name : String) (sig : Sig) (span : Span) : List Instr :=
  let args := (List.range sig.inLen).map fun i => Instr.localGet (h - sig.inLen + i)
  let results := (List.range sig.outLen).map fun i => Instr.localSet (h - sig.inLen + i)
  let (callee, more, _) := calleeOf name span
  args ++ more ++ [.call callee] ++ results

def emitOpBody (src : Source) (c : OpContext) (t : Tables) :
    Except CodegenError (List Instr × Nat × Tables) :=
  let h := c.h
  let span := c.op.span
  match c.op.kind with
  | .constI64 v => .ok ([.i64Const v, .localSet h], h + 1, t)
  | .constBool v => .ok ([.i64Const (if v then 1 else 0), .localSet h], h + 1, t)
  | .constStr span => do
    let (addr, t) ← internString src t span
    .ok ([.i64Const addr, .localSet h], h + 1, t)
  | .drop _ => .ok ([.localGet (h - 1), .drop], h - 1, t)
  | .dup _ => .ok ([.localGet (h - 1), .localSet h], h + 1, t)
  | .swap _ _ =>
    .ok ([.localGet (h - 1), .localSet h, .localGet (h - 2), .localSet (h - 1), .localGet h,
      .localSet (h - 2)], h, t)
  | .addI64 => .ok (binary h [.num .i64Add], h - 1, t)
  | .subI64 => .ok (binary h [.num .i64Sub], h - 1, t)
  | .mulI64 => .ok (binary h [.num .i64Mul], h - 1, t)
  | .cmp _ kind => .ok (binary h [.num (cmpOp kind), .num .i64ExtendI32U], h - 1, t)
  | .andBool => .ok (binary h (.num .i64And :: boolify), h - 1, t)
  | .orBool => .ok (binary h (.num .i64Or :: boolify), h - 1, t)
  | .notBool =>
    .ok ([.localGet (h - 1), .num .i64Eqz, .num .i64ExtendI32U, .localSet (h - 1)], h, t)
  | .localSet slot _ =>
    .ok ([.localGet (h - 1), .localSet (declaredLocal slot c.inLen c.slots)], h - 1, t)
  | .localGet slot _ =>
    .ok ([.localGet (declaredLocal slot c.inLen c.slots), .localSet h], h + 1, t)
  | .call name sig _ _ _ =>
    .ok (emitCall h name.text sig span, h - sig.inLen + sig.outLen,
      { t with usedHelpers := t.usedHelpers ++ (calleeOf name.text span).2.2 })
  | .load _ => .ok (emitLoad h c.mmioScratch span, h, t)
  | .store _ => .ok (emitStore h c.mmioScratch span, h - 2, t)
  | .mmioVolLoad ty _ _ _ _ => do
    let width ← mmioWidth c.w ty
    .ok (emitMmioVolLoad h width, h, t)
  | .mmioVolStore ty _ writeKind _ _ _ => do
    let width ← mmioWidth c.w ty
    .ok (emitMmioVolStore h c.mmioScratch width writeKind, h - 2, t)
  | .mmioVolLoadField regTy fieldTy _ mask shift _ _ _ => do
    let width ← mmioWidth c.w regTy
    let fieldWidth ← mmioWidth c.w fieldTy
    .ok (emitMmioVolLoadField h width fieldWidth (UInt64.ofNat mask) shift, h, t)
  | .mmioVolStoreField regTy _ _ mask shift writeKind _ _ _ => do
    let width ← mmioWidth c.w regTy
    .ok (emitMmioVolStoreField h c.mmioScratch width (UInt64.ofNat mask) shift writeKind, h - 2, t)
  | .trapIfFalse code =>
    .ok ([.localGet (h - 1), .num .i64Eqz, .if, .i64Const (trapCodeU32 code)] ++ spanArgs span ++
      [.call (.imported IMPORT_TRAP), .unreachable, .end], h - 1, t)
  | .cast src tgt => .ok (emitCast c.w src tgt h, h, t)
  | .bitcast _ _ => .ok ([], h, t)
  | .br target =>
    match blockIndex c.w target with
    | none => .error (.malformedIr 2)
    | some i => .ok ([.i32Const i, .localSet c.cur, .br (c.blocks - c.k)], h, t)
  | .brIf thenTgt elseTgt =>
    match blockIndex c.w thenTgt, blockIndex c.w elseTgt with
    | some i, some j =>
      .ok ([.localGet (h - 1), .num .i32WrapI64, .localSet c.cur, .i32Const i, .i32Const j,
        .localGet c.cur, .select, .localSet c.cur, .br (c.blocks - c.k)], h - 1, t)
    | _, _ => .error (.malformedIr 2)
  | .ret =>
    let outLen := c.w.sig.outLen
    .ok ((List.range outLen).map (fun i => Instr.localGet (h - outLen + i)) ++ [.ret],
      h - outLen, t)
  | .scopedEnter ty len =>
    match (c.w.typeClasses.get? ty.idx).getD .other with
    | .slice => do
      let (desc, t) ← nextScopedDesc t
      .ok ([.localGet (h - 1), .i32Const desc, .storeDesc, .i64Const len, .i32Const (desc + 8),
        .storeDesc, .i64Const desc, .localSet (h - 1)], h, t)
    | .regionRef | .regionRefMut => .ok ([.localGet (h - 1), .localSet h], h + 1, t)
    | _ => .error (.unsupportedOp "ScopedEnter")
  | .addrOf place _ .runtime => do
    let (addr, t) ← internResource src t place
    .ok ([.i64Const addr, .localSet h], h + 1, t)
  | .addrOf _ _ (.mmio aperture offset) | .mmioPlace _ aperture offset =>
    .ok ([.i64Const (aperture * 2 ^ 32 + offset), .localSet h], h + 1, t)
  | .ptrAddConst _ offset =>
    .ok ([.localGet (h - 1), .i64Const offset, .num .i64Add, .localSet (h - 1)], h, t)
  | .ptrAddIndex _ scale =>
    .ok ([.localGet (h - 2), .localGet (h - 1), .i64Const scale, .num .i64Mul, .num .i64Add,
      .localSet (h - 2)], h - 1, t)
  | .taskSpawn _ _ | .interruptEnable | .interruptDisable => .error .unsupportedConstruct

def barrierOf : OpKind → Option BarrierKind
  | .mmioVolLoad _ _ _ _ barrier | .mmioVolStore _ _ _ _ _ barrier
  | .mmioVolLoadField _ _ _ _ _ _ _ barrier | .mmioVolStoreField _ _ _ _ _ _ _ _ barrier =>
    some barrier
  | _ => none

def emitOp (src : Source) (c : OpContext) (t : Tables) :
    Except CodegenError (List Instr × Nat × Tables) := do
  let barrier (after : Bool) : List Instr :=
    match barrierOf c.op.kind with
    | some kind => emitBarrier kind after
    | none => []
  let (code, h, t) ← emitOpBody src c t
  .ok (barrier false ++ code ++ barrier true, h, t)

end Tyu.Wasm

/-!
## Runs of straight-line code

The instructions of an operation without branches, over an operand stack, the 64-bit locals
and the devices of the host.  A register access that the host refuses ends the run.
-/

namespace Tyu.Wasm

open Repl (Peripheral)

inductive Operand where
  | i32 (v : UInt32)
  | i64 (v : UInt64)

structure Machine (σ : Type) where
  stack : List Operand
  locals : Nat → UInt64
  device : σ

/-- Why a run ends early: the host refuses, or the instruction is none of these or lacks
operands. -/
inductive Halt where
  | trap | stuck

def ofBool (b : Bool) : Operand := .i32 (if b then 1 else 0)

/-- The effect of an instruction on the operands; the topmost one is the second argument. -/
def NumOp.eval : NumOp → List Operand → Option (List Operand)
  | .i64Add, .i64 b :: .i64 a :: s => some (.i64 (a + b) :: s)
  | .i64Sub, .i64 b :: .i64 a :: s => some (.i64 (a - b) :: s)
  | .i64Mul, .i64 b :: .i64 a :: s => some (.i64 (a * b) :: s)
  | .i64And, .i64 b :: .i64 a :: s => some (.i64 (a &&& b) :: s)
  | .i64Or, .i64 b :: .i64 a :: s => some (.i64 (a ||| b) :: s)
  | .i64Xor, .i64 b :: .i64 a :: s => some (.i64 (a ^^^ b) :: s)
  | .i64Shl, .i64 b :: .i64 a :: s => some (.i64 (a <<< b) :: s)
  | .i64ShrU, .i64 b :: .i64 a :: s => some (.i64 (a >>> b) :: s)
  | .i64ShrS, .i64 b :: .i64 a :: s => some (.i64 (a.toInt64 >>> b.toInt64).toUInt64 :: s)
  | .i64Eqz, .i64 a :: s => some (ofBool (a = 0) :: s)
  | .i64Eq, .i64 b :: .i64 a :: s => some (ofBool (a = b) :: s)
  | .i64Ne, .i64 b :: .i64 a :: s => some (ofBool (a ≠ b) :: s)
  | .i64LtS, .i64 b :: .i64 a :: s => some (ofBool (a.toInt64 < b.toInt64) :: s)
  | .i64GtS, .i64 b :: .i64 a :: s => some (ofBool (b.toInt64 < a.toInt64) :: s)
  | .i64LeS, .i64 b :: .i64 a :: s => some (ofBool (a.toInt64 ≤ b.toInt64) :: s)
  | .i64GeS, .i64 b :: .i64 a :: s => some (ofBool (b.toInt64 ≤ a.toInt64) :: s)
  | .i32And, .i32 b :: .i32 a :: s => some (.i32 (a &&& b) :: s)
  | .i32Sub, .i32 b :: .i32 a :: s => some (.i32 (a - b) :: s)
  | .i32Shl, .i32 b :: .i32 a :: s => some (.i32 (a <<< b) :: s)
  | .i32Eqz, .i32 a :: s => some (ofBool (a = 0) :: s)
  | .i32GeU, .i32 b :: .i32 a :: s => some (ofBool (b ≤ a) :: s)
  | .i32LeU, .i32 b :: .i32 a :: s => some (ofBool (a ≤ b) :: s)
  | .i32WrapI64, .i64 a :: s => some (.i32 a.toUInt32 :: s)
  | .i64ExtendI32U, .i32 a :: s => some (.i64 a.toUInt64 :: s)
  | _, _ => none

variable {σ : Type}

def step (p : Peripheral σ) (i : Instr) (m : Machine σ) : Except Halt Unit × Machine σ :=
  match i, m.stack with
  | .num op, s =>
    match op.eval s with
    | some s => (.ok (), { m with stack := s })
    | none => (.error .stuck, m)
  | .i32Const v, s => (.ok (), { m with stack := .i32 (Int32.ofInt v).toUInt32 :: s })
  | .i64Const v, s => (.ok (), { m with stack := .i64 (Int64.ofInt v).toUInt64 :: s })
  | .localGet i, s => (.ok (), { m with stack := .i64 (m.locals i) :: s })
  | .localSet i, .i64 v :: s =>
    (.ok (), { m with stack := s, locals := Function.update m.locals i v })
  | .drop, _ :: s => (.ok (), { m with stack := s })
  | .call .peripheralRead, .i32 width :: .i32 off :: .i32 ap :: s =>
    match p.read m.device ap.toNat off.toNat width.toNat with
    | (some v, d) => (.ok (), { m with stack := .i64 v :: s, device := d })
    | (none, d) => (.error .trap, { m with device := d })
  | .call .peripheralWrite, .i64 v :: .i32 width :: .i32 off :: .i32 ap :: s =>
    match p.write m.device ap.toNat off.toNat width.toNat v with
    | (true, d) => (.ok (), { m with stack := s, device := d })
    | (false, d) => (.error .trap, { m with device := d })
  -- a barrier orders accesses and makes none
  | .call (.barrier _ _), .i32 _ :: .i32 _ :: s => (.ok (), { m with stack := s })
  | _, _ => (.error .stuck, m)

def exec (p : Peripheral σ) : List Instr → Machine σ → Except Halt Unit × Machine σ
  | [], m => (.ok (), m)
  | i :: is, m =>
    match step p i m with
    | (.ok _, m) => exec p is m
    | (.error e, m) => (.error e, m)

theorem exec_append_of_ok {p : Peripheral σ} {is js : List Instr} {m m' : Machine σ}
    (h : exec p is m = (.ok (), m')) : exec p (is ++ js) m = exec p js m' := by
  induction is generalizing m with
  | nil =>
    have hm : m = m' := congrArg Prod.snd h
    rw [List.nil_append, hm]
  | cons i is ih =>
    rw [List.cons_append, exec]
    rw [exec] at h
    rcases hstep : step p i m with ⟨_ | _, next⟩
    · rw [hstep] at h
      cases h
    · rw [hstep] at h
      exact ih h

theorem exec_append_of_error {p : Peripheral σ} {is js : List Instr} {m m' : Machine σ} {e : Halt}
    (h : exec p is m = (.error e, m')) : exec p (is ++ js) m = (.error e, m') := by
  induction is generalizing m with
  | nil => cases h
  | cons i is ih =>
    rw [List.cons_append, exec]
    rw [exec] at h
    rcases hstep : step p i m with ⟨_ | _, next⟩
    · rw [hstep] at h
      exact h
    · rw [hstep] at h
      exact ih h

theorem exec_constOf {p : Peripheral σ} (v : UInt64) (is : List Instr) (m : Machine σ) :
    exec p (constOf v :: is) m = exec p is { m with stack := .i64 v :: m.stack } := by
  show exec p is { m with stack := .i64 (Int64.ofInt v.toInt64.toInt).toUInt64 :: m.stack } = _
  rw [Int64.ofInt_toInt]
  rfl

end Tyu.Wasm

import Tyu.Repl.Heap
import Tyu.Repl.Compiled

/-! # The state of a run -/

namespace Tyu.Repl

open Lib Lib.Wire

structure Cursor where
  word : Nat
  block : Nat
  op : Nat

structure Frame where
  word : Nat
  locals : List Slot
  ret : Option Cursor

structure ExecCore where
  stack : List Slot
  frames : List Frame
  heap : RegionHeap
  out : Bytes
  journal : List Effect
  elideGuards : Bool
  strings : List (Nat × Nat)
  resources : List (Atom × Nat)

/-- Which word declared what, and what the stack held, where a signature did not match. -/
structure TrapDetail where
  word : String
  declared : String
  actual : List StackCell

def DETAIL_ACTUAL_CAP : Nat := 8
def CALL_DEPTH_CAP : Nat := 256
def STACK_CAP : Nat := 4096

def E9152_PERIPH_UNBOUND : Nat := 9152
def E9156_TASKS : Nat := 9156
def E9158_INTERNAL : Nat := 9158

structure Fault where
  code : Nat
  span : Span
  message : String

namespace Fault

def internal (span : Span) (message : String) : Fault := ⟨E9158_INTERNAL, span, message⟩

def tasks (span : Span) : Fault :=
  ⟨E9156_TASKS, span, "task/interrupt op reached the engine (must be rejected at submit)"⟩

end Fault

inductive Stop where
  | done
  | trap (code : TrapCode) (span : Span)
  | contract (span : Span) (detail : TrapDetail)
  | exit (code : Int64)
  | device (code : Nat) (span : Span) (aperture : Option Nat)
  | fault (f : Fault)
  | panic

abbrev Exec (σ : Type) (α : Type) := Stoppable Stop (ExecCore × σ) α

namespace Exec

variable {σ α : Type}

def stop (r : Stop) : Exec σ α := Stoppable.stop r

def trap (code : TrapCode) (span : Span) : Exec σ α := stop (.trap code span)

def internal (span : Span) (message : String) : Exec σ α := stop (.fault (.internal span message))

def view (f : ExecCore → α) : Exec σ α := fun s => (.ok (f s.1), s)

def update (f : ExecCore → ExecCore) : Exec σ PUnit := fun s => (.ok ⟨⟩, (f s.1, s.2))

def orStop (r : Stop) : Option α → Exec σ α
  | some a => pure a
  | none => stop r

def ofExcept {ε : Type} (f : ε → Stop) : Except ε α → Exec σ α
  | .ok a => pure a
  | .error e => stop (f e)

def device (f : σ → α × σ) : Exec σ α := fun s => (.ok (f s.2).1, (s.1, (f s.2).2))

end Exec

open Exec

variable {σ α : Type}

def push (s : Slot) : Exec σ PUnit := update fun st => { st with stack := s :: st.stack }

def setStack (stack : List Slot) : Exec σ PUnit := update fun st => { st with stack := stack }

def setFrames (frames : List Frame) : Exec σ PUnit := update fun st => { st with frames := frames }

def record (e : Effect) : Exec σ PUnit := update fun st => { st with journal := e :: st.journal }

def emit (b : UInt8) : Exec σ PUnit := update fun st => { st with out := st.out ++ [b] }

def changeHeap (f : RegionHeap → Except Stop (α × Effect) × RegionHeap) : Exec σ α := fun s =>
  match f s.1.heap with
  | (.ok (a, e), h) => (.ok a, ({ s.1 with heap := h, journal := e :: s.1.journal }, s.2))
  | (.error r, h) => (.error r, ({ s.1 with heap := h }, s.2))

inductive PopFault where
  | underflow
  | kind (s : Slot)

def popAny : Exec σ (Except PopFault Slot) := do
  match ← view ExecCore.stack with
  | [] => pure (.error .underflow)
  | s :: rest =>
    setStack rest
    pure (.ok s)

def popAs (as : Value → Option α) : Exec σ (Except PopFault α) := do
  match ← popAny with
  | .error f => pure (.error f)
  | .ok s =>
    match as s.val with
    | some a => pure (.ok a)
    | none => pure (.error (.kind s))

def popFault (word : Word) (span : Span) (want : ValKind) : PopFault → Stop
  | .underflow => .trap .stackOverflow span
  | .kind s => .contract span ⟨word.name.text, want.name, [cellOf word s]⟩

def popTwo (word : Word) (span : Span) (want : ValKind) (as : Value → Option α) :
    Exec σ (α × α) := do
  let b ← popAs as
  let a ← popAs as
  let b ← ofExcept (popFault word span want) b
  let a ← ofExcept (popFault word span want) a
  pure (a, b)

def popInt (word : Word) (span : Span) : Exec σ Int64 := do
  ofExcept (popFault word span .int) (← popAs Value.int?)

def popBool (word : Word) (span : Span) : Exec σ Bool := do
  ofExcept (popFault word span .bool) (← popAs Value.bool?)

def popPtr (word : Word) (span : Span) : Exec σ UInt64 := do
  ofExcept (popFault word span .ptr) (← popAs Value.ptr?)

/-- The top `cap` cells, bottom first. -/
def topCells (stack : List Slot) (word : Word) (cap : Nat) : List StackCell :=
  ((stack.take cap).reverse).map (cellOf word)

def ofAccess (span : Span) : Access α → Exec σ α
  | .ok a => pure a
  | .fault f => trap f.trap span
  | .panic => stop .panic

def heapOp {β : Type} (span : Span) (f : RegionHeap → Except HeapFault (β × RegionHeap))
    (effect : β → Effect) (result : β → α) : Exec σ α :=
  changeHeap fun h =>
    match f h with
    | .ok (b, h') => (.ok (result b, effect b), h')
    | .error fault => (.error (.trap fault.trap span), h)

/-! ## Constants and places -/

namespace ExecCore

def internString (c : Compiled) (span : Span) (st : ExecCore) : ExecCore :=
  if st.strings.any fun e => e.1 = span.start then st
  else
    match st.heap.intern (constStrBytes c span) with
    | .ok ((addr, _), h) =>
      { st with heap := h, strings := st.strings ++ [(span.start, addr)] }
    | .error _ => st

def constStrSpans (m : Module) : List Span :=
  m.words.flatMap fun w => w.blocks.items.flatMap fun b => b.ops.items.filterMap fun op =>
    match op.kind with
    | .constStr span => some span
    | _ => none

def internCompiled (c : Compiled) (st : ExecCore) : ExecCore :=
  (constStrSpans c.module).foldl (fun st span => st.internString c span) st

def internedString (st : ExecCore) (span : Span) : Option Nat :=
  (st.strings.find? fun e => e.1 = span.start).map Prod.snd

end ExecCore

def resourceAddr (place : Atom) (span : Span) : Exec σ Nat := do
  match (← view ExecCore.resources).find? fun e => e.1 = place with
  | some e => pure e.2
  | none =>
    let addr ← heapOp span (fun h => h.intern []) (fun r => .intern r.1 r.2) Prod.fst
    update fun st => { st with resources := st.resources ++ [(place, addr)] }
    pure addr

end Tyu.Repl

/-!
## Built-in words

The words that the native runtime provides as assembly.  The kinds of the arguments are
checked before a word runs, so the words themselves read raw slots.
-/

namespace Tyu.Repl

open Lib Lib.Wire Exec

variable {σ : Type}

def recordOutput (len : Nat) : Exec σ PUnit := do
  if len = 0 then pure ⟨⟩
  else
    let journal ← view ExecCore.journal
    let start := (journal.map fun e => match e with
      | .output _ len => len
      | _ => 0).sum
    record (.output start len)

def popRaw (span : Span) : Exec σ Value := do
  match ← popAny with
  | .ok s => pure s.val
  | .error _ => trap .stackOverflow span

def orAssert {α : Type} (span : Span) : Access α → Exec σ α
  | .ok a => pure a
  | .fault _ => trap .assertFail span
  | .panic => stop .panic

/-- Write `n` bytes of the string at `ptr`, from byte `i` on. -/
def writeStr (span : Span) (ptr : UInt64) : Nat → Nat → Exec σ PUnit
  | 0, _ => pure ⟨⟩
  | n + 1, i => do
    let heap ← view ExecCore.heap
    let b ← orAssert span (heap.load (ptr + UInt64.ofNat (8 + i)) 1)
    emit (UInt8.ofNat b)
    writeStr span ptr n (i + 1)

namespace Builtin

/-- The kinds of the topmost arguments, bottom first, against the declared ones. -/
def checkArgs (b : Builtin) (stack : List Slot) : Except (Option ValKind) Unit :=
  let kinds := b.argKinds
  if stack.length < kinds.length then .error none
  else
    let args := (stack.take kinds.length).reverse
    match (args.zip kinds).find? fun p => p.1.val.kind ≠ p.2 with
    | some p => .error (some p.2)
    | none => .ok ()

def execute (span : Span) : Builtin → Exec σ PUnit
  | testioWriteByte => do
    let v ← popRaw span
    emit v.asU64.toUInt8
    recordOutput 1
  | testioWriteStr | ioLog => do
    let v ← popRaw span
    let heap ← view ExecCore.heap
    let len ← orAssert span (heap.load v.asU64 8)
    writeStr span v.asU64 len 0
    recordOutput (len % 2 ^ 32)
  | testioExit => do
    let v ← popRaw span
    stop (.exit v.asI64)
  | regionCreate => do
    let size ← popRaw span
    let handle ← changeHeap fun h =>
      match h.regionCreate size.asU64 with
      | (.ok (handle, oldCursor), h') => (.ok (handle, .regionCreate handle oldCursor), h')
      | (.error f, h') => (.error (.trap f.trap span), h')
    push (.int TY_I64 (Int64.ofNat handle))
  | regionAlloc => do
    let size ← popRaw span
    let handle ← popRaw span
    let ptr ← heapOp span (fun h => h.regionAlloc handle.asU64 size.asU64)
      (fun r => .regionAlloc handle.asU64.toNat r.2) Prod.fst
    push (.ptr TY_PTR_MUT (UInt64.ofNat ptr))
  | regionReset => do
    let handle ← popRaw span
    heapOp span (fun h => h.regionReset handle.asU64)
      (fun oldOff => .regionReset handle.asU64.toNat oldOff) fun _ => ⟨⟩
  | regionDestroy => do
    let handle ← popRaw span
    heapOp span (fun h => h.regionDestroy handle.asU64)
      (fun saved => .regionDestroy handle.asU64.toNat saved) fun _ => ⟨⟩

end Builtin

end Tyu.Repl

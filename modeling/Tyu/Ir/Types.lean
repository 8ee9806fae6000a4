import Mathlib

/-! # The intermediate representation -/

namespace Tyu

/-!
## Effects, capabilities and stack bounds

The pure data of the effect-context model: the two 16-bit sets a word declares
and the pair of stack numbers that composes along a body.  `net` is an `i16` with
wrapping addition; `high` is a `u32` count or the top element.
-/

structure EffectSet where
  bits : BitVec 16
deriving DecidableEq

namespace EffectSet

def SUSPEND : BitVec 16 := 1#16
def INTERRUPT : BitVec 16 := 2#16
def DIVERGE : BitVec 16 := 4#16
def MMIO : BitVec 16 := 8#16
def ALLOC : BitVec 16 := 16#16

def empty : EffectSet := ⟨0#16⟩

def fromBits (bits : BitVec 16) : EffectSet := ⟨bits⟩

/-- Some bit of `bit` is set. -/
def contains (e : EffectSet) (bit : BitVec 16) : Bool := e.bits &&& bit != 0#16

def union (e other : EffectSet) : EffectSet := ⟨e.bits ||| other.bits⟩

def intersect (e other : EffectSet) : EffectSet := ⟨e.bits &&& other.bits⟩

def without (e : EffectSet) (bit : BitVec 16) : EffectSet := ⟨e.bits &&& ~~~bit⟩

end EffectSet

structure CapSet where
  bits : BitVec 16
deriving DecidableEq

namespace CapSet

def WRITE : BitVec 16 := 1#16
def SUSPENDABLE : BitVec 16 := 2#16
def COPYABLE : BitVec 16 := 4#16
def BORROW_LIVE : BitVec 16 := 8#16
def BOUNDED_STACK : BitVec 16 := 16#16

def empty : CapSet := ⟨0#16⟩

def fromBits (bits : BitVec 16) : CapSet := ⟨bits⟩

/-- Is every bit of `c` also set in `grants`? -/
def subsetOf (c grants : CapSet) : Bool := c.bits &&& ~~~grants.bits == 0#16

def contains (c : CapSet) (bit : BitVec 16) : Bool := c.bits &&& bit != 0#16

def union (c other : CapSet) : CapSet := ⟨c.bits ||| other.bits⟩

end CapSet

/-- The data-stack high-water mark relative to entry: a finite bound, or none. -/
inductive High where
  | slots (n : Nat)
  | top
deriving DecidableEq

namespace High

def isTop : High → Bool
  | .top => true
  | .slots _ => false

/-- Does the mark exceed `ceiling`?  The top element exceeds every finite ceiling
and nothing exceeds a top ceiling. -/
def exceeds : High → High → Bool
  | .top, .top => false
  | .top, .slots _ => true
  | .slots _, .top => false
  | .slots a, .slots b => b < a

def max : High → High → High
  | .slots a, .slots b => .slots (Nat.max a b)
  | _, _ => .top

end High

/-- Add a `u32` offset to a finite mark; an overflow leaves no finite bound. -/
def checkedAddU32 (a b : Nat) : Option Nat :=
  if a + b < 2 ^ 32 then some (a + b) else none

/-- `(-net) as u32`: the negation of an `i16` wraps, and the cast extends the sign. -/
def negU32 (net : Int) : Nat := ((-net).bmod (2 ^ 16) % 2 ^ 32).toNat

/-- Shift a mark by a signed offset: saturating at 0 below and at the top above. -/
def shiftHigh (net : Int) : High → High
  | .top => .top
  | .slots h =>
    if net < 0 then
      if h ≤ negU32 net then .slots 0 else .slots (h - negU32 net)
    else
      match checkedAddU32 h net.natAbs with
      | some v => .slots v
      | none => .top

/-- The composable pair of stack numbers of a piece of code: the change in depth
it leaves and the greatest depth it reaches, both relative to its entry. -/
structure StackBound where
  net : Int
  high : High
deriving DecidableEq

namespace StackBound

def ID : StackBound := ⟨0, .slots 0⟩

/-- Sequence composition.  `net` is an `i16`, added with wrapping. -/
def compose (b next : StackBound) : StackBound :=
  ⟨(b.net + next.net).bmod (2 ^ 16), High.max b.high (shiftHigh b.net next.high)⟩

/-- Branch merge; the caller has made sure that both arms have the same `net`. -/
def branchMax (b other : StackBound) : StackBound :=
  ⟨b.net, High.max b.high other.high⟩

def wireU32 (b : StackBound) : Nat :=
  match b.high with
  | .slots n => n
  | .top => 0xFFFFFFFF

end StackBound

/-!
## The intermediate representation

A word is a signature, a set of type tables and at most sixteen basic blocks.
Every fixed-capacity vector of the representation carries its bound, so a block
with a ninety-seventh operation or a signature with a ninth input cannot be built.
-/

/-- A vector with room for `cap` entries. -/
@[ext]
structure FixedVec (α : Type) (cap : Nat) where
  items : List α
  bounded : items.length ≤ cap := by decide
deriving DecidableEq

namespace FixedVec

variable {α : Type} {cap : Nat}

def new : FixedVec α cap := ⟨[], Nat.zero_le _⟩

def len (v : FixedVec α cap) : Nat := v.items.length

def get? (v : FixedVec α cap) (i : Nat) : Option α := v.items[i]?

def push (v : FixedVec α cap) (x : α) : Option (FixedVec α cap) :=
  if h : v.items.length < cap then some ⟨v.items ++ [x], by
    rw [List.length_append]; exact h⟩ else none

theorem push_eq_some {v v' : FixedVec α cap} {x : α} :
    v.push x = some v' ↔ v'.items = v.items ++ [x] := by
  unfold push
  constructor
  · intro h
    split at h
    · cases h; rfl
    · cases h
  · intro h
    have hlt : v.items.length < cap := by
      have hb := v'.bounded
      rw [h, List.length_append] at hb
      exact hb
    rw [dif_pos hlt]
    exact congrArg some (FixedVec.ext h.symm)

end FixedVec

structure Span where
  start : Nat
  stop : Nat
deriving DecidableEq

def Span.UNKNOWN : Span := ⟨0, 0⟩

structure Atom where
  text : String
  bounded : text.utf8ByteSize ≤ 32 := by decide
deriving DecidableEq

/-- The name `text`, when it fits. -/
def Atom.new (text : String) : Option Atom :=
  if h : text.utf8ByteSize ≤ 32 then some ⟨text, h⟩ else none

def AT_EMPTY : Atom := ⟨"", by decide⟩
def AT_I64 : Atom := ⟨"i64", by decide⟩
def AT_BOOL : Atom := ⟨"bool", by decide⟩
def AT_STR : Atom := ⟨"str", by decide⟩
def AT_PTR : Atom := ⟨"ptr", by decide⟩
def AT_PTR_MUT : Atom := ⟨"ptr_mut", by decide⟩
def AT_MMIO : Atom := ⟨"mmio", by decide⟩
def AT_QUOT : Atom := ⟨"quot", by decide⟩
def AT_RESOURCE : Atom := ⟨"resource", by decide⟩

/-! Names and table lengths that the words of several modules share are within their bounds. -/

theorem i64_fits : "i64".utf8ByteSize ≤ 32 := by decide
theorem u8_fits : "u8".utf8ByteSize ≤ 32 := by decide
theorem u32_fits : "u32".utf8ByteSize ≤ 32 := by decide
theorem dev_fits : "dev".utf8ByteSize ≤ 32 := by decide
theorem main_fits : "main".utf8ByteSize ≤ 32 := by decide

theorem one_result : 1 ≤ 8 := by decide
theorem one_entry : 1 ≤ 16 := by decide
theorem one_op : 1 ≤ 96 := by decide
theorem one_value : 1 ≤ 64 := by decide
theorem two_types : 2 ≤ 64 := by decide
theorem three_types : 3 ≤ 64 := by decide

structure TypeId where
  idx : Nat
deriving DecidableEq

def TY_EMPTY : TypeId := ⟨0⟩
def TY_I64 : TypeId := ⟨1⟩
def TY_BOOL : TypeId := ⟨2⟩
def TY_STR : TypeId := ⟨3⟩
def TY_PTR : TypeId := ⟨4⟩
def TY_PTR_MUT : TypeId := ⟨5⟩
def TY_MMIO : TypeId := ⟨6⟩

/-- Does the text start with `head`? -/
def startsWith (text head : String) : Bool := head.toList.isPrefixOf text.toList

inductive TypeClass where
  | i64 | bool | str | ptr | ptrMut | mmio
  | slice
  | regionRef | regionRefMut
  | other
deriving DecidableEq

def TypeClass.classOf (name : String) : TypeClass :=
  match name with
  | "i64" => .i64
  | "bool" => .bool
  | "str" => .str
  | "ptr" => .ptr
  | "ptr_mut" => .ptrMut
  | "mmio" => .mmio
  | "RegionRef" => .regionRef
  | "RegionRefMut" => .regionRefMut
  | _ =>
    if startsWith name "Slice(" || startsWith name "SliceMut(" then .slice else .other

/-- The classes a `scopedEnter` may carry. -/
def isScopedEnterClass : TypeClass → Bool
  | .slice | .regionRef | .regionRefMut => true
  | _ => false

inductive Prim where
  | u8 | u16 | u32 | u64 | usize
  | i8 | i16 | i32 | i64 | isize
  | bool | ptr | ptrMut | str | mmio | chan | task
deriving DecidableEq

namespace Prim

def fromTypeName (name : String) : Option Prim :=
  match name with
  | "u8" => some .u8
  | "u16" => some .u16
  | "u32" => some .u32
  | "u64" => some .u64
  | "usize" => some .usize
  | "i8" => some .i8
  | "i16" => some .i16
  | "i32" => some .i32
  | "i64" => some .i64
  | "isize" => some .isize
  | "bool" => some .bool
  | "ptr" => some .ptr
  | "ptr_mut" => some .ptrMut
  | "str" => some .str
  | "mmio" => some .mmio
  | "Chan" => some .chan
  | "Task" => some .task
  | _ => if startsWith name "Chan(" then some .chan else none

/-- Width in bits; the pointer-like primitives have the target's pointer width. -/
def bits (ptrBits : Nat) : Prim → Nat
  | .u8 | .i8 | .bool => 8
  | .u16 | .i16 => 16
  | .u32 | .i32 => 32
  | .u64 | .i64 => 64
  | .usize | .isize | .ptr | .ptrMut | .str | .mmio | .chan | .task => ptrBits

def isSigned : Prim → Bool
  | .i8 | .i16 | .i32 | .i64 | .isize => true
  | _ => false

end Prim

/-- A stack signature: at most eight inputs and eight outputs, bottom first. -/
structure Sig where
  inputs : FixedVec TypeId 8
  outputs : FixedVec TypeId 8
deriving DecidableEq

namespace Sig

def inLen (s : Sig) : Nat := s.inputs.len
def outLen (s : Sig) : Nat := s.outputs.len

def empty : Sig := ⟨.new, .new⟩

end Sig

inductive TrapCode where
  | contractFail | subtypeFail | assertFail | stackOverflow | taskQueueOverflow
  | unreachable | deadlock | regionExhausted | unsupportedImport
deriving DecidableEq

structure BlockId where
  idx : Nat
deriving DecidableEq

inductive CmpKind where
  | lt | le | gt | ge | eq | ne
deriving DecidableEq

inductive WriteKind where
  | plain | w1c | w1s | xor
deriving DecidableEq

inductive ReadKind where
  | plain | effectful
deriving DecidableEq

inductive BarrierKind where
  | none | before | after | both
deriving DecidableEq

/-- The base of an `addrOf`: a run-time address or an aperture-relative one. -/
inductive AddrOfBase where
  | runtime
  | mmio (aperture offset : Nat)
deriving DecidableEq

inductive OpKind where
  | constI64 (v : Int)
  | constBool (b : Bool)
  | constStr (span : Span)
  | addrOf (place : Atom) (isMut : Bool) (base : AddrOfBase)
  | mmioPlace (place : Atom) (aperture offset : Nat)
  | scopedEnter (ty : TypeId) (len : Nat)
  | taskSpawn (name : Atom) (taskTy : TypeId)
  | ptrAddConst (ty : TypeId) (offset : Nat)
  | ptrAddIndex (ty : TypeId) (scale : Nat)
  | dup (ty : TypeId)
  | drop (ty : TypeId)
  | swap (a b : TypeId)
  | addI64
  | subI64
  | mulI64
  | cmp (out : TypeId) (kind : CmpKind)
  | andBool
  | orBool
  | notBool
  | interruptDisable
  | interruptEnable
  | localSet (slot : Nat) (ty : TypeId)
  | localGet (slot : Nat) (ty : TypeId)
  | cast (src tgt : TypeId)
  | bitcast (src tgt : TypeId)
  | call (name : Atom) (sig : Sig) (performs : EffectSet) (requires : CapSet)
      (bound : StackBound)
  | load (ty : TypeId)
  | store (ty : TypeId)
  | mmioVolLoad (ty : TypeId) (place : Atom) (readKind : ReadKind) (atomicMax : Nat)
      (barrier : BarrierKind)
  | mmioVolStore (ty : TypeId) (place : Atom) (writeKind : WriteKind) (readKind : ReadKind)
      (atomicMax : Nat) (barrier : BarrierKind)
  | mmioVolLoadField (regTy fieldTy : TypeId) (place : Atom) (mask shift : Nat)
      (readKind : ReadKind) (atomicMax : Nat) (barrier : BarrierKind)
  | mmioVolStoreField (regTy fieldTy : TypeId) (place : Atom) (mask shift : Nat)
      (writeKind : WriteKind) (readKind : ReadKind) (atomicMax : Nat) (barrier : BarrierKind)
  | trapIfFalse (code : TrapCode)
  | br (target : BlockId)
  | brIf (thenTgt elseTgt : BlockId)
  | ret
deriving DecidableEq

structure Op where
  kind : OpKind
  span : Span

structure Block where
  id : BlockId
  entryStack : FixedVec TypeId 32
  ops : FixedVec Op 96

inductive ApertureKind where
  | bus | emulated
deriving DecidableEq

inductive BindKind where
  | none | armThumbLdrLiteral | riscVHi20Lo12
deriving DecidableEq

structure ApertureUse where
  id : Nat
  name : Atom
  kind : ApertureKind
  base : Option Nat
  size : Nat
  accessMask : BitVec 8
  bind : BindKind
deriving DecidableEq

structure Word where
  name : Atom
  sig : Sig
  performs : EffectSet
  requires : CapSet
  bound : StackBound
  entry : BlockId
  types : FixedVec Atom 64
  typeSizes : FixedVec Nat 64
  typeClasses : FixedVec TypeClass 64
  apertures : FixedVec ApertureUse 8
  subtypeBases : FixedVec TypeId 64
  blocks : FixedVec Block 16

structure Module where
  name : Atom
  words : List Word
  apertures : FixedVec ApertureUse 8

def findApertureUse (w : Word) (id : Nat) : Option ApertureUse :=
  w.apertures.items.find? fun wu => wu.id == id

def findBlock (w : Word) (id : BlockId) : Option Block :=
  w.blocks.items.find? fun b => b.id == id

def typeWidthBytes (w : Word) (ty : TypeId) : Option Nat := do
  let name ← w.types.get? ty.idx
  let prim ← Prim.fromTypeName name.text
  pure (prim.bits 64 / 8)

/-- The storage type behind `ty`: a primitive itself, or the end of the chain of
declared bases.  `fuel` bounds the walk as the source's loop counter does. -/
def resolveStorageTypeFrom (w : Word) : Nat → TypeId → Option TypeId
  | 0, _ => none
  | fuel + 1, cur => do
    let name ← w.types.get? cur.idx
    if (Prim.fromTypeName name.text).isSome then
      some cur
    else
      let base ← w.subtypeBases.get? cur.idx
      if base = TY_EMPTY ∨ base = cur then none else resolveStorageTypeFrom w fuel base

def resolveStorageType (w : Word) (ty : TypeId) : Option TypeId :=
  resolveStorageTypeFrom w (w.subtypeBases.len + 1) ty

def storageBitsSigned (w : Word) (ty : TypeId) (ptrBits : Nat) : Option (Nat × Bool) := do
  let base ← resolveStorageType w ty
  let name ← w.types.get? base.idx
  let prim ← Prim.fromTypeName name.text
  pure (prim.bits ptrBits, prim.isSigned)

/-- May a value of type `got` stand where `want` is declared?  Exact match, or one
step of subsumption. -/
def typeOk (w : Word) (got want : TypeId) : Bool :=
  if got = want then true
  else
    match w.subtypeBases.get? got.idx with
    | some base => base = want
    | none => false

theorem findBlock_mem {w : Word} {id : BlockId} {b : Block} (h : findBlock w id = some b) :
    b ∈ w.blocks.items ∧ b.id = id := by
  refine ⟨List.mem_of_find?_eq_some h, ?_⟩
  have := List.find?_some h
  exact of_decide_eq_true this

end Tyu

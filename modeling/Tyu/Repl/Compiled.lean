import Tyu.Lib.Wire
import Tyu.Ir.Types

/-! # Values, and the compiled session -/

namespace Tyu.Repl

open Lib.Wire

inductive ValKind where
  | int | bool | ptr
deriving DecidableEq

def ValKind.name : ValKind → String
  | .int => "i64"
  | .bool => "bool"
  | .ptr => "ptr"

inductive Value where
  | int (v : Int64)
  | bool (b : Bool)
  | ptr (p : UInt64)

namespace Value

def kind : Value → ValKind
  | .int _ => .int
  | .bool _ => .bool
  | .ptr _ => .ptr

def asI64 : Value → Int64
  | .int v => v
  | .bool b => if b then 1 else 0
  | .ptr p => p.toInt64

def asU64 (v : Value) : UInt64 := v.asI64.toUInt64

def int? : Value → Option Int64
  | .int v => some v
  | _ => none

def bool? : Value → Option Bool
  | .bool b => some b
  | _ => none

def ptr? : Value → Option UInt64
  | .ptr p => some p
  | _ => none

end Value

structure Slot where
  ty : TypeId
  val : Value

namespace Slot

def int (ty : TypeId) (v : Int64) : Slot := ⟨ty, .int v⟩

def bool (b : Bool) : Slot := ⟨TY_BOOL, .bool b⟩

def ptr (ty : TypeId) (p : UInt64) : Slot := ⟨ty, .ptr p⟩

end Slot

def hexDigit (n : Nat) : Char := if n < 10 then Char.ofNat (48 + n) else Char.ofNat (87 + n)

def formatHex (v : UInt64) : String :=
  "0x" ++ String.ofList ((List.range 16).map fun i => hexDigit (v.toNat / 16 ^ (15 - i) % 16))

def Value.hex (v : Value) : String := formatHex v.asU64

structure StackCell where
  tyName : String
  valueHex : String

def typeNameOf (w : Word) (ty : TypeId) : String :=
  match w.types.get? ty.idx with
  | some a => a.text
  | none => "?"

def cellOf (w : Word) (s : Slot) : StackCell := ⟨typeNameOf w s.ty, s.val.hex⟩

/-- The declared signature of the word as `( in -- out )`. -/
def sigTextOf (w : Word) : String :=
  let names := fun tys : List TypeId => " ".intercalate (tys.map (typeNameOf w))
  "( " ++ names w.sig.inputs.items ++ " --" ++ (if 0 < w.sig.outLen then " " else "") ++
    names w.sig.outputs.items ++ " )"

inductive Builtin where
  | testioWriteByte | testioWriteStr | testioExit | ioLog
  | regionCreate | regionAlloc | regionReset | regionDestroy
deriving DecidableEq

namespace Builtin

def all : List Builtin :=
  [testioWriteByte, testioWriteStr, testioExit, ioLog, regionCreate, regionAlloc, regionReset,
    regionDestroy]

def name : Builtin → Atom
  | testioWriteByte => ⟨"testio.write-byte", by decide⟩
  | testioWriteStr => ⟨"testio.write-str", by decide⟩
  | testioExit => ⟨"testio.exit", by decide⟩
  | ioLog => ⟨"platform.io.log", by decide⟩
  | regionCreate => ⟨"platform.mem.region-create", by decide⟩
  | regionAlloc => ⟨"platform.mem.region-alloc", by decide⟩
  | regionReset => ⟨"platform.mem.region-reset", by decide⟩
  | regionDestroy => ⟨"platform.mem.region-destroy", by decide⟩

def argKinds : Builtin → List ValKind
  | testioWriteByte => [.int]
  | testioWriteStr => [.ptr]
  | testioExit => [.int]
  | ioLog => [.ptr]
  | regionCreate => [.int]
  | regionAlloc => [.int, .int]
  | regionReset => [.int]
  | regionDestroy => [.int]

end Builtin

inductive DictTarget where
  | word (idx : Nat)
  | builtin (b : Builtin)
deriving DecidableEq

structure ApertureEntry where
  id : Nat
  base : UInt64
  size : Nat

structure SubtypeRange where
  name : String
  min : Int64
  max : Int64

structure Compiled where
  module : Module
  wordBits : Nat
  src : Bytes
  small : src.length < 2 ^ 32 := by decide
  apertures : List ApertureEntry
  subtypes : List SubtypeRange

theorem no_source : ([] : Bytes).length < 2 ^ 32 := by decide

namespace Compiled

/-- The words of the module, then the built-in words whose names are still free. -/
def dict (c : Compiled) : List (Atom × DictTarget) :=
  let words := c.module.words.mapIdx fun i w => (w.name, DictTarget.word i)
  words ++ (Builtin.all.filter fun b => words.all fun e => e.1 ≠ b.name).map fun b =>
    (b.name, .builtin b)

def dictLookup (c : Compiled) (name : Atom) : Option DictTarget :=
  (c.dict.find? fun e => e.1 = name).map Prod.snd

def subtypeRange (c : Compiled) (name : String) : Option SubtypeRange :=
  c.subtypes.find? fun s => s.name = name

end Compiled

def escapeByte (e : UInt8) : UInt8 :=
  if e = 110 then 10 else if e = 114 then 13 else if e = 116 then 9 else if e = 48 then 0 else e

def unescape : Bytes → Option Bytes
  | [] => some []
  | 92 :: [] => none
  | 92 :: e :: rest => (unescape rest).map (escapeByte e :: ·)
  | b :: rest => (unescape rest).map (b :: ·)

def decodeStringBytes (src : Bytes) (span : Span) : Option Bytes :=
  if span.stop ≤ span.start + 1 then none
  else do
    let s ← slice src span.start span.stop
    if s.head? = some 34 ∧ s.getLast? = some 34 then
      let out ← unescape (s.tail.dropLast)
      if out.length ≤ 256 then some out else none
    else none

def constStrBytes (c : Compiled) (span : Span) : Bytes :=
  match decodeStringBytes c.src span with
  | some bytes => bytes
  | none => (slice c.src span.start span.stop).getD []

theorem length_constStrBytes (c : Compiled) (span : Span) :
    (constStrBytes c span).length < 2 ^ 32 := by
  unfold constStrBytes
  cases hdecode : decodeStringBytes c.src span with
  | some bytes =>
    unfold decodeStringBytes at hdecode
    split at hdecode
    · cases hdecode
    obtain ⟨s, -, hdecode⟩ := Option.bind_eq_some_iff.mp hdecode
    split at hdecode
    · obtain ⟨out, -, hdecode⟩ := Option.bind_eq_some_iff.mp hdecode
      split at hdecode
      · rename_i hlen
        cases hdecode
        exact Nat.lt_of_le_of_lt hlen (by omega)
      · cases hdecode
    · cases hdecode
  | none =>
    show ((slice c.src span.start span.stop).getD []).length < 2 ^ 32
    cases hslice : slice c.src span.start span.stop with
    | none => exact Nat.two_pow_pos 32
    | some xs =>
      have hlen := length_slice hslice
      have hstop := (slice_eq_some hslice).2.1
      have hsmall := c.small
      show xs.length < 2 ^ 32
      omega

/-- The device boundary: what a read or a write answers, and the device it leaves. -/
structure Peripheral (σ : Type) where
  read : σ → (aperture off width : Nat) → Option UInt64 × σ
  write : σ → (aperture off width : Nat) → UInt64 → Bool × σ

def widthMask (width : Nat) : UInt64 :=
  match width with
  | 1 => 0xff
  | 2 => 0xffff
  | 4 => 0xffffffff
  | 8 => 0xffffffffffffffff
  | _ => 0

def applyWriteKind (cur val : UInt64) (width : Nat) (kind : WriteKind) : UInt64 :=
  let m := widthMask width
  let v := val &&& m
  let c := cur &&& m
  match kind with
  | .plain => v
  | .w1c => c &&& ~~~v
  | .w1s => c ||| v
  | .xor => c ^^^ v

def extractField (reg mask : UInt64) (shift : Nat) : UInt64 :=
  (reg &&& mask) >>> UInt64.ofNat shift

def insertField (reg mask : UInt64) (shift : Nat) (field : UInt64) : UInt64 :=
  (reg &&& ~~~mask) ||| ((field <<< UInt64.ofNat shift) &&& mask)

end Tyu.Repl

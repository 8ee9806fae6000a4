import Mathlib.Tactic.Ring
import Tyu.Lib.Wire

/-! # The binary encoding of WebAssembly -/

namespace Tyu.Wasm

open Lib.Wire

/-- At most `n` groups of an unsigned number. -/
def ulebGroups : Nat → Nat → Bytes
  | 0, _ => []
  | n + 1, v =>
    if v / 128 = 0 then [UInt8.ofNat (v % 128)]
    else UInt8.ofNat (v % 128 + 128) :: ulebGroups n (v / 128)

def uleb (v : Nat) : Bytes := ulebGroups 10 v

/-- At most `n` groups of a signed number; the last group carries the sign. -/
def slebGroups : Nat → Int → Bytes
  | 0, _ => []
  | n + 1, v =>
    let b := (v % 128).toNat
    if (v / 128 = 0 ∧ b < 64) ∨ (v / 128 = -1 ∧ 64 ≤ b) then [UInt8.ofNat b]
    else UInt8.ofNat (b + 128) :: slebGroups n (v / 128)

def sleb (v : Int) : Bytes := slebGroups 10 v

/-- Unsigned LEB128 of a fixed width; the last byte never carries the continuation bit. -/
def paddedUleb (v : Nat) : (width : Nat) → Bytes
  | 0 => []
  | 1 => [UInt8.ofNat (v % 128)]
  | width + 2 => UInt8.ofNat (v % 128 + 128) :: paddedUleb (v / 128) (width + 1)

@[simp] theorem length_paddedUleb (v width : Nat) : (paddedUleb v width).length = width := by
  induction width generalizing v with
  | zero => rfl
  | succ width ih =>
    cases width with
    | zero => rfl
    | succ width =>
      show (paddedUleb (v / 128) (width + 1)).length + 1 = width + 2
      rw [ih]

def name (n : Bytes) : Bytes := uleb n.length ++ n

def sectionBytes (id : UInt8) (payload : Bytes) : Bytes := id :: (uleb payload.length ++ payload)

/-- The operands of a load or store: the alignment hint, which is none, and an offset. -/
def memarg (offset : Nat) : Bytes := uleb 0 ++ uleb offset

def functype (params results : Bytes) : Bytes :=
  0x60 :: (uleb params.length ++ params ++ (uleb results.length ++ results))

def localsGroup (count : Nat) (ty : UInt8) : Bytes := uleb count ++ [ty]

def SEC_TYPE : UInt8 := 1
def SEC_IMPORT : UInt8 := 2
def SEC_FUNCTION : UInt8 := 3
def SEC_MEMORY : UInt8 := 5
def SEC_GLOBAL : UInt8 := 6
def SEC_EXPORT : UInt8 := 7
def SEC_CODE : UInt8 := 10
def SEC_DATA : UInt8 := 11

def VAL_I32 : UInt8 := 0x7f
def VAL_I64 : UInt8 := 0x7e

/-!
## The span table of a module

A custom section maps the loads and stores of a module to spans of the source: a version,
the number of records, and for each record the offset of the instruction in the module and
the start and the length of the span.  The decoder takes back what the encoder wrote.
-/

/-- `tyu.spans/1` -/
def SECTION_NAME : Bytes := [0x74, 0x79, 0x75, 0x2E, 0x73, 0x70, 0x61, 0x6E, 0x73, 0x2F, 0x31]

def VERSION : Nat := 1

structure SpanRecord where
  codeOffset : UInt32
  spanStart : UInt32
  spanLen : UInt32

namespace Spans

def encodeRecord (r : SpanRecord) : Bytes :=
  uleb r.codeOffset.toNat ++ uleb r.spanStart.toNat ++ uleb r.spanLen.toNat

def encode (records : List SpanRecord) : Bytes :=
  uleb VERSION ++ uleb records.length ++ records.flatMap encodeRecord

def customSection (records : List SpanRecord) : Bytes :=
  sectionBytes 0 (name SECTION_NAME ++ encode records)

/-- The number at the front and the bytes behind it; the bits of a group that do not fit 64
bits fall off, and an eleventh group is refused. -/
def ulebFrom (shift result : Nat) : Bytes → Option (Nat × Bytes)
  | [] => none
  | b :: rest =>
    let result := result ||| (b &&& 0x7f).toNat <<< shift % 2 ^ 64
    if b &&& 0x80 = 0 then some (result, rest)
    else if 64 ≤ shift + 7 then none
    else ulebFrom (shift + 7) result rest

def ulebAt (bs : Bytes) : Option (Nat × Bytes) := ulebFrom 0 0 bs

def decodeRecords : Nat → Bytes → Option (List SpanRecord × Bytes)
  | 0, bs => some ([], bs)
  | count + 1, bs => do
    let (codeOffset, bs) ← ulebAt bs
    let (spanStart, bs) ← ulebAt bs
    let (spanLen, bs) ← ulebAt bs
    if 2 ^ 32 - 1 < codeOffset ∨ 2 ^ 32 - 1 < spanStart ∨ 2 ^ 32 - 1 < spanLen then none
    else
      let (rest, bs) ← decodeRecords count bs
      some (⟨UInt32.ofNat codeOffset, UInt32.ofNat spanStart, UInt32.ofNat spanLen⟩ :: rest, bs)

def decode (payload : Bytes) : Option (List SpanRecord) := do
  let (version, bs) ← ulebAt payload
  if version ≠ VERSION then none
  else
    let (count, bs) ← ulebAt bs
    let (records, bs) ← decodeRecords count bs
    if bs = [] then some records else none

/-! ## The round trip -/

theorem group_bits {k : Nat} (hk : k < 128) : (UInt8.ofNat k &&& 0x7f).toNat = k ∧
    UInt8.ofNat k &&& 0x80 = 0 ∧ (UInt8.ofNat (k + 128) &&& 0x7f).toNat = k ∧
    UInt8.ofNat (k + 128) &&& 0x80 ≠ 0 := by
  have hall : ∀ k : Fin 128, (UInt8.ofNat k &&& 0x7f).toNat = k.val ∧
      UInt8.ofNat k &&& 0x80 = 0 ∧ (UInt8.ofNat (k + 128 : Nat) &&& 0x7f).toNat = k.val ∧
      UInt8.ofNat (k + 128 : Nat) &&& 0x80 ≠ 0 := by decide
  exact hall ⟨k, hk⟩

theorem or_group {result k shift : Nat} (hresult : result < 2 ^ shift)
    (hfit : k * 2 ^ shift < 2 ^ 64) :
    result ||| k <<< shift % 2 ^ 64 = result + k * 2 ^ shift := by
  have hshift : k <<< shift = k * 2 ^ shift := Nat.shiftLeft_eq k shift
  rw [hshift, Nat.mod_eq_of_lt hfit, Nat.or_comm, ← hshift,
    ← Nat.shiftLeft_add_eq_or_of_lt hresult, Nat.add_comm, hshift]

theorem ulebFrom_ulebGroups {n v shift result : Nat} (rest : Bytes) (hn : 0 < n)
    (hv : v < 128 ^ n) (hfit : v * 2 ^ shift < 2 ^ 64) (hresult : result < 2 ^ shift) :
    ulebFrom shift result (ulebGroups n v ++ rest) = some (result + v * 2 ^ shift, rest) := by
  induction n generalizing v shift result with
  | zero => omega
  | succ n ih =>
    obtain ⟨hlow, hstop, hlow', hgo⟩ := group_bits (Nat.mod_lt v (by decide : 0 < 128))
    have hsmall : v % 128 * 2 ^ shift < 2 ^ 64 :=
      Nat.lt_of_le_of_lt (Nat.mul_le_mul_right _ (Nat.mod_le v 128)) hfit
    unfold ulebGroups
    by_cases hlast : v / 128 = 0
    · rw [if_pos hlast, List.singleton_append]
      unfold ulebFrom
      rw [hlow, or_group hresult hsmall, if_pos hstop, Nat.mod_eq_of_lt (by omega)]
    · have hmore : shift + 7 < 64 := by
        have hlt : 2 ^ (shift + 7) < 2 ^ 64 := by
          rw [Nat.pow_add, Nat.mul_comm]
          exact Nat.lt_of_le_of_lt (Nat.mul_le_mul_right _ (by omega)) hfit
        exact (Nat.pow_lt_pow_iff_right (by decide)).mp hlt
      have hpos : 0 < n := by
        cases n with
        | zero => omega
        | succ n => exact Nat.succ_pos n
      have hpow : 2 ^ (shift + 7) = 128 * 2 ^ shift := by rw [Nat.pow_add, Nat.mul_comm]
      have hsplit : v * 2 ^ shift = v % 128 * 2 ^ shift + v / 128 * 2 ^ (shift + 7) := by
        rw [hpow]
        conv_lhs => rw [← Nat.div_add_mod v 128]
        ring
      have hnext : result + v % 128 * 2 ^ shift < 2 ^ (shift + 7) := by
        have hle : (v % 128 + 1) * 2 ^ shift ≤ 128 * 2 ^ shift :=
          Nat.mul_le_mul_right _ (by omega)
        rw [Nat.add_mul, Nat.one_mul] at hle
        omega
      rw [if_neg hlast, List.cons_append]
      unfold ulebFrom
      rw [hlow', or_group hresult hsmall, if_neg hgo, if_neg (by omega)]
      rw [ih hpos (Nat.div_lt_of_lt_mul (by rw [Nat.pow_succ] at hv; omega)) (by omega) hnext,
        hsplit, Nat.add_assoc]

theorem ulebAt_uleb {v : Nat} (hv : v < 2 ^ 64) (rest : Bytes) :
    ulebAt (uleb v ++ rest) = some (v, rest) := by
  have h : ulebFrom 0 0 (ulebGroups 10 v ++ rest) = some (0 + v * 2 ^ 0, rest) :=
    ulebFrom_ulebGroups rest (by decide) (by omega) (by omega) (by decide)
  rw [Nat.pow_zero, Nat.mul_one, Nat.zero_add] at h
  exact h

theorem decodeRecords_encode (records : List SpanRecord) (rest : Bytes) :
    decodeRecords records.length (records.flatMap encodeRecord ++ rest) = some (records, rest) := by
  induction records with
  | nil => rfl
  | cons r records ih =>
    have hsize : ∀ n : UInt32, n.toNat < 2 ^ 64 := fun n => by
      have := n.toNat_lt
      omega
    have hin : ¬ (2 ^ 32 - 1 < r.codeOffset.toNat ∨ 2 ^ 32 - 1 < r.spanStart.toNat ∨
        2 ^ 32 - 1 < r.spanLen.toNat) := by
      have h1 := r.codeOffset.toNat_lt
      have h2 := r.spanStart.toNat_lt
      have h3 := r.spanLen.toNat_lt
      omega
    rw [List.flatMap_cons, List.length_cons]
    unfold decodeRecords encodeRecord
    rw [List.append_assoc, List.append_assoc, List.append_assoc]
    rw [ulebAt_uleb (hsize _)]
    simp only [Option.bind_eq_bind, Option.bind_some]
    rw [ulebAt_uleb (hsize _)]
    simp only [Option.bind_some]
    rw [ulebAt_uleb (hsize _)]
    simp only [Option.bind_some]
    rw [if_neg hin]
    show (decodeRecords records.length (records.flatMap encodeRecord ++ rest) >>= _) = _
    rw [ih]
    show some (⟨_, _, _⟩ :: records, rest) = some (r :: records, rest)
    rw [UInt32.ofNat_toNat, UInt32.ofNat_toNat, UInt32.ofNat_toNat]

theorem decode_encode {records : List SpanRecord} (hlen : records.length < 2 ^ 64) :
    decode (encode records) = some records := by
  have hrecords := decodeRecords_encode records []
  rw [List.append_nil] at hrecords
  unfold decode encode
  rw [List.append_assoc, ulebAt_uleb (by decide)]
  show (ulebAt (uleb records.length ++ records.flatMap encodeRecord) >>= _) = _
  rw [ulebAt_uleb hlen]
  show (decodeRecords records.length (records.flatMap encodeRecord) >>= _) = _
  rw [hrecords]
  rfl

end Spans

end Tyu.Wasm

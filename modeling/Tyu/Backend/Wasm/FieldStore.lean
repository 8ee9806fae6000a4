import Tyu.Backend.Wasm.Code
import Tyu.Repl.Engine

/-!
# The store of a field

Both implementations read the register, put the field in place, let the kind of the register act
on the old value and the new one, and write the result.
-/

namespace Tyu.Wasm

open Lib Repl

/-! ## The bits of a word -/

theorem word_ext {x y : UInt64} (h : ∀ i, i < 64 → x.toBitVec.getLsbD i = y.toBitVec.getLsbD i) :
    x = y :=
  UInt64.eq_of_toBitVec_eq (BitVec.eq_of_getLsbD_eq fun i hi => h i hi)

/-- What a store leaves in a register, seen on the bits of the register outside a mask. -/
def KeepsOutside (mask : UInt64) (width : Nat) (kind : WriteKind) (cur out : UInt64) : Prop :=
  (applyWriteKind cur out width kind ^^^ cur) &&& ~~~mask &&& widthMask width = 0

def engineValue (cur mask : UInt64) (shift : Nat) (field : UInt64) (width : Nat)
    (kind : WriteKind) : UInt64 :=
  let reg := insertField cur mask shift field
  if kind = .plain then reg else applyWriteKind cur reg width kind

def codeValue (cur mask : UInt64) (shift : Nat) (field : UInt64) (width : Nat)
    (kind : WriteKind) : UInt64 :=
  let reg := insertField cur mask shift field
  (match kind with
    | .plain => reg
    | .w1c => cur &&& (reg ^^^ 0xffffffffffffffff)
    | .w1s => cur ||| reg
    | .xor => cur ^^^ reg) &&& widthMask width

theorem keepsOutside_engine (cur mask : UInt64) (shift : Nat) (field : UInt64) (width : Nat)
    (kind : WriteKind) :
    KeepsOutside mask width kind cur (engineValue cur mask shift field width kind) := by
  unfold KeepsOutside engineValue insertField
  apply word_ext
  intro i hi
  cases kind
  all_goals
    simp only [applyWriteKind, reduceCtorEq, if_true, if_false, UInt64.toBitVec_and,
      UInt64.toBitVec_or, UInt64.toBitVec_xor, UInt64.toBitVec_not, BitVec.getLsbD_and,
      BitVec.getLsbD_or, BitVec.getLsbD_xor, BitVec.getLsbD_not, hi, decide_true, Bool.true_and]
    cases mask.toBitVec.getLsbD i <;> cases cur.toBitVec.getLsbD i <;>
      cases (widthMask width).toBitVec.getLsbD i <;> simp

theorem keepsOutside_code (cur mask : UInt64) (shift : Nat) (field : UInt64) (width : Nat)
    (kind : WriteKind) :
    KeepsOutside mask width kind cur (codeValue cur mask shift field width kind) := by
  unfold KeepsOutside codeValue insertField
  apply word_ext
  intro i hi
  have hones : (0xffffffffffffffff : UInt64) = ~~~0 := rfl
  cases kind
  all_goals
    simp only [hones, applyWriteKind, UInt64.toBitVec_and, UInt64.toBitVec_or,
      UInt64.toBitVec_xor, UInt64.toBitVec_not, BitVec.getLsbD_and, BitVec.getLsbD_or,
      BitVec.getLsbD_xor, BitVec.getLsbD_not, hi, decide_true, Bool.true_and]
    cases mask.toBitVec.getLsbD i <;> cases cur.toBitVec.getLsbD i <;>
      cases (widthMask width).toBitVec.getLsbD i <;> simp

theorem values_eq_iff (cur mask : UInt64) (shift : Nat) (field : UInt64) (width : Nat)
    (kind : WriteKind) :
    engineValue cur mask shift field width kind = codeValue cur mask shift field width kind ↔
      kind ≠ .plain ∨ insertField cur mask shift field &&& ~~~widthMask width = 0 := by
  have hones : (0xffffffffffffffff : UInt64) = ~~~0 := rfl
  have hkinds : kind ≠ .plain →
      engineValue cur mask shift field width kind =
        codeValue cur mask shift field width kind := by
    intro hkind
    unfold engineValue codeValue
    rw [if_neg hkind]
    apply word_ext
    intro i hi
    cases kind with
    | plain => exact absurd rfl hkind
    | _ =>
      simp only [hones, applyWriteKind, UInt64.toBitVec_and, UInt64.toBitVec_or,
        UInt64.toBitVec_xor, UInt64.toBitVec_not, BitVec.getLsbD_and, BitVec.getLsbD_or,
        BitVec.getLsbD_xor, BitVec.getLsbD_not, hi, decide_true, Bool.true_and]
      cases cur.toBitVec.getLsbD i <;> cases (widthMask width).toBitVec.getLsbD i <;> simp
  have hplain : ∀ reg : UInt64,
      reg = reg &&& widthMask width ↔ reg &&& ~~~widthMask width = 0 := by
    intro reg
    constructor
    · intro h
      rw [h]
      apply word_ext
      intro i hi
      simp only [UInt64.toBitVec_and, UInt64.toBitVec_not, BitVec.getLsbD_and,
        BitVec.getLsbD_not, hi, decide_true, Bool.true_and]
      cases (widthMask width).toBitVec.getLsbD i <;> simp
    · intro h
      apply word_ext
      intro i hi
      have hbit := congrArg (fun x : UInt64 => x.toBitVec.getLsbD i) h
      simp only [UInt64.toBitVec_and, UInt64.toBitVec_not, BitVec.getLsbD_and,
        BitVec.getLsbD_not, hi, decide_true, Bool.true_and] at hbit ⊢
      revert hbit
      cases (widthMask width).toBitVec.getLsbD i <;> simp
  constructor
  · intro h
    by_cases hkind : kind = .plain
    · subst hkind
      exact Or.inr ((hplain _).mp h)
    · exact Or.inl hkind
  · rintro (hkind | h)
    · exact hkinds hkind
    · by_cases hkind : kind = .plain
      · subst hkind
        exact (hplain _).mpr h
      · exact hkinds hkind

inductive DeviceAccess where
  | read (aperture off width : Nat)
  | write (aperture off width : Nat) (val : UInt64)
deriving DecidableEq

variable {σ : Type}

def recording (p : Peripheral σ) : Peripheral (σ × List DeviceAccess) where
  read d ap off width :=
    ((p.read d.1 ap off width).1, ((p.read d.1 ap off width).2, d.2 ++ [.read ap off width]))
  write d ap off width val :=
    ((p.write d.1 ap off width val).1,
      ((p.write d.1 ap off width val).2, d.2 ++ [.write ap off width val]))

/-! ## The emitted code -/

theorem pointer_halves {ap off : Nat} (hap : ap < 2 ^ 32) (hoff : off < 2 ^ 32) :
    (UInt64.ofNat (ap * 2 ^ 32 + off) >>> (Int64.ofInt 32).toUInt64).toUInt32.toNat = ap ∧
      (UInt64.ofNat (ap * 2 ^ 32 + off)).toUInt32.toNat = off := by
  have hconst : (Int64.ofInt 32).toUInt64 = 32 := by decide
  have hval : (UInt64.ofNat (ap * 2 ^ 32 + off)).toNat = ap * 2 ^ 32 + off := by
    rw [UInt64.toNat_ofNat', Nat.mod_eq_of_lt (by omega)]
  rw [hconst]
  constructor
  · rw [UInt64.toNat_toUInt32, UInt64.toNat_shiftRight, hval]
    show (ap * 2 ^ 32 + off) >>> 32 % 2 ^ 32 = ap
    rw [Nat.shiftRight_eq_div_pow]
    omega
  · rw [UInt64.toNat_toUInt32, hval]
    omega

def RegisterWidth (width : Nat) : Prop := width = 1 ∨ width = 2 ∨ width = 4 ∨ width = 8

theorem registerWidth_of_mmioWidth {w : Word} {ty : TypeId} {width : Nat}
    (h : mmioWidth w ty = .ok width) : RegisterWidth width := by
  unfold mmioWidth at h
  split at h <;> cases h
  · exact Or.inl rfl
  · exact Or.inr (Or.inl rfl)
  · exact Or.inr (Or.inr (Or.inl rfl))
  · exact Or.inr (Or.inr (Or.inr rfl))

theorem width_const {width : Nat} (h : RegisterWidth width) :
    ((Int32.ofInt width).toUInt32).toNat = width := by
  rcases h with rfl | rfl | rfl | rfl <;> decide

variable {m : Machine σ} {v : UInt64} {s : List Operand}

theorem exec_periphRead {p : Peripheral σ} {ptr width ap off : Nat}
    (hptr : m.locals ptr = UInt64.ofNat (ap * 2 ^ 32 + off)) (hap : ap < 2 ^ 32)
    (hoff : off < 2 ^ 32) (hwidth : RegisterWidth width)
    (hread : (p.read m.device ap off width).1 = some v) :
    exec p (emitPeriphRead ptr width) m =
      (.ok (), { m with
        stack := .i64 v :: m.stack
        device := (p.read m.device ap off width).2 }) := by
  obtain ⟨hhigh, hlow⟩ := pointer_halves hap hoff
  rw [← hptr] at hhigh hlow
  show exec p [.call .peripheralRead] { m with
    stack := .i32 (Int32.ofInt width).toUInt32 :: .i32 (m.locals ptr).toUInt32 ::
      .i32 (m.locals ptr >>> (Int64.ofInt 32).toUInt64).toUInt32 :: m.stack } = _
  simp only [exec, step, hhigh, hlow, width_const hwidth]
  rcases hr : p.read m.device ap off width with ⟨_ | _, d⟩
  · rw [hr] at hread
    cases hread
  · rw [hr] at hread
    cases hread
    rfl

theorem exec_writePrefix {p : Peripheral σ} {ptr width : Nat} {rest : List Instr} :
    exec p (emitPeriphWritePrefix ptr width ++ rest) m = exec p rest { m with
      stack := .i32 (Int32.ofInt width).toUInt32 :: .i32 (m.locals ptr).toUInt32 ::
        .i32 (m.locals ptr >>> (Int64.ofInt 32).toUInt64).toUInt32 :: m.stack } := rfl

theorem exec_widthMask {p : Peripheral σ} {width : Nat} (h : RegisterWidth width)
    {rest : List Instr} (hs : m.stack = .i64 v :: s) :
    exec p (emitWidthMask width ++ rest) m =
      exec p rest { m with stack := .i64 (v &&& widthMask width) :: s } := by
  obtain ⟨stack, locals, device⟩ := m
  cases hs
  rcases h with rfl | rfl | rfl | rfl
  · rfl
  · rfl
  · rfl
  · have hall : v &&& widthMask 8 = v := by
      apply word_ext
      intro i hi
      show (v.toBitVec &&& (~~~0 : UInt64).toBitVec).getLsbD i = _
      simp only [UInt64.toBitVec_not, BitVec.getLsbD_and, BitVec.getLsbD_not, hi, decide_true,
        Bool.true_and]
      simp
    rw [hall]
    rfl

theorem exec_shift {p : Peripheral σ} {shift : Nat} {rest : List Instr} (hs : m.stack = .i64 v :: s)
    :
    exec p (emitShift .i64Shl shift ++ rest) m =
      exec p rest { m with stack := .i64 (v <<< UInt64.ofNat shift) :: s } := by
  obtain ⟨stack, locals, device⟩ := m
  cases hs
  unfold emitShift
  by_cases h : shift = 0
  · subst h
    rw [if_neg (by simp), List.nil_append]
    have hzero : v <<< UInt64.ofNat 0 = v := UInt64.shiftLeft_zero
    rw [hzero]
  · rw [if_pos h]
    rfl

def combine (cur reg : UInt64) : WriteKind → UInt64
  | .plain => reg
  | .w1c => cur &&& (reg ^^^ 0xffffffffffffffff)
  | .w1s => cur ||| reg
  | .xor => cur ^^^ reg

theorem exec_writeKind {p : Peripheral σ} {kind : WriteKind} {rest : List Instr} {cur reg : UInt64}
    (hs : m.stack = .i64 reg :: (if kind ≠ .plain then [.i64 cur] else []) ++ s) :
    exec p (emitWriteKind kind ++ rest) m =
      exec p rest { m with stack := .i64 (combine cur reg kind) :: s } := by
  obtain ⟨stack, locals, device⟩ := m
  cases hs
  cases kind <;> rfl

theorem exec_insert {p : Peripheral σ} {scratch slot shift : Nat} {mask : UInt64}
    {rest : List Instr} {l : Nat → UInt64} {d : σ} :
    exec p ([.localGet scratch, constOf (~~~mask), .num .i64And, .localGet slot] ++
        (emitShift .i64Shl shift ++ ([constOf mask, .num .i64And, .num .i64Or] ++ rest)))
        ⟨s, l, d⟩ =
      exec p rest ⟨.i64 (insertField (l scratch) mask shift (l slot)) :: s, l, d⟩ := by
  show exec p (constOf (~~~mask) :: _) ⟨.i64 (l scratch) :: s, l, d⟩ = _
  rw [exec_constOf]
  show exec p (emitShift .i64Shl shift ++ _)
    ⟨.i64 (l slot) :: .i64 (l scratch &&& ~~~mask) :: s, l, d⟩ = _
  rw [exec_shift rfl]
  show exec p (constOf mask :: _) _ = _
  rw [exec_constOf]
  rfl

theorem exec_storeField {p : Peripheral σ} {h scratch width ap off shift : Nat}
    {mask cur field : UInt64} {kind : WriteKind}
    (hptr : m.locals (h - 2) = UInt64.ofNat (ap * 2 ^ 32 + off)) (hap : ap < 2 ^ 32)
    (hoff : off < 2 ^ 32) (hfield : m.locals (h - 1) = field) (hscratch : h - 1 < scratch)
    (hwidth : RegisterWidth width) (hread : (p.read m.device ap off width).1 = some cur) :
    (exec p (emitMmioVolStoreField h scratch width mask shift kind) m).2.device =
      (p.write (p.read m.device ap off width).2 ap off width
        (codeValue cur mask shift field width kind)).2 := by
  obtain ⟨s, l, d⟩ := m
  obtain ⟨hhigh, hlow⟩ := pointer_halves hap hoff
  rw [← show l (h - 2) = _ from hptr] at hhigh hlow
  have hold : Function.update l scratch cur scratch = cur := Function.update_self ..
  have hptr' : Function.update l scratch cur (h - 2) = l (h - 2) :=
    Function.update_of_ne (by omega) ..
  have hfield' : Function.update l scratch cur (h - 1) = field := by
    rw [Function.update_of_ne (by omega)]
    exact hfield
  unfold emitMmioVolStoreField
  simp only [List.append_assoc]
  rw [exec_append_of_ok (exec_periphRead hptr hap hoff hwidth hread)]
  show (exec p (emitPeriphWritePrefix (h - 2) width ++ _)
    ⟨s, Function.update l scratch cur, (p.read d ap off width).2⟩).2.device = _
  rw [exec_writePrefix]
  -- a plain store does not keep the old value for the kind
  have hkeep : ∀ (rest : List Instr) (s : List Operand) (l : Nat → UInt64) (d : σ),
      exec p ((if kind ≠ .plain then [.localGet scratch] else []) ++ rest) ⟨s, l, d⟩ =
        exec p rest ⟨(if kind ≠ .plain then [.i64 (l scratch)] else []) ++ s, l, d⟩ := by
    intro rest s l d
    cases kind <;> rfl
  rw [hkeep, exec_insert, exec_writeKind rfl, exec_widthMask hwidth rfl]
  simp only [hold, hfield', hptr', exec, step, hhigh, hlow, width_const hwidth]
  show _ = (p.write _ ap off width (combine cur (insertField cur mask shift field) kind &&&
    widthMask width)).2
  rcases p.write (p.read d ap off width).2 ap off width
    (combine cur (insertField cur mask shift field) kind &&& widthMask width) with ⟨_ | _, d'⟩
  · rfl
  · rfl

theorem exec_barrier (p : Peripheral σ) (kind : BarrierKind) (after : Bool) (m : Machine σ) :
    exec p (emitBarrier kind after) m = (.ok (), m) := by
  cases kind <;> rfl

theorem exec_between_barriers (p : Peripheral σ) (kind : BarrierKind) (code : List Instr)
    (m : Machine σ) :
    (exec p (emitBarrier kind false ++ code ++ emitBarrier kind true) m).2 =
      (exec p code m).2 := by
  rw [List.append_assoc, exec_append_of_ok (exec_barrier p kind false m)]
  rcases hcode : exec p code m with ⟨e | _, m'⟩
  · rw [exec_append_of_error hcode]
  · rw [exec_append_of_ok hcode, exec_barrier]

theorem writeDevice_device (p : Peripheral σ) (target : Nat × Nat) (width : Nat) (val : UInt64)
    (span : Span) (st : ExecCore) (d : σ) :
    (writeDevice p target width val span (st, d)).2.2 =
      (p.write d target.1 target.2 width val).2 := by
  have hdevice : Exec.device (fun d => p.write d target.1 target.2 width val) (st, d) =
      (.ok (p.write d target.1 target.2 width val).1,
        (st, (p.write d target.1 target.2 width val).2)) := rfl
  unfold writeDevice
  rw [Stoppable.bind_of_ok hdevice]
  cases (p.write d target.1 target.2 width val).1 <;> rfl

theorem engine_storeField {c : Compiled} {p : Peripheral σ} {w : Word} {regTy : TypeId}
    {mask shift width ap off bits : Nat} {signed : Bool} {kind : WriteKind} {span : Span}
    {st : ExecCore} {d : σ} {field : Int64} {fieldTy ptrTy : TypeId} {addr cur : UInt64}
    {rest : List Slot}
    (hbits : storageBitsSigned w regTy c.wordBits = some (bits, signed))
    (hwidth : bitsToWidth bits = width)
    (hstack : st.stack = ⟨fieldTy, .int field⟩ :: ⟨ptrTy, .ptr addr⟩ :: rest)
    (htarget : c.mmioTarget addr = some (ap, off))
    (hread : (p.read d ap off width).1 = some cur) :
    (stepMmioStoreField c p w regTy mask shift kind span (st, d)).2.2 =
      (p.write (p.read d ap off width).2 ap off width
        (engineValue cur (UInt64.ofNat mask) shift field.toUInt64 width kind)).2 := by
  have hwidth' : Repl.mmioWidth c w regTy span (st, d) = (.ok width, (st, d)) := by
    unfold Repl.mmioWidth
    rw [hbits]
    show (Except.ok (bitsToWidth bits), (st, d)) = _
    rw [hwidth]
  obtain ⟨stack, frames, heap, out, journal, elide, strings, resources⟩ := st
  cases hstack
  let rest' : ExecCore := ⟨rest, frames, heap, out, journal, elide, strings, resources⟩
  have hfield : popInt w span
      (⟨⟨fieldTy, .int field⟩ :: ⟨ptrTy, .ptr addr⟩ :: rest, frames, heap, out, journal, elide,
        strings, resources⟩, d) =
      (.ok field, ({ rest' with stack := ⟨ptrTy, .ptr addr⟩ :: rest }, d)) := rfl
  have hpop : popPtr w span ({ rest' with stack := ⟨ptrTy, .ptr addr⟩ :: rest }, d) =
      (.ok addr, (rest', d)) := rfl
  have hptr : popTarget c w span ({ rest' with stack := ⟨ptrTy, .ptr addr⟩ :: rest }, d) =
      (.ok (ap, off), (rest', d)) := by
    unfold popTarget
    rw [Stoppable.bind_of_ok hpop, htarget]
    rfl
  have hdevice : Exec.device (fun d => p.read d ap off width) (rest', d) =
      (.ok (some cur), (rest', (p.read d ap off width).2)) := by
    show (Except.ok (p.read d ap off width).1, (rest', (p.read d ap off width).2)) = _
    rw [hread]
  have hanswer : readDevice p (ap, off) width span (rest', d) =
      (.ok cur, (rest', (p.read d ap off width).2)) := by
    unfold readDevice
    rw [Stoppable.bind_of_ok hdevice]
    rfl
  unfold stepMmioStoreField
  rw [Stoppable.bind_of_ok hwidth', Stoppable.bind_of_ok hfield, Stoppable.bind_of_ok hptr,
    Stoppable.bind_of_ok hanswer]
  show (writeDevice p (ap, off) width
    (engineValue cur (UInt64.ofNat mask) shift field.toUInt64 width kind) span
    (rest', (p.read d ap off width).2)).2.2 = _
  rw [writeDevice_device]

/-! ## The same reads and writes -/

def engineAccesses (c : Compiled) (p : Peripheral σ) (w : Word) (op : Op) (st : ExecCore) (d : σ) :
    List DeviceAccess :=
  (stepPlain c (recording p) w op (st, (d, []))).2.2.2

def codeAccesses (p : Peripheral σ) (code : List Instr) (locals : Nat → UInt64) (d : σ) :
    List DeviceAccess :=
  (exec (recording p) code ⟨[], locals, (d, [])⟩).2.device.2

/-- Both implementations stand at a store of the same field: the same width, a pointer to the
same register, the same value, and the slots below the scratch local. -/
structure Stands (c : Compiled) (ctx : OpContext) (regTy : TypeId) (st : ExecCore)
    (locals : Nat → UInt64) (width ap off : Nat) (field : Int64) : Prop where
  engineWidth : (storageBitsSigned ctx.w regTy c.wordBits).map (fun e => bitsToWidth e.1) =
    some width
  codeWidth : mmioWidth ctx.w regTy = .ok width
  engineStack : ∃ fieldTy ptrTy addr rest,
    st.stack = ⟨fieldTy, .int field⟩ :: ⟨ptrTy, .ptr addr⟩ :: rest ∧
      c.mmioTarget addr = some (ap, off)
  codePointer : locals (ctx.h - 2) = UInt64.ofNat (ap * 2 ^ 32 + off)
  codeField : locals (ctx.h - 1) = field.toUInt64
  aperture : ap < 2 ^ 32
  offset : off < 2 ^ 32
  scratch : ctx.h - 1 < ctx.mmioScratch

section Same

variable {c : Compiled} {p : Peripheral σ} {src : Source} {ctx : OpContext} {t t' : Tables}
  {code : List Instr} {h' : Nat} {regTy fieldTy : TypeId} {place : Atom} {mask shift : Nat}
  {kind : WriteKind} {readKind : ReadKind} {atomicMax : Nat} {barrier : BarrierKind}
  {st : ExecCore} {locals : Nat → UInt64} {width ap off : Nat} {field : Int64} {d : σ}
  {cur : UInt64}

theorem engineAccesses_eq
    (hop : ctx.op.kind =
      .mmioVolStoreField regTy fieldTy place mask shift kind readKind atomicMax barrier)
    (hs : Stands c ctx regTy st locals width ap off field)
    (hread : (p.read d ap off width).1 = some cur) :
    engineAccesses c p ctx.w ctx.op st d =
      [.read ap off width, .write ap off width
        (engineValue cur (UInt64.ofNat mask) shift field.toUInt64 width kind)] := by
  obtain ⟨⟨bits, signed⟩, hbits, hwidth⟩ := Option.map_eq_some_iff.mp hs.engineWidth
  obtain ⟨_, _, _, _, hstack, htarget⟩ := hs.engineStack
  have hread' : ((recording p).read (d, []) ap off width).1 = some cur := hread
  unfold engineAccesses stepPlain
  rw [hop]
  show (stepMmioStoreField c (recording p) ctx.w regTy mask shift kind ctx.op.span
    (st, (d, []))).2.2.2 = _
  rw [engine_storeField hbits hwidth hstack htarget hread']
  rfl

theorem codeAccesses_eq
    (hop : ctx.op.kind =
      .mmioVolStoreField regTy fieldTy place mask shift kind readKind atomicMax barrier)
    (hcode : emitOp src ctx t = .ok (code, h', t'))
    (hs : Stands c ctx regTy st locals width ap off field)
    (hread : (p.read d ap off width).1 = some cur) :
    codeAccesses p code locals d =
      [.read ap off width, .write ap off width
        (codeValue cur (UInt64.ofNat mask) shift field.toUInt64 width kind)] := by
  have hemit : code = emitBarrier barrier false ++
      emitMmioVolStoreField ctx.h ctx.mmioScratch width (UInt64.ofNat mask) shift kind ++
      emitBarrier barrier true := by
    unfold emitOp emitOpBody at hcode
    rw [hop] at hcode
    simp only [hs.codeWidth] at hcode
    cases hcode
    rfl
  have hread' : ((recording p).read (d, []) ap off width).1 = some cur := hread
  unfold codeAccesses
  rw [hemit, exec_between_barriers,
    exec_storeField (m := ⟨[], locals, (d, [])⟩) hs.codePointer hs.aperture hs.offset hs.codeField
      hs.scratch (registerWidth_of_mmioWidth hs.codeWidth) hread']
  rfl

/-- Every value that is written keeps the bits of the register outside the mask. -/
def FieldOnly (mask : UInt64) (width : Nat) (kind : WriteKind) (cur : UInt64)
    (accesses : List DeviceAccess) : Prop :=
  ∀ ap off out, .write ap off width out ∈ accesses → KeepsOutside mask width kind cur out

end Same

/-! ## A register of a byte -/

def byteWord : Word where
  name := ⟨"main", main_fits⟩
  sig := ⟨.new, .new⟩
  performs := .empty
  requires := .empty
  bound := ⟨0, .slots 2⟩
  entry := ⟨0⟩
  types := ⟨[AT_EMPTY, AT_I64, ⟨"u8", by decide⟩], by decide⟩
  typeSizes := ⟨[0, 8, 1], three_types⟩
  typeClasses := ⟨[.other, .i64, .other], by decide⟩
  apertures := .new
  subtypeBases := ⟨[TY_EMPTY, TY_EMPTY, TY_EMPTY], three_types⟩
  blocks := .new

def byteStore (mask : Nat) : OpContext where
  w := byteWord
  op := ⟨.mmioVolStoreField ⟨2⟩ ⟨2⟩ AT_EMPTY mask 0 .plain .plain 0 .none, .UNKNOWN⟩
  h := 2
  cur := 3
  inLen := 0
  slots := 3
  mmioScratch := 4
  k := 0
  blocks := 1

def byteCompiled : Compiled where
  module := ⟨AT_EMPTY, [byteWord], .new⟩
  wordBits := 64
  src := []
  apertures := [⟨0, 0x40000000, 16⟩]
  subtypes := []

def byteStack : ExecCore where
  stack := [⟨⟨2⟩, .int 0x1ff⟩, ⟨TY_I64, .ptr 0x40000000⟩]
  frames := []
  heap := .new
  out := []
  journal := []
  elideGuards := false
  strings := []
  resources := []

def byteLocals (i : Nat) : UInt64 := if i = 1 then 0x1ff else 0

def zeros : Peripheral Unit := ⟨fun d _ _ _ => (some 0, d), fun d _ _ _ _ => (true, d)⟩

def noTables : Tables := ⟨[], [], [], [], 0⟩

def noSource : Source := ⟨fun _ => false, fun _ => none, fun _ => none⟩

def byteCode (mask : Nat) : List Instr :=
  emitMmioVolStoreField 2 4 1 (UInt64.ofNat mask) 0 .plain

theorem emit_byteStore (mask : Nat) :
    emitOp noSource (byteStore mask) noTables = .ok (byteCode mask, 0, noTables) := by
  have hwidth : mmioWidth byteWord ⟨2⟩ = .ok 1 := by decide
  unfold emitOp emitOpBody byteStore
  simp only [hwidth]
  rfl

theorem stands_byteStore (mask : Nat) :
    Stands byteCompiled (byteStore mask) ⟨2⟩ byteStack byteLocals 1 0 0 0x1ff where
  engineWidth := show (storageBitsSigned byteWord ⟨2⟩ 64).map (fun e => bitsToWidth e.1) = some 1
    by decide
  codeWidth := show mmioWidth byteWord ⟨2⟩ = .ok 1 by decide
  engineStack := ⟨⟨2⟩, TY_I64, 0x40000000, [], rfl, by decide⟩
  codePointer := show byteLocals 0 = 0 by decide
  codeField := show byteLocals 1 = 0x1ff by decide
  aperture := by decide
  offset := by decide
  scratch := show 1 < 4 by decide

end Tyu.Wasm

import Tyu.Backend.X86.Cast
import Tyu.Repl.Engine
import Tyu.Verifier.SrcInterp

/-!
# Casts in four implementations

The two back ends cut a number to the widths of primitives; the engine and the reference step keep
it, and the engine stops at a number outside the range of a subtype.
-/

namespace Tyu

open Lib

namespace Wasm

variable {σ : Type} {p : Repl.Peripheral σ}

theorem extend_bits {bits : Nat} (h : bits = 8 ∨ bits = 16 ∨ bits = 32) (u : UInt64) :
    (((u <<< (Int64.ofInt ((64 - bits : Nat) : Int)).toUInt64).toInt64 >>>
      (Int64.ofInt ((64 - bits : Nat) : Int)).toUInt64.toInt64).toUInt64).toBitVec =
      (u.toBitVec <<< (64 - bits)).sshiftRight (64 - bits) := by
  rcases h with rfl | rfl | rfl <;> rfl

/-- The slot at `top` holds a number and the operand stack is as it was. -/
structure SlotIs (top : Nat) (m : Machine σ) (v : BitVec 64) (m' : Machine σ) : Prop where
  slot : (m'.locals top).toBitVec = v
  stack : m'.stack = m.stack

theorem exec_canonicalize (q : Prim) (signed : Bool) (top : Nat) (m : Machine σ) :
    ∃ m', exec p (canonicalize top (q.bits 64) signed) m = (.ok (), m') ∧
      SlotIs top m (cut (q.bits 64) signed (m.locals top).toBitVec) m' := by
  have hnarrow : ∀ bits, (bits = 8 ∨ bits = 16 ∨ bits = 32) →
      ∃ m', exec p (canonicalize top bits signed) m = (.ok (), m') ∧
        SlotIs top m (cut bits signed (m.locals top).toBitVec) m' := by
    intro bits hbits
    have hlt : bits < 64 := by omega
    have hmask : (maskForBits bits).toBitVec = BitVec.ofNat 64 (2 ^ bits - 1) := by
      rcases hbits with rfl | rfl | rfl <;> rfl
    let low := m.locals top &&& maskForBits bits
    let masked : Machine σ := { m with locals := Function.update m.locals top low }
    have hmasked : exec p (maskTop top (maskForBits bits)) m = (.ok (), masked) := by
      show exec p (constOf (maskForBits bits) :: [.num .i64And, .localSet top])
        { m with stack := .i64 (m.locals top) :: m.stack } = _
      rw [exec_constOf]
      rfl
    have hlow : (masked.locals top).toBitVec =
        (m.locals top).toBitVec &&& BitVec.ofNat 64 (2 ^ bits - 1) := by
      show (Function.update m.locals top low top).toBitVec = _
      rw [Function.update_self, ← hmask]
      rfl
    unfold canonicalize cut
    rw [if_pos hlt, if_pos hlt]
    cases signed with
    | false =>
      refine ⟨masked, ?_, hlow, rfl⟩
      rw [if_neg (by simp), List.append_nil]
      exact hmasked
    | true =>
      rw [if_pos rfl, exec_append_of_ok hmasked]
      refine ⟨_, rfl, ?_, rfl⟩
      show (Function.update masked.locals top _ top).toBitVec = _
      rw [Function.update_self, extend_bits hbits, hlow]
      rfl
  rcases bits_cases q with h | h | h | h
  · rw [h]
    exact hnarrow 8 (.inl rfl)
  · rw [h]
    exact hnarrow 16 (.inr (.inl rfl))
  · rw [h]
    exact hnarrow 32 (.inr (.inr rfl))
  · rw [h]
    exact ⟨m, rfl, rfl, rfl⟩

end Wasm

def storagePrim (w : Word) (ty : TypeId) : Option Prim :=
  (resolveStorageType w ty).bind (X86.primTy w)

theorem storageBitsSigned_eq (w : Word) (ty : TypeId) (ptrBits : Nat) :
    storageBitsSigned w ty ptrBits =
      (storagePrim w ty).map fun p => (p.bits ptrBits, p.isSigned) := by
  unfold storageBitsSigned storagePrim X86.primTy
  cases resolveStorageType w ty with
  | none => rfl
  | some base =>
    simp only [Option.bind_eq_bind, Option.bind_some]
    cases w.types.get? base.idx with
    | none => rfl
    | some name =>
      simp only [Option.bind_some]
      cases Prim.fromTypeName name.text <;> rfl

theorem storagePrim_of_primTy {w : Word} {ty : TypeId} {p : Prim} (h : X86.primTy w ty = some p) :
    storagePrim w ty = some p := by
  obtain ⟨name, hname, hp⟩ := Option.bind_eq_some_iff.mp h
  have hself : resolveStorageType w ty = some ty := by
    unfold resolveStorageType resolveStorageTypeFrom
    rw [hname]
    simp only [Option.bind_eq_bind, Option.bind_some]
    rw [if_pos (by rw [hp]; rfl)]
  unfold storagePrim
  rw [hself]
  exact h

def castStored (src tgt : Prim) (v : BitVec 64) : BitVec 64 :=
  if src.bits 64 = tgt.bits 64 ∧ src.isSigned = tgt.isSigned then v
  else cut (tgt.bits 64) tgt.isSigned (cut (src.bits 64) src.isSigned v)

def castWith (f : Prim → Prim → BitVec 64 → BitVec 64) (src tgt : Option Prim) (v : BitVec 64) :
    BitVec 64 :=
  match src, tgt with
  | some src, some tgt => f src tgt v
  | _, _ => v

theorem Wasm.run_emitCast {σ : Type} (p : Repl.Peripheral σ) (w : Word) (src tgt : TypeId) (h : Nat)
    (m : Wasm.Machine σ) :
    ∃ m', Wasm.exec p (Wasm.emitCast w src tgt h) m = (.ok (), m') ∧
      (m'.locals (h - 1)).toBitVec = castWith castStored (storagePrim w src) (storagePrim w tgt)
        (m.locals (h - 1)).toBitVec := by
  unfold Wasm.emitCast
  rw [storageBitsSigned_eq, storageBitsSigned_eq]
  cases storagePrim w src with
  | none => exact ⟨m, rfl, rfl⟩
  | some f =>
    cases storagePrim w tgt with
    | none => exact ⟨m, rfl, rfl⟩
    | some t =>
      simp only [Option.map_some, castWith, castStored]
      by_cases hsame : f.bits 64 = t.bits 64 ∧ f.isSigned = t.isSigned
      · rw [if_pos hsame, if_pos hsame]
        exact ⟨m, rfl, rfl⟩
      · rw [if_neg hsame, if_neg hsame]
        obtain ⟨m₁, hrun₁, hslot₁⟩ := Wasm.exec_canonicalize (p := p) f f.isSigned (h - 1) m
        obtain ⟨m₂, hrun₂, hslot₂⟩ := Wasm.exec_canonicalize (p := p) t t.isSigned (h - 1) m₁
        refine ⟨m₂, ?_, ?_⟩
        · rw [Wasm.exec_append_of_ok hrun₁]
          exact hrun₂
        · rw [hslot₂.slot, hslot₁.slot]

theorem X86.run_emitCast {E : X86.Env} {s : X86.State} (w : Word) (src tgt : TypeId)
    (hs : X86.SlotWritable E s) :
    ∃ s', X86.runCast E (X86.emitCast w src tgt) s = some s' ∧
      X86.topSlot s' = castWith castPrim (X86.primTy w src) (X86.primTy w tgt) (X86.topSlot s) := by
  unfold X86.emitCast
  cases X86.primTy w src with
  | none => exact ⟨s, rfl, rfl⟩
  | some f =>
    cases X86.primTy w tgt with
    | none => exact ⟨s, rfl, rfl⟩
    | some t => exact X86.run_emitPrimCast hs

/-! ## Numbers that fit -/

def Prim.Fits (p : Prim) (v : BitVec 64) : Prop :=
  if p = .bool then v = 0 ∨ v = 1
  else if p.isSigned then
    -2 ^ (p.bits 64 - 1) ≤ v.toInt ∧ v.toInt < 2 ^ (p.bits 64 - 1)
  else v.toNat < 2 ^ p.bits 64

theorem cut_unsigned {bits : Nat} {v : BitVec 64} (h : v.toNat < 2 ^ bits) :
    cut bits false v = v := by
  unfold cut
  by_cases hbits : bits < 64
  · rw [if_pos hbits]
    apply BitVec.eq_of_toNat_eq
    show (v &&& BitVec.ofNat 64 (2 ^ bits - 1)).toNat = v.toNat
    have hpow : 2 ^ bits ≤ 2 ^ 64 := Nat.pow_le_pow_right (by decide) (by omega)
    rw [BitVec.toNat_and, BitVec.toNat_ofNat, Nat.mod_eq_of_lt (by omega),
      Nat.and_two_pow_sub_one_eq_mod, Nat.mod_eq_of_lt h]
  · rw [if_neg hbits]

theorem cut_signed {bits : Nat} {v : BitVec 64}
    (hbits : bits = 8 ∨ bits = 16 ∨ bits = 32 ∨ bits = 64)
    (h : -2 ^ (bits - 1) ≤ v.toInt ∧ v.toInt < 2 ^ (bits - 1)) : cut bits true v = v := by
  by_cases hlt : bits < 64
  · have hval : cut bits true v =
        ((v &&& BitVec.ofNat 64 (2 ^ bits - 1)) <<< (64 - bits)).sshiftRight (64 - bits) :=
      if_pos hlt
    obtain ⟨hlow, hhigh⟩ := h
    rw [hval]
    apply BitVec.eq_of_toInt_eq
    rw [BitVec.toInt_sshiftRight, BitVec.toInt_shiftLeft, BitVec.toNat_and, BitVec.toNat_ofNat]
    have hlt64 := v.isLt
    rw [BitVec.toInt_eq_toNat_bmod] at hlow hhigh ⊢
    have hpow : 2 ^ bits < 2 ^ 64 := Nat.pow_lt_pow_right (by decide) hlt
    rw [Nat.mod_eq_of_lt (by omega : 2 ^ bits - 1 < 2 ^ 64), Nat.and_two_pow_sub_one_eq_mod,
      Nat.shiftLeft_eq, Int.shiftRight_eq_div_pow]
    simp only [Int.bmod_def] at hlow hhigh ⊢
    -- the shifts by `64 - bits` cancel
    rcases hbits with rfl | rfl | rfl | rfl
    · omega
    · omega
    · omega
    · exact absurd hlt (by decide)
  · exact if_neg hlt

theorem Prim.Fits.cut {p : Prim} {v : BitVec 64} (h : p.Fits v) :
    cut (p.bits 64) p.isSigned v = v := by
  unfold Prim.Fits at h
  by_cases hbool : p = .bool
  · subst hbool
    rw [if_pos rfl] at h
    rcases h with rfl | rfl <;> decide
  · rw [if_neg hbool] at h
    by_cases hsigned : p.isSigned = true
    · rw [if_pos hsigned] at h
      rw [hsigned]
      exact cut_signed (bits_cases p) h
    · rw [if_neg hsigned] at h
      rw [Bool.eq_false_iff.mpr hsigned]
      exact cut_unsigned h

theorem castPrim_of_fits {src tgt : Prim} {v : BitVec 64} (hsrc : src.Fits v) (htgt : tgt.Fits v) :
    castPrim src tgt v = v := by
  unfold castPrim
  by_cases hsame : src = tgt
  · exact if_pos hsame
  · rw [if_neg hsame, hsrc.cut, htgt.cut]
    by_cases hbool : tgt = .bool ∧ src ≠ .bool
    · have hval : v = 0 ∨ v = 1 := by
        rw [hbool.1] at htgt
        exact htgt
      rw [if_pos hbool]
      rcases hval with rfl | rfl <;> decide
    · exact if_neg hbool

theorem castStored_of_fits {src tgt : Prim} {v : BitVec 64} (hsrc : src.Fits v)
    (htgt : tgt.Fits v) : castStored src tgt v = v := by
  unfold castStored
  rw [hsrc.cut, htgt.cut]
  split <;> rfl

theorem castStored_eq {src tgt : Prim} (h : src = tgt ∨ src ≠ .bool ∧ tgt ≠ .bool)
    (v : BitVec 64) : castStored src tgt v = castPrim src tgt v := by
  by_cases hsame : src = tgt
  · subst hsame
    unfold castStored castPrim
    rw [if_pos ⟨rfl, rfl⟩, if_pos rfl]
  · have hbool : src ≠ .bool ∧ tgt ≠ .bool := by
      rcases h with h | h
      · exact absurd h hsame
      · exact h
    have hprim : castPrim src tgt v =
        cut (tgt.bits 64) tgt.isSigned (cut (src.bits 64) src.isSigned v) := by
      unfold castPrim
      rw [if_neg hsame]
      exact if_neg fun hb => hbool.2 hb.1
    rw [hprim]
    unfold castStored
    by_cases hbits : src.bits 64 = tgt.bits 64 ∧ src.isSigned = tgt.isSigned
    · rw [if_pos hbits]
      -- unlike primitives of one width and sign fill the slot
      have hwide : src.bits 64 = 64 ∧ tgt.bits 64 = 64 := by
        revert hsame hbool hbits
        cases src <;> cases tgt <;> decide
      unfold cut
      rw [hwide.1, hwide.2]
      rfl
    · rw [if_neg hbits]

/-! ## The four results -/

inductive CastResult where
  | value (v : BitVec 64)
  | trapped (code : TrapCode)
deriving DecidableEq

section Results

variable {σ τ : Type}

def x86Result (E : X86.Env) (w : Word) (src tgt : TypeId) (s : X86.State) : Option CastResult :=
  (X86.runCast E (X86.emitCast w src tgt) s).map fun s' => .value (X86.topSlot s')

def wasmResult (p : Repl.Peripheral τ) (w : Word) (src tgt : TypeId) (h : Nat)
    (m : Wasm.Machine τ) : Option CastResult :=
  match Wasm.exec p (Wasm.emitCast w src tgt h) m with
  | (.ok _, m') => some (.value (m'.locals (h - 1)).toBitVec)
  | (.error _, _) => none

def engineResult (c : Repl.Compiled) (p : Repl.Peripheral σ) (w : Word) (op : Op)
    (s : Repl.ExecCore × σ) : Option CastResult :=
  match Repl.stepPlain c p w op s with
  | (.ok _, s') => s'.1.stack.head?.map fun x => .value x.val.asU64.toBitVec
  | (.error (.trap code _), _) => some (.trapped code)
  | (.error _, _) => none

def referenceResult (mem : Src.Mem) (kind : OpKind) (s : Src.State) :
    Option CastResult :=
  (Src.irStep mem kind s).2.stack.head?.map fun x => .value x.toUInt64.toBitVec

end Results

/-- An integer lies in the range of the subtype it becomes, where that is known. -/
def InSubtype (c : Repl.Compiled) (w : Word) (tgt : TypeId) (val : Repl.Value) : Prop :=
  (w.subtypeBases.get? tgt.idx).getD TY_EMPTY ≠ TY_EMPTY →
    ∀ r x, ((w.types.get? tgt.idx).bind fun a => c.subtypeRange a.text) = some r →
      val = .int x → r.min ≤ x ∧ x ≤ r.max

theorem stepCast_eq_some {c : Repl.Compiled} {w : Word} {tgt : TypeId} {x : Repl.Slot} :
    Repl.stepCast c w tgt x = some ⟨tgt, x.val⟩ ↔ InSubtype c w tgt x.val := by
  unfold Repl.stepCast InSubtype
  by_cases hbase : (w.subtypeBases.get? tgt.idx).getD TY_EMPTY ≠ TY_EMPTY
  · simp only [if_pos hbase]
    cases hrange : (w.types.get? tgt.idx).bind fun a => c.subtypeRange a.text with
    | none => simp
    | some r =>
      cases x.val with
      | int n => simp [hbase]
      | bool b => simp
      | ptr a => simp
  · simp only [if_neg hbase, if_true]
    exact iff_of_true trivial fun h => absurd h hbase

theorem stepCast_eq_none {c : Repl.Compiled} {w : Word} {tgt : TypeId} {x : Repl.Slot}
    (h : ¬InSubtype c w tgt x.val) : Repl.stepCast c w tgt x = none := by
  have hvalue : ∀ y, Repl.stepCast c w tgt x = some y → y = ⟨tgt, x.val⟩ := by
    intro y hy
    unfold Repl.stepCast at hy
    simp only [Option.ite_none_right_eq_some] at hy
    exact (Option.some.inj hy.2).symm
  cases hcast : Repl.stepCast c w tgt x with
  | none => rfl
  | some y =>
    rw [hvalue y hcast] at hcast
    exact absurd (stepCast_eq_some.mp hcast) h

structure AtCast {σ τ : Type} (E : X86.Env) (s : X86.State) (h : Nat) (m : Wasm.Machine τ)
    (e : Repl.ExecCore × σ) (x : Repl.Slot) (st : Src.State) (v : BitVec 64) : Prop where
  writable : X86.SlotWritable E s
  x86 : X86.topSlot s = v
  wasm : (m.locals (h - 1)).toBitVec = v
  engine : ∃ rest, e.1.stack = x :: rest
  slot : x.val.asU64.toBitVec = v
  reference : ∃ y rest, st.stack = y :: rest ∧ y.toUInt64.toBitVec = v

section Agree

variable {σ τ : Type} {c : Repl.Compiled} {p : Repl.Peripheral σ} {host : Repl.Peripheral τ}
  {w : Word} {src tgt : TypeId} {span : Span} {mem : Src.Mem} {E : X86.Env} {s : X86.State}
  {h : Nat} {m : Wasm.Machine τ} {e : Repl.ExecCore × σ} {x : Repl.Slot} {st : Src.State}
  {v : BitVec 64}

theorem x86Result_eq (hat : AtCast E s h m e x st v) :
    x86Result E w src tgt s =
      some (.value (castWith castPrim (X86.primTy w src) (X86.primTy w tgt) v)) := by
  obtain ⟨s', hrun, htop⟩ := X86.run_emitCast w src tgt hat.writable
  unfold x86Result
  rw [hrun, ← hat.x86, ← htop]
  rfl

theorem wasmResult_eq (hat : AtCast E s h m e x st v) :
    wasmResult host w src tgt h m =
      some (.value (castWith castStored (storagePrim w src) (storagePrim w tgt) v)) := by
  obtain ⟨m', hrun, hslot⟩ := Wasm.run_emitCast host w src tgt h m
  unfold wasmResult
  rw [hrun, ← hat.wasm, ← hslot]

theorem referenceResult_eq (hat : AtCast E s h m e x st v) :
    referenceResult mem (.cast src tgt) st = some (.value v) := by
  obtain ⟨y, rest, hstack, hy⟩ := hat.reference
  unfold referenceResult Src.irStep
  rw [hstack, ← hy]
  rfl

theorem engineResult_in (hat : AtCast E s h m e x st v) (hin : InSubtype c w tgt x.val) :
    engineResult c p w ⟨.cast src tgt, span⟩ e = some (.value v) := by
  obtain ⟨⟨stack, frames, heap, out, journal, elide, strings, resources⟩, d⟩ := e
  obtain ⟨rest, hstack⟩ := hat.engine
  cases hstack
  have hstep : Repl.stepPlain c p w ⟨.cast src tgt, span⟩
      (⟨x :: rest, frames, heap, out, journal, elide, strings, resources⟩, d) =
      (Repl.Exec.orStop (.trap .subtypeFail span) (Repl.stepCast c w tgt x) >>= Repl.push)
        (⟨rest, frames, heap, out, journal, elide, strings, resources⟩, d) := rfl
  unfold engineResult
  rw [hstep, stepCast_eq_some.mpr hin, ← hat.slot]
  rfl

theorem engineResult_out (hat : AtCast E s h m e x st v) (hout : ¬InSubtype c w tgt x.val) :
    engineResult c p w ⟨.cast src tgt, span⟩ e = some (.trapped .subtypeFail) := by
  obtain ⟨⟨stack, frames, heap, out, journal, elide, strings, resources⟩, d⟩ := e
  obtain ⟨rest, hstack⟩ := hat.engine
  cases hstack
  have hstep : Repl.stepPlain c p w ⟨.cast src tgt, span⟩
      (⟨x :: rest, frames, heap, out, journal, elide, strings, resources⟩, d) =
      (Repl.Exec.orStop (.trap .subtypeFail span) (Repl.stepCast c w tgt x) >>= Repl.push)
        (⟨rest, frames, heap, out, journal, elide, strings, resources⟩, d) := rfl
  unfold engineResult
  rw [hstep, stepCast_eq_none hout]
  rfl

def SameResult (a b c d : Option CastResult) : Prop := a = b ∧ b = c ∧ c = d

/-- The two back ends read the types of a cast alike: as primitives of which none is made a truth
value, or one type has no storage. -/
inductive ReadAlike (w : Word) (src tgt : TypeId) (v : BitVec 64) : BitVec 64 → Prop where
  | prims {f t : Prim} (hsrc : X86.primTy w src = some f) (htgt : X86.primTy w tgt = some t)
      (hbool : f = t ∨ f ≠ .bool ∧ t ≠ .bool) : ReadAlike w src tgt v (castPrim f t v)
  | none (h : storagePrim w src = none ∨ storagePrim w tgt = none) : ReadAlike w src tgt v v

def Storable (w : Word) (ty : TypeId) (v : BitVec 64) : Prop :=
  ∀ p, storagePrim w ty = some p → p.Fits v

theorem castWith_none {f : Prim → Prim → BitVec 64 → BitVec 64} {a b : Option Prim}
    (h : a = none ∨ b = none) (v : BitVec 64) : castWith f a b v = v := by
  rcases h with rfl | rfl
  · rfl
  · cases a <;> rfl

theorem primTy_none_of_storage {ty : TypeId} (h : storagePrim w ty = none) :
    X86.primTy w ty = none := by
  cases hp : X86.primTy w ty with
  | none => rfl
  | some p =>
    rw [storagePrim_of_primTy hp] at h
    cases h

theorem results_of_alike (hat : AtCast E s h m e x st v) {u : BitVec 64}
    (ha : ReadAlike w src tgt v u) :
    x86Result E w src tgt s = some (.value u) ∧ wasmResult host w src tgt h m = some (.value u) := by
  rw [x86Result_eq hat, wasmResult_eq hat]
  cases ha with
  | prims hsrc htgt hbool =>
    rw [hsrc, htgt, storagePrim_of_primTy hsrc, storagePrim_of_primTy htgt]
    refine ⟨rfl, ?_⟩
    show some (CastResult.value (castStored _ _ v)) = _
    rw [castStored_eq hbool]
  | none hnone =>
    have hprims : X86.primTy w src = none ∨ X86.primTy w tgt = none :=
      hnone.imp primTy_none_of_storage primTy_none_of_storage
    rw [castWith_none hprims, castWith_none hnone]
    exact ⟨rfl, rfl⟩

theorem results_of_storable (hat : AtCast E s h m e x st v) (hsrc : Storable w src v)
    (htgt : Storable w tgt v) :
    x86Result E w src tgt s = some (.value v) ∧ wasmResult host w src tgt h m = some (.value v) := by
  rw [x86Result_eq hat, wasmResult_eq hat]
  constructor
  · cases hf : X86.primTy w src with
    | none => rfl
    | some f =>
      cases ht : X86.primTy w tgt with
      | none => rfl
      | some t =>
        show some (CastResult.value (castPrim f t v)) = _
        rw [castPrim_of_fits (hsrc f (storagePrim_of_primTy hf))
          (htgt t (storagePrim_of_primTy ht))]
  · cases hf : storagePrim w src with
    | none => rfl
    | some f =>
      cases ht : storagePrim w tgt with
      | none => rfl
      | some t =>
        show some (CastResult.value (castStored f t v)) = _
        rw [castStored_of_fits (hsrc f hf) (htgt t ht)]

end Agree

/-! ## A number that becomes a byte -/

namespace ToByte

def word : Word where
  name := ⟨"main", main_fits⟩
  sig := .empty
  performs := .empty
  requires := .empty
  bound := ⟨0, .slots 1⟩
  entry := ⟨0⟩
  types := ⟨[AT_EMPTY, AT_I64, ⟨"u8", u8_fits⟩], three_types⟩
  typeSizes := ⟨[0, 8, 1], three_types⟩
  typeClasses := ⟨[.other, .i64, .other], three_types⟩
  apertures := .new
  subtypeBases := ⟨[TY_EMPTY, TY_EMPTY, TY_EMPTY], three_types⟩
  blocks := .new

def compiled : Repl.Compiled where
  module := ⟨AT_EMPTY, [word], .new⟩
  wordBits := 64
  src := []
  small := Repl.no_source
  apertures := []
  subtypes := []

def env : X86.Env := ⟨fun _ => true, fun _ => 0, fun _ _ => none⟩

def x86State (v : BitVec 64) : X86.State where
  reg r := if r = .r15 then 8 else 0
  flags := none
  mem := Memory.write (fun _ => 0) 0 8 v.toNat

def wasmState (v : BitVec 64) : Wasm.Machine Unit := ⟨[], fun _ => ⟨v⟩, ()⟩

def slot (v : BitVec 64) : Repl.Slot := ⟨TY_I64, .int (UInt64.ofBitVec v).toInt64⟩

def core (v : BitVec 64) : Repl.ExecCore where
  stack := [slot v]
  frames := []
  heap := .new
  out := []
  journal := []
  elideGuards := false
  strings := []
  resources := []

def srcState (v : BitVec 64) : Src.State := ⟨[(UInt64.ofBitVec v).toInt64], []⟩

def noDevice : Repl.Peripheral Unit := ⟨fun d _ _ _ => (none, d), fun d _ _ _ _ => (false, d)⟩

theorem atCast (v : BitVec 64) :
    AtCast env (x86State v) 1 (wasmState v) (core v, ()) (slot v) (srcState v) v where
  writable := by
    unfold X86.SlotWritable
    exact List.all_eq_true.mpr fun _ _ => rfl
  x86 := by
    have hplace : (x86State v).place .r15 (-8) = 0 := by
      unfold X86.State.place
      show ((8 : BitVec 64) + BitVec.ofInt 64 (-8)).toNat = 0
      decide
    unfold X86.topSlot
    rw [hplace]
    exact X86.load_write ⟨fun r => if r = .r15 then 8 else 0, none, fun _ => 0⟩ 0 v
  wasm := rfl
  engine := ⟨[], rfl⟩
  slot := rfl
  reference := ⟨_, [], rfl, rfl⟩

theorem inSubtype (v : BitVec 64) : InSubtype compiled word ⟨2⟩ (slot v).val :=
  fun h => absurd rfl h

def Agrees (v : BitVec 64) : Prop :=
  SameResult (x86Result env word TY_I64 ⟨2⟩ (x86State v))
    (wasmResult noDevice word TY_I64 ⟨2⟩ 1 (wasmState v))
    (engineResult compiled noDevice word ⟨.cast TY_I64 ⟨2⟩, .UNKNOWN⟩ (core v, ()))
    (referenceResult ⟨[], 0, 0⟩ (.cast TY_I64 ⟨2⟩) (srcState v))

theorem alike (v : BitVec 64) : ReadAlike word TY_I64 ⟨2⟩ v (castPrim .i64 .u8 v) :=
  .prims (by decide) (by decide) (Or.inr (by decide))

end ToByte

end Tyu

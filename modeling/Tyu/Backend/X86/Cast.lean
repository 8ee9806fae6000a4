import Tyu.Backend.X86.Emit
import Tyu.Backend.Wasm.Code

/-! # The code of a cast on x86-64 -/

namespace Tyu.X86

open Lib

/-- A cast uses the instructions of the other operations, `and` on the low half of `rax`, and
shifts by a constant. -/
inductive CastInstr where
  | plain (i : Instr)
  | andEax (imm : Nat)
  | shlRax (n : Nat)
  | sarRax (n : Nat)

/-- The effect of an instruction; a result in `eax` clears the upper half of `rax`. -/
def execCast (E : Env) (i : CastInstr) (s : State) : Option State :=
  match i with
  | .plain i =>
    match exec E i s with
    | some (.next s') => some s'
    | _ => none
  | .andEax imm =>
    if imm < 2 ^ 32 then
      some { s.set .rax (((s.reg .rax).setWidth 32 &&& BitVec.ofNat 32 imm).setWidth 64) with
        flags := none }
    else none
  | .shlRax n =>
    if n < 64 then some { s.set .rax (s.reg .rax <<< n) with flags := none } else none
  | .sarRax n =>
    if n < 64 then some { s.set .rax ((s.reg .rax).sshiftRight n) with flags := none } else none

def runCast (E : Env) (is : List CastInstr) (s : State) : Option State := is.foldlM
  (fun s i => execCast E i s) s

def primTy (w : Word) (ty : TypeId) : Option Prim :=
  (w.types.get? ty.idx).bind fun name => Prim.fromTypeName name.text

def maskForBits (bits : Nat) : Nat := if 64 ≤ bits then 2 ^ 64 - 1 else 2 ^ bits - 1

/-- Cut `rax` to a width. -/
def cutTo (bits : Nat) (signed : Bool) : List CastInstr :=
  if bits < 64 then
    (if bits ≤ 32 then [.andEax (maskForBits bits)]
      else [.plain (.alu .and .rax (.imm (maskForBits bits)))]) ++
    if signed then [.shlRax (64 - bits), .sarRax (64 - bits)] else []
  else []

def emitPrimCast (src tgt : Prim) : List CastInstr :=
  if src = tgt then []
  else
    [.plain (.mov (.reg .rax) (.mem .r15 (-8)))] ++ cutTo (src.bits 64) src.isSigned ++
      cutTo (tgt.bits 64) tgt.isSigned ++
      (if tgt = .bool ∧ src ≠ .bool then
        [.plain (.cmp (.reg .rax) (.imm 0)), .plain (.setAl .ne), .plain .movzxRaxAl] else []) ++
      [.plain (.mov (.mem .r15 (-8)) (.reg .rax))]

def emitCast (w : Word) (src tgt : TypeId) : List CastInstr :=
  match primTy w src, primTy w tgt with
  | some src, some tgt => emitPrimCast src tgt
  | _, _ => []

end Tyu.X86

namespace Tyu

/-! ## The value of a cast -/

/-- A number as a type of a width has it: its low bits, with the sign of the highest. -/
def cut (bits : Nat) (signed : Bool) (v : BitVec 64) : BitVec 64 :=
  if bits < 64 then
    let low := v &&& BitVec.ofNat 64 (2 ^ bits - 1)
    if signed then (low <<< (64 - bits)).sshiftRight (64 - bits) else low
  else v

def castPrim (src tgt : Prim) (v : BitVec 64) : BitVec 64 :=
  if src = tgt then v
  else
    let u := cut (tgt.bits 64) tgt.isSigned (cut (src.bits 64) src.isSigned v)
    if tgt = .bool ∧ src ≠ .bool then (if u = 0 then 0 else 1) else u

theorem bits_cases (p : Prim) :
    p.bits 64 = 8 ∨ p.bits 64 = 16 ∨ p.bits 64 = 32 ∨ p.bits 64 = 64 := by
  cases p <;> decide

end Tyu

namespace Tyu.X86

open Lib

variable {E : Env} {s : State}

theorem runCast_append (is js : List CastInstr) :
    runCast E (is ++ js) s = (runCast E is s).bind (runCast E js) := by
  unfold runCast
  rw [List.foldlM_append]
  rfl

/-- Code that only works on `rax`. -/
structure Computes (E : Env) (is : List CastInstr) (f : BitVec 64 → BitVec 64) : Prop where
  run : ∀ s, ∃ s', runCast E is s = some s' ∧ s'.reg .rax = f (s.reg .rax) ∧
    s'.reg .r15 = s.reg .r15 ∧ s'.mem = s.mem

theorem Computes.nil : Computes E [] id := ⟨fun s => ⟨s, rfl, rfl, rfl, rfl⟩⟩

theorem Computes.append {is js : List CastInstr} {f g : BitVec 64 → BitVec 64}
    (hf : Computes E is f) (hg : Computes E js g) : Computes E (is ++ js) (g ∘ f) := by
  constructor
  intro s
  obtain ⟨m, hrun, hrax, hr15, hmem⟩ := hf.run s
  obtain ⟨s', hrun', hrax', hr15', hmem'⟩ := hg.run m
  refine ⟨s', ?_, ?_, hr15'.trans hr15, hmem'.trans hmem⟩
  · rw [runCast_append, hrun]
    exact hrun'
  · rw [hrax', hrax]
    rfl

theorem computes_one {i : CastInstr} {f : BitVec 64 → BitVec 64}
    (h : ∀ s, ∃ s', execCast E i s = some s' ∧ s'.reg .rax = f (s.reg .rax) ∧
      s'.reg .r15 = s.reg .r15 ∧ s'.mem = s.mem) : Computes E [i] f := by
  constructor
  intro s
  obtain ⟨s', hs', hrest⟩ := h s
  refine ⟨s', ?_, hrest⟩
  show (execCast E i s).bind (fun s => some s) = _
  rw [hs']
  rfl

theorem andEax_bits {imm : Nat} (himm : imm < 2 ^ 32) (v : BitVec 64) :
    (v.setWidth 32 &&& BitVec.ofNat 32 imm).setWidth 64 = v &&& BitVec.ofNat 64 imm := by
  apply BitVec.eq_of_getLsbD_eq
  intro i hi
  rw [BitVec.getLsbD_setWidth, BitVec.getLsbD_and, BitVec.getLsbD_and, BitVec.getLsbD_setWidth,
    BitVec.getLsbD_ofNat, BitVec.getLsbD_ofNat]
  by_cases hlow : i < 32
  · simp [hi, hlow]
  · have hbit : imm.testBit i = false :=
      Nat.testBit_lt_two_pow (Nat.lt_of_lt_of_le himm (Nat.pow_le_pow_right (by decide) (by omega)))
    simp [hlow, hbit]

theorem computes_andEax {imm : Nat} (himm : imm < 2 ^ 32) :
    Computes E [.andEax imm] fun v => v &&& BitVec.ofNat 64 imm := by
  apply computes_one
  intro s
  refine ⟨_, if_pos himm, ?_, rfl, rfl⟩
  exact andEax_bits himm (s.reg .rax)

theorem computes_extend {n : Nat} (hn : n < 64) :
    Computes E [.shlRax n, .sarRax n] fun v => (v <<< n).sshiftRight n := by
  have hshl : Computes E [.shlRax n] fun v => v <<< n := by
    apply computes_one
    intro s
    exact ⟨_, if_pos hn, rfl, rfl, rfl⟩
  have hsar : Computes E [.sarRax n] fun v => v.sshiftRight n := by
    apply computes_one
    intro s
    exact ⟨_, if_pos hn, rfl, rfl, rfl⟩
  exact hshl.append hsar

theorem computes_cutTo (p : Prim) (signed : Bool) :
    Computes E (cutTo (p.bits 64) signed) (cut (p.bits 64) signed) := by
  have hnarrow : ∀ bits, bits ≤ 32 → 0 < bits →
      Computes E (cutTo bits signed) (cut bits signed) := by
    intro bits hbits hpos
    have hlt : bits < 64 := by omega
    have hmask : maskForBits bits = 2 ^ bits - 1 := if_neg (by omega)
    have himm : 2 ^ bits - 1 < 2 ^ 32 := by
      have hle : 2 ^ bits ≤ 2 ^ 32 := Nat.pow_le_pow_right (by decide) hbits
      have hone : 0 < 2 ^ bits := Nat.two_pow_pos bits
      omega
    unfold cutTo
    rw [if_pos hlt, if_pos hbits, hmask]
    cases signed with
    | false =>
      have hcut : cut bits false = fun v => v &&& BitVec.ofNat 64 (2 ^ bits - 1) := by
        funext v
        exact if_pos hlt
      rw [hcut]
      exact computes_andEax himm
    | true =>
      have hcut : cut bits true =
          (fun v : BitVec 64 => (v <<< (64 - bits)).sshiftRight (64 - bits)) ∘
            fun v => v &&& BitVec.ofNat 64 (2 ^ bits - 1) := by
        funext v
        exact if_pos hlt
      rw [hcut]
      exact (computes_andEax himm).append (computes_extend (by omega))
  rcases bits_cases p with h | h | h | h
  · rw [h]
    exact hnarrow 8 (by decide) (by decide)
  · rw [h]
    exact hnarrow 16 (by decide) (by decide)
  · rw [h]
    exact hnarrow 32 (by decide) (by decide)
  · rw [h]
    exact Computes.nil

theorem computes_truth :
    Computes E [.plain (.cmp (.reg .rax) (.imm 0)), .plain (.setAl .ne), .plain .movzxRaxAl]
      fun u => if u = 0 then 0 else 1 := by
  constructor
  intro s
  have hzero : BitVec.ofInt 64 0 = 0 := rfl
  refine ⟨_, rfl, ?_, rfl, rfl⟩
  show BitVec.ofNat 64 ((BitVec.ofNat 64 ((s.reg .rax).toNat / 256 * 256 +
    (Cond.holds .ne (s.reg .rax, BitVec.ofInt 64 0)).toNat)).toNat % 256) = _
  have hlt := (s.reg .rax).isLt
  rw [hzero]
  by_cases h : s.reg .rax = 0
  · have hne : (Cond.holds .ne (s.reg .rax, 0)).toNat = 0 := by
      rw [h]
      rfl
    rw [hne, if_pos h, BitVec.toNat_ofNat]
    apply BitVec.eq_of_toNat_eq
    rw [BitVec.toNat_ofNat]
    show _ = 0
    omega
  · have hne : (Cond.holds .ne (s.reg .rax, 0)).toNat = 1 := by
      have htrue : (s.reg .rax != 0) = true := bne_iff_ne.mpr h
      show (s.reg .rax != 0).toNat = 1
      rw [htrue]
      rfl
    rw [hne, if_neg h, BitVec.toNat_ofNat]
    apply BitVec.eq_of_toNat_eq
    rw [BitVec.toNat_ofNat]
    show _ = 1
    omega

def topSlot (s : State) : BitVec 64 := s.load (s.place .r15 (-8))

def SlotWritable (E : Env) (s : State) : Prop :=
  ((List.range 8).all fun i => E.writable (s.place .r15 (-8) + i)) = true

theorem load_write (s : State) (a : Nat) (x : Word64) :
    State.load { s with mem := s.mem.write a 8 x.toNat } a = x := by
  have hlt := x.isLt
  have hpow : 256 ^ 8 = 2 ^ 64 := by decide
  unfold State.load
  rw [Memory.read_write_same, hpow, Nat.mod_eq_of_lt hlt, BitVec.ofNat_toNat, BitVec.setWidth_eq]

theorem run_emitPrimCast {src tgt : Prim} (hs : SlotWritable E s) :
    ∃ s', runCast E (emitPrimCast src tgt) s = some s' ∧
      topSlot s' = castPrim src tgt (topSlot s) := by
  by_cases hsame : src = tgt
  · unfold emitPrimCast castPrim
    rw [if_pos hsame, if_pos hsame]
    exact ⟨s, rfl, rfl⟩
  · let value (v : BitVec 64) : BitVec 64 :=
      let u := cut (tgt.bits 64) tgt.isSigned (cut (src.bits 64) src.isSigned v)
      if tgt = .bool ∧ src ≠ .bool then (if u = 0 then 0 else 1) else u
    let truth : List CastInstr :=
      if tgt = .bool ∧ src ≠ .bool then
        [.plain (.cmp (.reg .rax) (.imm 0)), .plain (.setAl .ne), .plain .movzxRaxAl] else []
    have hmiddle : Computes E
        (cutTo (src.bits 64) src.isSigned ++ cutTo (tgt.bits 64) tgt.isSigned ++ truth) value := by
      have hcuts := (computes_cutTo (E := E) src src.isSigned).append
        (computes_cutTo tgt tgt.isSigned)
      by_cases hbool : tgt = .bool ∧ src ≠ .bool
      · have htruth : truth = [.plain (.cmp (.reg .rax) (.imm 0)), .plain (.setAl .ne),
            .plain .movzxRaxAl] := if_pos hbool
        have hvalue : value = (fun u => if u = 0 then 0 else 1) ∘
            (cut (tgt.bits 64) tgt.isSigned ∘ cut (src.bits 64) src.isSigned) := by
          funext v
          exact if_pos hbool
        rw [htruth, hvalue]
        exact hcuts.append computes_truth
      · have htruth : truth = [] := if_neg hbool
        have hvalue : value =
            cut (tgt.bits 64) tgt.isSigned ∘ cut (src.bits 64) src.isSigned := by
          funext v
          exact if_neg hbool
        rw [htruth, hvalue, List.append_nil]
        exact hcuts
    -- the slot is loaded into `rax`
    let loaded : State := s.set .rax (topSlot s)
    obtain ⟨m, hrun, hrax, hr15, hmem⟩ := hmiddle.run loaded
    have hplace : m.place .r15 (-8) = s.place .r15 (-8) := by
      unfold State.place
      rw [hr15]
      rfl
    let stored : State := { m with mem := m.mem.write (s.place .r15 (-8)) 8 (m.reg .rax).toNat }
    have hstore : execCast E (.plain (.mov (.mem .r15 (-8)) (.reg .rax))) m = some stored := by
      have hmove : move E m (.mem .r15 (-8)) (.reg .rax) = some stored := by
        show store E m (m.place .r15 (-8)) (m.reg .rax) = _
        rw [hplace]
        exact if_pos hs
      have hexec : exec E (.mov (.mem .r15 (-8)) (.reg .rax)) m = some (.next stored) := by
        show (Option.map Effect.next (move E m (.mem .r15 (-8)) (.reg .rax)) :
          Option (Effect Label Way State)) = _
        rw [hmove]
        rfl
      simp only [execCast, hexec]
    refine ⟨stored, ?_, ?_⟩
    · unfold emitPrimCast
      rw [if_neg hsame, List.append_assoc [_], List.append_assoc [_], List.append_assoc [_],
        runCast_append]
      show (runCast E (_ ++ truth ++ _) loaded) = _
      rw [runCast_append, hrun]
      show (execCast E _ m).bind (fun s => some s) = _
      rw [hstore]
      rfl
    · have hreg : stored.reg = m.reg := rfl
      have hsplace : stored.place .r15 (-8) = s.place .r15 (-8) := by
        rw [← hplace]
        unfold State.place
        rw [hreg]
      have hback : topSlot stored = m.reg .rax := by
        unfold topSlot
        rw [hsplace]
        exact load_write m _ _
      rw [hback, hrax]
      exact (if_neg hsame).symm

end Tyu.X86

import Tyu.Ir.Types
import Tyu.Lib.Assembly
import Tyu.Lib.Memory

/-! # The x86-64 instructions the hosted back end emits -/

namespace Tyu.X86

open Lib

abbrev Word64 := BitVec 64

inductive Reg where
  | rax | rcx | rdx | rsi | rdi | r14 | r15 | rsp
deriving DecidableEq

inductive Label where
  | word (name : Atom)
  | block (base : Nat) (id : BlockId)
  | endword (base : Nat)
  | trapOk (id : Nat)
  | dsHigh (id : Nat)
deriving DecidableEq

inductive Symbol where
  | dsHigh
  | resource (place : Atom)

inductive Way where
  | ret
  | stackOverflow
  | langTrap
  | langTrapLoc

inductive Operand where
  | reg (r : Reg)
  | imm (v : Int)
  | mem (r : Reg) (disp : Int)
  | cell (sym : Symbol)
  | addr (sym : Symbol)

inductive Alu where
  | add | sub | imul | and | or

/-- The conditions of jumps and of `setcc`. -/
inductive Cond where
  | a | na | e | ne | l | le | g | ge

inductive Instr where
  | mov (dst src : Operand)
  | lea (dst r : Reg) (disp : Int)
  | alu (op : Alu) (dst : Reg) (src : Operand)
  | cmp (x y : Operand)
  | setAl (c : Cond)
  | movzxRaxAl
  | jmp (l : Label)
  | jcc (c : Cond) (l : Label)
  | jmpOut (w : Way)
  | jccOut (c : Cond) (w : Way)
  | call (name : Atom)
  | ret

structure State where
  reg : Reg → Word64
  flags : Option (Word64 × Word64)
  mem : Memory

inductive Called where
  | back (s : State)
  | stop (w : Way) (s : State)

structure Env where
  writable : Nat → Bool
  address : Symbol → Nat
  call : Atom → State → Option Called

namespace State

def set (s : State) (r : Reg) (v : Word64) : State :=
  { s with reg := fun r' => if r' = r then v else s.reg r' }

def load (s : State) (a : Nat) : Word64 := BitVec.ofNat 64 (s.mem.read a 8)

def place (s : State) (r : Reg) (disp : Int) : Nat := (s.reg r + BitVec.ofInt 64 disp).toNat

@[simp] theorem set_reg_self (s : State) (r : Reg) (v : Word64) : (s.set r v).reg r = v := if_pos rfl

@[simp] theorem set_reg_of_ne (s : State) {r r' : Reg} (v : Word64) (h : r' ≠ r) :
    (s.set r v).reg r' = s.reg r' := if_neg h

@[simp] theorem set_mem (s : State) (r : Reg) (v : Word64) : (s.set r v).mem = s.mem := rfl

@[simp] theorem set_flags (s : State) (r : Reg) (v : Word64) : (s.set r v).flags = s.flags := rfl

end State

def imm32 (v : Int) : Bool := -2 ^ 31 ≤ v && v < 2 ^ 31

def imm64 (v : Int) : Bool := -2 ^ 63 ≤ v && v < 2 ^ 64

def Cond.holds : Cond → Word64 × Word64 → Bool
  | .a, (x, y) => y.ult x
  | .na, (x, y) => !y.ult x
  | .e, (x, y) => x == y
  | .ne, (x, y) => x != y
  | .l, (x, y) => x.slt y
  | .le, (x, y) => x.sle y
  | .g, (x, y) => y.slt x
  | .ge, (x, y) => y.sle x

def Alu.eval : Alu → Word64 → Word64 → Word64
  | .add, x, y => x + y
  | .sub, x, y => x - y
  | .imul, x, y => x * y
  | .and, x, y => x &&& y
  | .or, x, y => x ||| y

def source (E : Env) (s : State) : Operand → Option Word64
  | .reg r => some (s.reg r)
  | .imm v => if imm32 v then some (BitVec.ofInt 64 v) else none
  | .mem r disp => some (s.load (s.place r disp))
  | .cell sym => some (s.load (E.address sym))
  | .addr _ => none

def store (E : Env) (s : State) (a : Nat) (v : Word64) : Option State :=
  if (List.range 8).all fun i => E.writable (a + i) then
    some { s with mem := s.mem.write a 8 v.toNat }
  else none

def move (E : Env) (s : State) : Operand → Operand → Option State
  | .reg r, .imm v => if imm64 v then some (s.set r (BitVec.ofInt 64 v)) else none
  | .reg r, .addr sym => some (s.set r (BitVec.ofNat 64 (E.address sym)))
  | .reg r, src => (source E s src).map (s.set r)
  | .mem r disp, .reg r' => store E s (s.place r disp) (s.reg r')
  | .mem r disp, .imm v => if imm32 v then store E s (s.place r disp) (BitVec.ofInt 64 v) else none
  | .cell sym, .reg r => store E s (E.address sym) (s.reg r)
  | _, _ => none

def exec (E : Env) (i : Instr) (s : State) : Option (Effect Label Way State) :=
  match i with
  | .mov dst src => (move E s dst src).map .next
  | .lea dst r disp => some (.next (s.set dst (s.reg r + BitVec.ofInt 64 disp)))
  | .alu op dst src =>
    (source E s src).map fun y => .next { s.set dst (op.eval (s.reg dst) y) with flags := none }
  | .cmp x y =>
    (source E s x).bind fun x => (source E s y).map fun y => .next { s with flags := some (x, y) }
  | .setAl c =>
    -- only the low byte of the register is written
    s.flags.map fun f =>
      .next (s.set .rax (BitVec.ofNat 64 ((s.reg .rax).toNat / 256 * 256 + (c.holds f).toNat)))
  | .movzxRaxAl => some (.next (s.set .rax (BitVec.ofNat 64 ((s.reg .rax).toNat % 256))))
  | .jmp l => some (.jump l s)
  | .jcc c l => s.flags.map fun f => if c.holds f then .jump l s else .next s
  | .jmpOut w => some (.leave w s)
  | .jccOut c w => s.flags.map fun f => if c.holds f then .leave w s else .next s
  | .call name =>
    match E.call name s with
    | some (.back s') => some (.next s')
    | some (.stop w s') => some (.leave w s')
    | none => none
  | .ret => some (.leave .ret (s.set .rsp (s.reg .rsp + 8)))

def asm (is : List Instr) : List (Line Label Instr) := is.map .instr

/-! ## Memory that is not writable -/

theorem store_keeps {E : Env} {s s' : State} {a x : Nat} {v : Word64} (h : store E s a v = some s')
    (hx : E.writable x = false) : s'.mem x = s.mem x := by
  unfold store at h
  split at h
  · rename_i hall
    cases h
    refine Memory.write_outside ?_
    by_contra hin
    have hmem : x - a ∈ List.range 8 := List.mem_range.mpr (by omega)
    have hw := List.all_eq_true.mp hall (x - a) hmem
    rw [show a + (x - a) = x by omega, hx] at hw
    cases hw
  · cases h

theorem move_keeps {E : Env} {s s' : State} {dst src : Operand} {x : Nat}
    (h : move E s dst src = some s') (hx : E.writable x = false) : s'.mem x = s.mem x := by
  unfold move at h
  split at h
  · split at h
    · cases h
      rfl
    · cases h
  · cases h
    rfl
  · obtain ⟨v, -, rfl⟩ := Option.map_eq_some_iff.mp h
    rfl
  · exact store_keeps h hx
  · split at h
    · exact store_keeps h hx
    · cases h
  · exact store_keeps h hx
  · cases h

theorem exec_keeps {E : Env} {s : State} {i : Instr} {e : Effect Label Way State} {x : Nat}
    (h : exec E i s = some e) (hx : E.writable x = false)
    (hback : ∀ name s s', E.call name s = some (.back s') → s'.mem x = s.mem x)
    (hstop : ∀ name s w s', E.call name s = some (.stop w s') → s'.mem x = s.mem x) :
    e.state.mem x = s.mem x := by
  cases i with
  | mov dst src =>
    obtain ⟨s', hmove, rfl⟩ := Option.map_eq_some_iff.mp h
    exact move_keeps hmove hx
  | alu op dst src =>
    obtain ⟨y, -, rfl⟩ := Option.map_eq_some_iff.mp h
    rfl
  | cmp a b =>
    obtain ⟨y, -, h⟩ := Option.bind_eq_some_iff.mp h
    obtain ⟨z, -, rfl⟩ := Option.map_eq_some_iff.mp h
    rfl
  | setAl c =>
    obtain ⟨f, -, rfl⟩ := Option.map_eq_some_iff.mp h
    rfl
  | jcc c l =>
    obtain ⟨f, -, rfl⟩ := Option.map_eq_some_iff.mp h
    by_cases hc : c.holds f = true
    · rw [if_pos hc]
      rfl
    · rw [if_neg hc]
      rfl
  | jccOut c w =>
    obtain ⟨f, -, rfl⟩ := Option.map_eq_some_iff.mp h
    by_cases hc : c.holds f = true
    · rw [if_pos hc]
      rfl
    · rw [if_neg hc]
      rfl
  | call name =>
    rw [exec] at h
    split at h
    · rename_i s' hcall
      cases h
      exact hback name s s' hcall
    · rename_i w s' hcall
      cases h
      exact hstop name s w s' hcall
    · cases h
  | lea dst r disp =>
    cases h
    rfl
  | movzxRaxAl =>
    cases h
    rfl
  | jmp l =>
    cases h
    rfl
  | jmpOut w =>
    cases h
    rfl
  | ret =>
    cases h
    rfl

end Tyu.X86

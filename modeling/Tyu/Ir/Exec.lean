import Tyu.Ir.Types
import Tyu.Lib.BoundedStack
import Tyu.Lib.Checked
import Tyu.Lib.Runs

/-! # Execution of the IR -/

namespace Tyu

open Lib

def wrapI64 (x : Int) : Int := x.bmod (2 ^ 64)

def boolVal (b : Bool) : Int := if b then 1 else 0

/-- Where an aperture address came from: the place, its aperture, and the byte
offset it now has there. -/
structure Provenance where
  place : Atom
  aperture : Nat
  offset : Int
deriving DecidableEq

def Provenance.shift (p : Provenance) (d : Int) : Provenance := { p with offset := p.offset + d }

structure Value where
  val : Int
  prov : Option Provenance := none

namespace Value

def forget (v : Value) : Value := ⟨v.val, none⟩

/-- An address moved by `d` bytes. -/
def shift (v : Value) (d : Int) : Value := ⟨wrapI64 (v.val + d), v.prov.map (Provenance.shift · d)⟩

end Value

structure Cell where
  value : Value
  ty : TypeId

namespace Cell

def val (c : Cell) : Int := c.value.val

def forget (c : Cell) : Cell := ⟨c.value.forget, c.ty⟩

end Cell

structure Mem where
  cells : List (Int × Int)
  loadOracle : Int
  mmioOracle : Int

namespace Mem

def record (m : Mem) (addr val : Int) : Mem :=
  { m with cells := (addr, val) :: m.cells.filter fun c => c.1 != addr }

def load (m : Mem) (addr : Int) : Int :=
  match m.cells.find? fun c => c.1 == addr with
  | some c => c.2
  | none => m.loadOracle

end Mem

/-- The surroundings of a running word.  The first argument of an answer is the
time, so two reads of one register may differ. -/
structure World where
  apertureBase : Nat → Int
  address : Nat → OpKind → Int
  load : Nat → Mem → Int → Int
  mmioRead : Nat → Mem → OpKind → Int
  callTrap : Nat → Atom → List Int → Option TrapCode
  callResult : Nat → Atom → List Int → Nat → Int

/-- The surroundings of the reference run: fixed oracles, every address and every
callee result zero. -/
def World.reference : World where
  apertureBase _ := 0
  address _ _ := 0
  load _ m a := m.load a
  mmioRead _ m _ := m.mmioOracle
  callTrap _ _ _ := none
  callResult _ _ _ _ := 0

structure Machine where
  stack : BoundedStack Cell 64
  locals : List Value
  mem : Mem
  clock : Nat

inductive Fault where
  | underflow
  | overflow

inductive Control where
  | next
  | goto (tgt : BlockId)
  | done
  | trap (code : TrapCode)

namespace Machine

def push (m : Machine) (c : Cell) : Except Fault Machine :=
  match m.stack.push c with
  | some stack => .ok { m with stack := stack }
  | none => .error .overflow

def pop (m : Machine) : Except Fault (Cell × Machine) :=
  match m.stack.pop with
  | some (c, stack) => .ok (c, { m with stack := stack })
  | none => .error .underflow

def popN (m : Machine) (n : Nat) : Except Fault (List Cell × Machine) :=
  match m.stack.popN n with
  | some (cs, stack) => .ok (cs, { m with stack := stack })
  | none => .error .underflow

def pushAll (m : Machine) (cs : List Cell) : Except Fault Machine :=
  match m.stack.pushAll cs with
  | some stack => .ok { m with stack := stack }
  | none => .error .overflow

def getLocal (m : Machine) (slot : Nat) : Value := m.locals.getD slot ⟨0, none⟩

def setLocal (m : Machine) (slot : Nat) (v : Value) : Machine :=
  { m with locals := m.locals.set slot v }

def tick (m : Machine) : Machine := { m with clock := m.clock + 1 }

def forget (m : Machine) : Machine :=
  { m with stack := m.stack.map Cell.forget, locals := m.locals.map Value.forget }

def types (m : Machine) : BoundedStack TypeId 64 := m.stack.map Cell.ty

def values (m : Machine) : List Int := m.stack.items.map Cell.val

end Machine

def CmpKind.holds (k : CmpKind) (a b : Int) : Bool :=
  match k with
  | .lt => a < b
  | .le => a ≤ b
  | .gt => b < a
  | .ge => b ≤ a
  | .eq => a = b
  | .ne => a ≠ b

def callResults (W : World) (m : Machine) (name : Atom) (args : List Int) (outs : List TypeId) :
    List Cell :=
  outs.mapIdx fun i ty => ⟨⟨W.callResult m.clock name args i, none⟩, ty⟩

/-- A binary operation on the two topmost values; the right operand is on top. -/
def binop (m : Machine) (ty : TypeId) (f : Int → Int → Int) : Except Fault (Machine × Control) := do
  let (b, m) ← m.pop
  let (a, m) ← m.pop
  let m ← m.push ⟨⟨f a.val b.val, none⟩, ty⟩
  pure (m, .next)

def readTop (m : Machine) (ty : TypeId) (f : Int → Int) : Except Fault (Machine × Control) := do
  let (addr, m) ← m.pop
  let m ← m.push ⟨⟨f addr.val, none⟩, ty⟩
  pure (m, .next)

def pushVal (m : Machine) (v : Int) (ty : TypeId) : Except Fault (Machine × Control) := do
  let m ← m.push ⟨⟨v, none⟩, ty⟩
  pure (m, .next)

def execOp (W : World) (kind : OpKind) (m : Machine) : Except Fault (Machine × Control) :=
  match kind with
  | .constI64 v => pushVal m v TY_I64
  | .constBool b => pushVal m (boolVal b) TY_BOOL
  | .constStr _ => pushVal m (W.address m.clock kind) TY_STR
  | .addrOf _ isMut _ =>
    pushVal m (W.address m.clock kind) (if isMut then TY_PTR_MUT else TY_PTR)
  | .mmioPlace place aperture offset => do
    let m ← m.push ⟨⟨W.apertureBase aperture + offset, some ⟨place, aperture, offset⟩⟩, TY_MMIO⟩
    pure (m, .next)
  | .scopedEnter ty _ => pushVal m (W.address m.clock kind) ty
  | .taskSpawn _ taskTy => pushVal m (W.address m.clock kind) taskTy
  | .ptrAddConst _ offset => do
    let (p, m) ← m.pop
    let m ← m.push ⟨p.value.shift offset, p.ty⟩
    pure (m, .next)
  | .ptrAddIndex _ scale => do
    let (idx, m) ← m.pop
    let (p, m) ← m.pop
    let m ← m.push ⟨p.value.shift (idx.val * scale), p.ty⟩
    pure (m, .next)
  | .dup _ => do
    let (c, m) ← m.pop
    let m ← m.push c
    let m ← m.push c
    pure (m, .next)
  | .drop _ => do
    let (_, m) ← m.pop
    pure (m, .next)
  | .swap _ _ => do
    let (b, m) ← m.pop
    let (a, m) ← m.pop
    let m ← m.push b
    let m ← m.push a
    pure (m, .next)
  | .addI64 => binop m TY_I64 fun a b => wrapI64 (a + b)
  | .subI64 => binop m TY_I64 fun a b => wrapI64 (a - b)
  | .mulI64 => binop m TY_I64 fun a b => wrapI64 (a * b)
  | .cmp out k => binop m out fun a b => boolVal (k.holds a b)
  | .andBool => binop m TY_BOOL fun a b => boolVal (a != 0 && b != 0)
  | .orBool => binop m TY_BOOL fun a b => boolVal (a != 0 || b != 0)
  | .notBool => do
    let (a, m) ← m.pop
    let m ← m.push ⟨⟨boolVal (a.val == 0), none⟩, TY_BOOL⟩
    pure (m, .next)
  | .interruptDisable | .interruptEnable => pure (m, .next)
  | .localSet slot _ => do
    let (c, m) ← m.pop
    pure (m.setLocal slot c.value, .next)
  | .localGet slot ty => do
    let m ← m.push ⟨m.getLocal slot, ty⟩
    pure (m, .next)
  | .cast _ tgt | .bitcast _ tgt => do
    let (c, m) ← m.pop
    let m ← m.push ⟨c.value, tgt⟩
    pure (m, .next)
  | .call name sig _ _ _ => do
    let (args, m) ← m.popN sig.inLen
    match W.callTrap m.clock name (args.map Cell.val) with
    | some code => pure (m, .trap code)
    | none =>
      let m ← m.pushAll (callResults W m name (args.map Cell.val) sig.outputs.items)
      pure (m, .next)
  | .load ty => readTop m ty fun a => W.load m.clock m.mem a
  | .store _ => do
    let (v, m) ← m.pop
    let (addr, m) ← m.pop
    pure ({ m with mem := m.mem.record addr.val v.val }, .next)
  | .mmioVolLoad ty _ _ _ _ => readTop m ty fun _ => W.mmioRead m.clock m.mem kind
  | .mmioVolStore _ _ _ _ _ _ | .mmioVolStoreField _ _ _ _ _ _ _ _ _ => do
    let (_, m) ← m.pop
    let (_, m) ← m.pop
    pure (m, .next)
  | .mmioVolLoadField _ fieldTy _ _ _ _ _ _ =>
    readTop m fieldTy fun _ => W.mmioRead m.clock m.mem kind
  | .trapIfFalse code => do
    let (c, m) ← m.pop
    pure (m, if c.val = 0 then .trap code else .next)
  | .br target => pure (m, .goto target)
  | .brIf thenTgt elseTgt => do
    let (c, m) ← m.pop
    pure (m, .goto (if c.val ≠ 0 then thenTgt else elseTgt))
  | .ret => pure (m, .done)

/-- A point of a run: the block, the operation about to run, and the machine. -/
structure Config where
  block : BlockId
  pc : Nat
  machine : Machine

inductive Outcome where
  | running (c : Config)
  | returned (m : Machine)
  | trapped (code : TrapCode)
  | faulted (f : Fault)
  /-- there is no such block, or control fell off its end -/
  | stuck

def Config.follow (c : Config) (m : Machine) : Control → Outcome
  | .next => .running ⟨c.block, c.pc + 1, m.tick⟩
  | .goto tgt => .running ⟨tgt, 0, m.tick.forget⟩
  | .done => .returned m
  | .trap code => .trapped code

def currentOp (w : Word) (c : Config) : Option Op :=
  (findBlock w c.block).bind fun b => b.ops.items[c.pc]?

def wordStep (W : World) (w : Word) (c : Config) : Outcome :=
  match currentOp w c with
  | none => .stuck
  | some op =>
    match execOp W op.kind c.machine with
    | .error f => .faulted f
    | .ok (m, ctl) => c.follow m ctl

/-- The runs of a word from the machines that `start` allows. -/
def wordSystem (W : World) (w : Word) (start : Machine → Prop) : System Config where
  init c := c.block = w.entry ∧ c.pc = 0 ∧ start c.machine
  step c c' := wordStep W w c = .running c'

/-! ## What a stack operation leaves -/

namespace Machine

structure SameBut (m m' : Machine) : Prop where
  locals : m'.locals = m.locals
  mem : m'.mem = m.mem
  clock : m'.clock = m.clock

theorem sameBut_withStack (m : Machine) (stack : BoundedStack Cell 64) :
    m.SameBut { m with stack := stack } := ⟨rfl, rfl, rfl⟩

theorem SameBut.trans {m₁ m₂ m₃ : Machine} (h : m₁.SameBut m₂) (h' : m₂.SameBut m₃) :
    m₁.SameBut m₃ :=
  ⟨h'.locals.trans h.locals, h'.mem.trans h.mem, h'.clock.trans h.clock⟩

theorem of_push {m m' : Machine} {c : Cell} (h : m.push c = .ok m') :
    m'.stack.items = c :: m.stack.items ∧ m.SameBut m' := by
  unfold push at h
  split at h
  · rename_i stack hs
    cases h
    exact ⟨BoundedStack.push_eq_some.mp hs, m.sameBut_withStack _⟩
  · cases h

theorem of_pop {m m' : Machine} {c : Cell} (h : m.pop = .ok (c, m')) :
    m.stack.items = c :: m'.stack.items ∧ m.SameBut m' := by
  unfold pop at h
  split at h
  · rename_i c' stack hs
    cases h
    exact ⟨BoundedStack.pop_eq_some.mp hs, m.sameBut_withStack _⟩
  · cases h

theorem of_popN {m m' : Machine} {n : Nat} {cs : List Cell} (h : m.popN n = .ok (cs, m')) :
    m.stack.items = cs ++ m'.stack.items ∧ cs.length = n ∧ m.SameBut m' := by
  unfold popN at h
  split at h
  · rename_i cs' stack hs
    cases h
    obtain ⟨hitems, hlen⟩ := BoundedStack.popN_eq_some.mp hs
    exact ⟨hitems, hlen, m.sameBut_withStack _⟩
  · cases h

theorem of_pushAll {m m' : Machine} {cs : List Cell} (h : m.pushAll cs = .ok m') :
    m'.stack.items = cs.reverse ++ m.stack.items ∧ m.SameBut m' := by
  unfold pushAll at h
  split at h
  · rename_i stack hs
    cases h
    exact ⟨BoundedStack.pushAll_eq_some.mp hs, m.sameBut_withStack _⟩
  · cases h

end Machine

/-! ## What an operation leaves

One lemma for each shape of operation: the stack before, the stack after, and that
nothing else changed. -/

section Shapes

variable {W : World} {m m' : Machine} {ctl : Control}

theorem of_pushVal {v : Int} {ty : TypeId} (h : pushVal m v ty = .ok (m', ctl)) :
    m'.stack.items = ⟨⟨v, none⟩, ty⟩ :: m.stack.items ∧ m.SameBut m' ∧ ctl = .next := by
  unfold pushVal at h
  simp only [bind_eq_ok, pure_eq_ok, Prod.mk.injEq] at h
  obtain ⟨m₁, hpush, rfl, rfl⟩ := h
  obtain ⟨hitems, hsame⟩ := Machine.of_push hpush
  exact ⟨hitems, hsame, rfl⟩

theorem of_binop {ty : TypeId} {f : Int → Int → Int} (h : binop m ty f = .ok (m', ctl)) :
    ∃ a b rest, m.stack.items = b :: a :: rest ∧
      m'.stack.items = ⟨⟨f a.val b.val, none⟩, ty⟩ :: rest ∧ m.SameBut m' ∧ ctl = .next := by
  unfold binop at h
  simp only [bind_eq_ok, pure_eq_ok, Prod.exists, Prod.mk.injEq] at h
  obtain ⟨b, m₁, hb, a, m₂, ha, m₃, hpush, rfl, rfl⟩ := h
  obtain ⟨hib, hsb⟩ := Machine.of_pop hb
  obtain ⟨hia, hsa⟩ := Machine.of_pop ha
  obtain ⟨hip, hsp⟩ := Machine.of_push hpush
  exact ⟨a, b, m₂.stack.items, by rw [hib, hia], hip, hsb.trans (hsa.trans hsp), rfl⟩

theorem of_readTop {ty : TypeId} {f : Int → Int} (h : readTop m ty f = .ok (m', ctl)) :
    ∃ a rest, m.stack.items = a :: rest ∧
      m'.stack.items = ⟨⟨f a.val, none⟩, ty⟩ :: rest ∧ m.SameBut m' ∧ ctl = .next := by
  unfold readTop at h
  simp only [bind_eq_ok, pure_eq_ok, Prod.exists, Prod.mk.injEq] at h
  obtain ⟨a, m₁, ha, m₂, hpush, rfl, rfl⟩ := h
  obtain ⟨hia, hsa⟩ := Machine.of_pop ha
  obtain ⟨hip, hsp⟩ := Machine.of_push hpush
  exact ⟨a, m₁.stack.items, hia, hip, hsa.trans hsp, rfl⟩

end Shapes

theorem wordStep_eq_running {W : World} {w : Word} {c c' : Config} :
    wordStep W w c = .running c' ↔
      ∃ op m ctl, currentOp w c = some op ∧ execOp W op.kind c.machine = .ok (m, ctl) ∧
        c.follow m ctl = .running c' := by
  unfold wordStep
  cases hop : currentOp w c with
  | none => simp
  | some op =>
    simp only [Option.some.injEq, exists_and_left, exists_eq_left']
    cases hex : execOp W op.kind c.machine with
    | error f => simp
    | ok r =>
      obtain ⟨m, ctl⟩ := r
      simp only [Except.ok.injEq, Prod.mk.injEq]
      constructor
      · intro h
        exact ⟨m, ctl, ⟨rfl, rfl⟩, h⟩
      · rintro ⟨_, _, ⟨rfl, rfl⟩, h⟩
        exact h

theorem follow_eq_running {c c' : Config} {m : Machine} {ctl : Control} :
    c.follow m ctl = .running c' ↔
      (ctl = .next ∧ c' = ⟨c.block, c.pc + 1, m.tick⟩) ∨
        ∃ tgt, ctl = .goto tgt ∧ c' = ⟨tgt, 0, m.tick.forget⟩ := by
  cases ctl <;> simp [Config.follow, eq_comm]

/-- `n` steps of a run, or nothing when it ends before that. -/
def runFor (W : World) (w : Word) : Nat → Config → Option Config
  | 0, c => some c
  | n + 1, c =>
    match wordStep W w c with
    | .running c' => runFor W w n c'
    | _ => none

theorem reachable_runFor {W : World} {w : Word} {start : Machine → Prop} {n : Nat} {c c' : Config}
    (hc : (wordSystem W w start).Reachable c) (h : runFor W w n c = some c') :
    (wordSystem W w start).Reachable c' := by
  induction n generalizing c with
  | zero =>
    cases h
    exact hc
  | succ n ih =>
    unfold runFor at h
    split at h
    · rename_i c₁ hstep
      exact ih (.next hc trivial hstep) h
    · cases h

end Tyu

import Tyu.Ir.Types

/-! # The source fragment and its transcription -/

namespace Tyu

namespace Src

inductive SrcOp where
  | constInt (v : Int64)
  | constBool (b : Bool)
  | dup
  | drop
  | swap
  | add
  | sub
  | mul
  | cmpLt
  | cmpLe
  | cmpGt
  | cmpGe
  | cmpEq
  | cmpNe
  | andB
  | orB
  | notB
  | load
  | store
  | volLoad
  | volStore
  | localGet (slot : UInt16)
  | localSet (slot : UInt16)
  | br (target : Nat)
  | brIf (thenTgt elseTgt : Nat)
  | ret

def DEV : Atom := ⟨"dev", dev_fits⟩

def blockId (target : Nat) : BlockId := ⟨target % 2 ^ 16⟩

def transcribe : SrcOp → OpKind
  | .constInt v => .constI64 v.toInt
  | .constBool b => .constBool b
  | .dup => .dup ⟨0⟩
  | .drop => .drop ⟨0⟩
  | .swap => .swap ⟨0⟩ ⟨0⟩
  | .add => .addI64
  | .sub => .subI64
  | .mul => .mulI64
  | .cmpLt => .cmp ⟨1⟩ .lt
  | .cmpLe => .cmp ⟨1⟩ .le
  | .cmpGt => .cmp ⟨1⟩ .gt
  | .cmpGe => .cmp ⟨1⟩ .ge
  | .cmpEq => .cmp ⟨1⟩ .eq
  | .cmpNe => .cmp ⟨1⟩ .ne
  | .andB => .andBool
  | .orB => .orBool
  | .notB => .notBool
  | .load => .load ⟨0⟩
  | .store => .store ⟨0⟩
  | .volLoad => .mmioVolLoad ⟨0⟩ DEV .plain 64 .none
  | .volStore => .mmioVolStore ⟨0⟩ DEV .plain .plain 64 .none
  | .localGet slot => .localGet slot.toNat ⟨0⟩
  | .localSet slot => .localSet slot.toNat ⟨0⟩
  | .br target => .br (blockId target)
  | .brIf thenTgt elseTgt => .brIf (blockId thenTgt) (blockId elseTgt)
  | .ret => .ret

/-- Stored cells, the last store first, and what is read where nothing was stored. -/
structure Mem where
  cells : List (Int64 × Int64)
  loadOracle : Int64
  mmioOracle : Int64

def Mem.record (m : Mem) (addr val : Int64) : Mem :=
  { m with cells := (addr, val) :: m.cells.filter fun c => c.1 ≠ addr }

def Mem.load (m : Mem) (addr : Int64) : Int64 :=
  ((m.cells.find? fun c => c.1 == addr).map Prod.snd).getD m.loadOracle

def Mem.mmioRead (m : Mem) : Int64 := m.mmioOracle

structure State where
  stack : List Int64
  locals : List Int64
deriving DecidableEq

def State.fresh (localsCap : Nat) : State := ⟨[], List.replicate localsCap 0⟩

def State.push (st : State) (v : Int64) : State := { st with stack := v :: st.stack }

def State.pop (st : State) : Int64 × State :=
  (st.stack.head?.getD 0, { st with stack := st.stack.tail })

def State.getLocal (st : State) (slot : Nat) : Int64 := st.locals.getD slot 0

def State.setLocal (st : State) (slot : Nat) (v : Int64) : State :=
  { st with locals := st.locals.set slot v }

def flag (b : Bool) : Int64 := if b then 1 else 0

/-- Pop two values, the upper one first, and push what `f` makes of them. -/
def State.binop (st : State) (f : Int64 → Int64 → Int64) : State :=
  let (b, st) := st.pop
  let (a, st) := st.pop
  st.push (f a b)

def cmp : SrcOp → Int64 → Int64 → Bool
  | .cmpLt, a, b => decide (a < b)
  | .cmpLe, a, b => decide (a ≤ b)
  | .cmpGt, a, b => decide (a > b)
  | .cmpGe, a, b => decide (a ≥ b)
  | .cmpEq, a, b => a == b
  | .cmpNe, a, b => a != b
  | _, _, _ => false

inductive End where
  | ret (st : State)
  | go (target : Nat) (st : State)
  | brIf (thenTgt elseTgt : Nat) (cond : Int64) (st : State)
  | trap

def stepData (mem : Mem) (op : SrcOp) (st : State) : Mem × State :=
  match op with
  | .constInt v => (mem, st.push v)
  | .constBool b => (mem, st.push (flag b))
  | .dup => (mem, st.push (st.stack.head?.getD 0))
  | .drop => (mem, st.pop.2)
  | .swap =>
    let (b, st) := st.pop
    let (a, st) := st.pop
    (mem, (st.push b).push a)
  | .add => (mem, st.binop (· + ·))
  | .sub => (mem, st.binop (· - ·))
  | .mul => (mem, st.binop (· * ·))
  | .cmpLt | .cmpLe | .cmpGt | .cmpGe | .cmpEq | .cmpNe =>
    (mem, st.binop fun a b => flag (cmp op a b))
  | .andB => (mem, st.binop fun a b => flag (a != 0 && b != 0))
  | .orB => (mem, st.binop fun a b => flag (a != 0 || b != 0))
  | .notB =>
    let (a, st) := st.pop
    (mem, st.push (flag (a == 0)))
  | .load =>
    let (addr, st) := st.pop
    (mem, st.push (mem.load addr))
  | .store =>
    let (v, st) := st.pop
    let (addr, st) := st.pop
    (mem.record addr v, st)
  | .volLoad => (mem, st.pop.2.push mem.mmioRead)
  | .volStore => (mem, st.pop.2.pop.2)
  | .localGet slot => (mem, st.push (st.getLocal slot.toNat))
  | .localSet slot =>
    let (v, st) := st.pop
    (mem, st.setLocal slot.toNat v)
  | .br _ | .brIf _ _ | .ret => (mem, st)

/-- A block up to its first control operation; a block without one returns. -/
def runBlock (mem : Mem) (ops : List SrcOp) (st : State) : Mem × End :=
  match ops with
  | [] => (mem, .ret st)
  | .ret :: _ => (mem, .ret st)
  | .br target :: _ => (mem, .go target st)
  | .brIf thenTgt elseTgt :: _ => (mem, .brIf thenTgt elseTgt st.pop.1 st.pop.2)
  | op :: ops => runBlock (stepData mem op st).1 ops (stepData mem op st).2

abbrev Blocks := List (List SrcOp)

def Blocks.ops (blocks : Blocks) (i : Nat) : List SrcOp := (blocks[i]?).getD []

def runWord (blocks : Blocks) : Nat → Nat → Mem → State → Option State
  | _, 0, _, _ => none
  | entry, fuel + 1, mem, st =>
    match runBlock mem (blocks.ops entry) st with
    | (_, .ret st) => some st
    | (mem, .go target st) => runWord blocks target fuel mem st
    | (mem, .brIf thenTgt elseTgt cond st) =>
      if cond ≠ 0 then runWord blocks thenTgt fuel mem st
      else runWord blocks elseTgt fuel mem st
    | (_, .trap) => none

def cmpKind : CmpKind → Int64 → Int64 → Bool
  | .lt, a, b => decide (a < b)
  | .le, a, b => decide (a ≤ b)
  | .gt, a, b => decide (a > b)
  | .ge, a, b => decide (a ≥ b)
  | .eq, a, b => a == b
  | .ne, a, b => a != b

/-- The operations that the fragment is transcribed to; the others do nothing. -/
def irStep (mem : Mem) (kind : OpKind) (s : State) : Mem × State :=
  match kind with
  | .constI64 v => (mem, s.push (Int64.ofInt v))
  | .constBool b => (mem, s.push (flag b))
  | .dup _ => (mem, s.push (s.stack.head?.getD 0))
  | .drop _ => (mem, s.pop.2)
  | .swap _ _ =>
    let (b, s) := s.pop
    let (a, s) := s.pop
    (mem, (s.push b).push a)
  | .addI64 => (mem, s.binop (· + ·))
  | .subI64 => (mem, s.binop (· - ·))
  | .mulI64 => (mem, s.binop (· * ·))
  | .cmp _ kind => (mem, s.binop fun a b => flag (cmpKind kind a b))
  | .andBool => (mem, s.binop fun a b => flag (a != 0 && b != 0))
  | .orBool => (mem, s.binop fun a b => flag (a != 0 || b != 0))
  | .notBool =>
    let (a, s) := s.pop
    (mem, s.push (flag (a == 0)))
  | .load _ =>
    let (addr, s) := s.pop
    (mem, s.push (mem.load addr))
  | .store _ =>
    let (v, s) := s.pop
    let (addr, s) := s.pop
    (mem.record addr v, s)
  | .mmioVolLoad _ _ _ _ _ => (mem, s.pop.2.push mem.mmioRead)
  | .mmioVolStore _ _ _ _ _ _ => (mem, s.pop.2.pop.2)
  | .localGet slot _ => (mem, s.push (s.getLocal slot))
  | .localSet slot _ =>
    let (v, s) := s.pop
    (mem, s.setLocal slot v)
  | _ => (mem, s)

/-- All operations of a block, one after another, the control operations stepped over. -/
def irData (kinds : List OpKind) (mem : Mem) (s : State) : Mem × State :=
  kinds.foldl (fun p kind =>
    match kind with
    | .ret | .br _ | .brIf _ _ => p
    | kind => irStep p.1 kind p.2) (mem, s)

/-- Run the transcribed word: the data of a block, then where its last operation goes. -/
def irRunWord (blocks : Blocks) : Nat → Nat → Mem → State → Option State
  | _, 0, _, _ => none
  | entry, fuel + 1, mem, st =>
    let kinds := (blocks.ops entry).map transcribe
    let (mem, s) := irData kinds mem st
    match kinds.getLast? with
    | some .ret => some s
    | some (.br target) => irRunWord blocks target.idx fuel mem s
    | some (.brIf thenTgt elseTgt) =>
      if s.pop.1 ≠ 0 then irRunWord blocks thenTgt.idx fuel mem s.pop.2
      else irRunWord blocks elseTgt.idx fuel mem s.pop.2
    | _ => some s

def SrcOp.isControl : SrcOp → Bool
  | .br _ | .brIf _ _ | .ret => true
  | _ => false

theorem irStep_transcribe (mem : Mem) (op : SrcOp) (st : State) :
    irStep mem (transcribe op) st = stepData mem op st := by
  cases op with
  | constInt v =>
    show (mem, st.push (Int64.ofInt v.toInt)) = (mem, st.push v)
    rw [Int64.ofInt_toInt]
  | _ => rfl

theorem irData_cons (kind : OpKind) (kinds : List OpKind) (mem : Mem) (s : State) :
    irData (kind :: kinds) mem s =
      irData kinds (irData [kind] mem s).1 (irData [kind] mem s).2 := rfl

theorem irData_data {op : SrcOp} (h : op.isControl = false) (mem : Mem) (st : State) :
    irData [transcribe op] mem st = stepData mem op st := by
  rw [← irStep_transcribe]
  cases op with
  | br target => cases h
  | brIf thenTgt elseTgt => cases h
  | ret => cases h
  | _ => rfl

theorem irData_control {op : SrcOp} (h : op.isControl = true) (mem : Mem) (st : State) :
    irData [transcribe op] mem st = (mem, st) := by
  cases op with
  | br target => rfl
  | brIf thenTgt elseTgt => rfl
  | ret => rfl
  | _ => cases h

theorem runBlock_data {op : SrcOp} (h : op.isControl = false) (mem : Mem) (ops : List SrcOp)
    (st : State) :
    runBlock mem (op :: ops) st = runBlock (stepData mem op st).1 ops (stepData mem op st).2 := by
  cases op with
  | br target => cases h
  | brIf thenTgt elseTgt => cases h
  | ret => cases h
  | _ => rfl

def ControlLast (ops : List SrcOp) : Prop := ∀ op ∈ ops.dropLast, op.isControl = false

instance (ops : List SrcOp) : Decidable (ControlLast ops) :=
  inferInstanceAs (Decidable (∀ op ∈ ops.dropLast, op.isControl = false))

def leave (last : Option SrcOp) (st : State) : End :=
  match last with
  | some (.br target) => .go target st
  | some (.brIf thenTgt elseTgt) => .brIf thenTgt elseTgt st.pop.1 st.pop.2
  | _ => .ret st

theorem runBlock_eq {ops : List SrcOp} (h : ControlLast ops) (mem : Mem) (st : State) :
    runBlock mem ops st = ((irData (ops.map transcribe) mem st).1,
      leave ops.getLast? (irData (ops.map transcribe) mem st).2) := by
  induction ops generalizing mem st with
  | nil => rfl
  | cons op ops ih =>
    rw [List.map_cons, irData_cons]
    cases ops with
    | nil =>
      by_cases hop : op.isControl = true
      · rw [irData_control hop]
        cases op with
        | br target => rfl
        | brIf thenTgt elseTgt => rfl
        | ret => rfl
        | _ => cases hop
      · have hop : op.isControl = false := by simpa using hop
        rw [irData_data hop, runBlock_data hop]
        cases op with
        | br target => cases hop
        | brIf thenTgt elseTgt => cases hop
        | _ => rfl
    | cons op' ops =>
      have hop : op.isControl = false := h op (List.mem_cons_self ..)
      have hrest : ControlLast (op' :: ops) := fun o ho => h o (List.mem_cons_of_mem _ ho)
      rw [irData_data hop, runBlock_data hop, ih hrest, List.getLast?_cons_cons]

/-! ## Runs -/

structure Config where
  block : Nat
  mem : Mem
  st : State

def next (blocks : Blocks) (c : Config) : Option Config :=
  match runBlock c.mem (blocks.ops c.block) c.st with
  | (mem, .go target st) => some ⟨target, mem, st⟩
  | (mem, .brIf thenTgt elseTgt cond st) =>
    some ⟨if cond ≠ 0 then thenTgt else elseTgt, mem, st⟩
  | _ => none

/-- The blocks that the source interpreter enters with fuel for `n` of them. -/
inductive Enters (blocks : Blocks) : Nat → Config → Config → Prop where
  | here {n : Nat} {c : Config} : Enters blocks (n + 1) c c
  | step {n : Nat} {c c' c'' : Config} (next : next blocks c = some c')
      (enters : Enters blocks n c' c'') : Enters blocks (n + 1) c c''

/-- The control operation of the block is its last one, and goes to a block whose id has
sixteen bits. -/
structure Tidy (blocks : Blocks) (c : Config) : Prop where
  last : ControlLast (blocks.ops c.block)
  target : ∀ c', next blocks c = some c' → c'.block < 2 ^ 16

theorem blockId_idx {target : Nat} (h : target < 2 ^ 16) : (blockId target).idx = target :=
  Nat.mod_eq_of_lt h

def SrcOp.targets : SrcOp → List Nat
  | .br target => [target]
  | .brIf thenTgt elseTgt => [thenTgt, elseTgt]
  | _ => []

theorem leave_target {last : Option SrcOp} {st st' : State} {target : Nat}
    (h : leave last st = .go target st' ∨ ∃ t e c, leave last st = .brIf t e c st' ∧
      target = if c ≠ 0 then t else e) : ∃ op ∈ last, target ∈ op.targets := by
  cases last with
  | none =>
    rcases h with h | ⟨t, e, c, h, -⟩
    · cases h
    · cases h
  | some op =>
    refine ⟨op, rfl, ?_⟩
    cases op with
    | br t =>
      rcases h with h | ⟨t, e, c, h, -⟩
      · cases h
        exact List.mem_singleton_self _
      · cases h
    | brIf thenTgt elseTgt =>
      rcases h with h | ⟨t, e, c, h, rfl⟩
      · cases h
      · cases h
        split
        · exact List.mem_cons_self ..
        · exact List.mem_cons_of_mem _ (List.mem_singleton_self _)
    | _ =>
      rcases h with h | ⟨t, e, c, h, -⟩
      · cases h
      · cases h

/-- A block is tidy, whatever it runs on, when its control operation is the last one and its
targets have sixteen bits. -/
theorem tidy_of_targets {blocks : Blocks} {c : Config} (hlast : ControlLast (blocks.ops c.block))
    (htargets : ∀ op ∈ blocks.ops c.block, ∀ t ∈ op.targets, t < 2 ^ 16) : Tidy blocks c := by
  refine ⟨hlast, fun c' hnext => ?_⟩
  have hto : ∃ op ∈ (blocks.ops c.block).getLast?, c'.block ∈ op.targets := by
    unfold next at hnext
    rw [runBlock_eq hlast] at hnext
    split at hnext
    · next heq =>
      cases hnext
      exact leave_target (.inl (Prod.mk.inj heq).2)
    · next heq =>
      cases hnext
      exact leave_target (.inr ⟨_, _, _, (Prod.mk.inj heq).2, rfl⟩)
    · cases hnext
  obtain ⟨op, hop, ht⟩ := hto
  exact htargets op (List.mem_of_getLast? hop) _ ht

/-- **The fragment and its transcription agree.**  In every run of the source interpreter that
enters only tidy blocks the interpreter of the transcribed word has the same outcome. -/
theorem transcription_agrees (blocks : Blocks) (entry fuel : Nat) (mem : Mem) (st : State)
    (htidy : ∀ c, Enters blocks fuel ⟨entry, mem, st⟩ c → Tidy blocks c) :
    irRunWord blocks entry fuel mem st = runWord blocks entry fuel mem st := by
  induction fuel generalizing entry mem st with
  | zero => rfl
  | succ fuel ih =>
    have hhere := htidy _ .here
    have hlater : ∀ c', next blocks ⟨entry, mem, st⟩ = some c' →
        irRunWord blocks c'.block fuel c'.mem c'.st = runWord blocks c'.block fuel c'.mem c'.st :=
      fun c' hnext => ih c'.block c'.mem c'.st fun c hc => htidy c (.step hnext hc)
    have hblock := runBlock_eq hhere.last mem st
    have htarget := hhere.target
    unfold next at hlater htarget
    simp only [runWord, irRunWord, List.getLast?_map, hblock] at hlater htarget ⊢
    -- the routes of the two interpreters, by the last operation of the block
    cases hlast : (blocks.ops entry).getLast? with
    | none => rfl
    | some op =>
      rw [hlast] at hlater htarget
      cases op with
      | br target =>
        have hlt : target < 2 ^ 16 := htarget _ rfl
        show irRunWord blocks (blockId target).idx fuel _ _ = runWord blocks target fuel _ _
        rw [blockId_idx hlt]
        exact hlater _ rfl
      | brIf thenTgt elseTgt =>
        have hlt := htarget _ rfl
        have hrun := hlater _ rfl
        simp only at hlt hrun
        show (if _ ≠ 0 then irRunWord blocks (blockId thenTgt).idx fuel _ _
          else irRunWord blocks (blockId elseTgt).idx fuel _ _) =
          if _ ≠ 0 then runWord blocks thenTgt fuel _ _ else runWord blocks elseTgt fuel _ _
        split
        · next hc =>
          rw [if_pos hc] at hlt hrun
          rw [blockId_idx hlt]
          exact hrun
        · next hc =>
          rw [if_neg hc] at hlt hrun
          rw [blockId_idx hlt]
          exact hrun
      | _ => rfl

def countUp : Blocks :=
  [[.localSet 1, .br 1], [.localGet 1, .constInt 3, .cmpLt, .brIf 2 3],
    [.localGet 1, .constInt 1, .add, .localSet 1, .br 1], [.localGet 1, .ret]]

theorem countUp_agrees :
    irRunWord countUp 0 9 ⟨[], 0, 0⟩ ⟨[1], [0, 0]⟩ =
      runWord countUp 0 9 ⟨[], 0, 0⟩ ⟨[1], [0, 0]⟩ := by
  have hall : ∀ ops ∈ countUp, ControlLast ops ∧ ∀ op ∈ ops, ∀ t ∈ op.targets, t < 2 ^ 16 := by
    decide
  refine transcription_agrees _ _ _ _ _ fun c _ => ?_
  have hops : ControlLast (countUp.ops c.block) ∧
      ∀ op ∈ countUp.ops c.block, ∀ t ∈ op.targets, t < 2 ^ 16 := by
    unfold Blocks.ops
    cases hc : countUp[c.block]? with
    | none => exact ⟨nofun, nofun⟩
    | some ops => exact hall ops (List.mem_of_getElem? hc)
  exact tidy_of_targets hops.1 hops.2

/-- What follows a control operation is run in the transcribed word. -/
theorem transcription_differs :
    ¬∀ (blocks : Blocks) (entry fuel : Nat) (mem : Mem) (st : State),
      irRunWord blocks entry fuel mem st = runWord blocks entry fuel mem st := by
  intro h
  have hrun := h [[.ret, .constInt 1]] 0 1 ⟨[], 0, 0⟩ (State.fresh 0)
  exact absurd hrun (by decide)

/-- A block id that does not fit comes down to another block. -/
example : runWord [[.br 65536]] 0 3 ⟨[], 0, 0⟩ (State.fresh 0) = some (State.fresh 0) ∧
    irRunWord [[.br 65536]] 0 3 ⟨[], 0, 0⟩ (State.fresh 0) = none := by decide

end Src

end Tyu

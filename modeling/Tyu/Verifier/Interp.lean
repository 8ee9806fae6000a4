import Tyu.Verifier.Interval

/-! # Abstract interpretation of the IR -/

namespace Tyu

def MAX_SLOTS : Nat := 64

inductive Origin where
  | arg (i : Nat)
  | loc (i : Nat)
  | computed
  | top
deriving DecidableEq

structure Slot where
  iv : Interval
  origin : Origin
deriving DecidableEq

namespace Slot

def top : Slot := ⟨.top, .top⟩

def computed (iv : Interval) : Slot := ⟨iv, .computed⟩

end Slot

/-- The interface the transfer table steps memory against.  The access width is in
bits. -/
class MemModel (M : Type) where
  load : M → Interval → Nat → Interval
  store : M → Interval → Interval → M
  apertureRead : M → Atom → Nat → Interval × M
  apertureWrite : M → Atom → Interval → M

structure FlatMem where

instance : MemModel FlatMem where
  load _ _ _ := .top
  store m _ _ := m
  apertureRead m _ _ := (.top, m)
  apertureWrite m _ _ := m

class BlindMem (M : Type) [MemModel M] : Prop where
  load_top : ∀ (m : M) (a : Interval) (w : Nat), MemModel.load m a w = .top
  read_top : ∀ (m : M) (p : Atom) (w : Nat), (MemModel.apertureRead m p w).1 = .top

instance : BlindMem FlatMem := ⟨fun _ _ _ => rfl, fun _ _ _ => rfl⟩

abbrev SubtypeRange := TypeId → Option (Int × Int)

structure State where
  stack : List Slot
  locals : List Slot

namespace State

def fresh (localsCap : Nat) : State := ⟨[], List.replicate (min localsCap MAX_SLOTS) .top⟩

def calleeEntry (inputs localsCap : Nat) : State :=
  ⟨((List.range inputs).map fun i => ⟨.top, .arg i⟩).reverse, (fresh localsCap).locals⟩

def topInterval (s : State) : Interval :=
  match s.stack with
  | [] => .bottom
  | x :: _ => x.iv

/-- The `n` topmost intervals, lowest of them first. -/
def topNIntervals (s : State) (n : Nat) : List Interval := (s.stack.take n).reverse.map Slot.iv

/-- Keep the `len` lowest entries. -/
def truncateStack (s : State) (len : Nat) : State :=
  { s with stack := s.stack.drop (s.stack.length - len) }

/-- A push on a full abstract stack first forgets the entries above the 63rd. -/
def push (s : State) (slot : Slot) : State :=
  if MAX_SLOTS ≤ s.stack.length then
    { s with stack := slot :: s.stack.drop (s.stack.length - (MAX_SLOTS - 1)) }
  else { s with stack := slot :: s.stack }

def pushTop (s : State) : State := s.push .top

def popVal (s : State) : Slot × State :=
  match s.stack with
  | [] => (.top, s)
  | x :: rest => (x, { s with stack := rest })

/-- Pop `n` slots, the topmost first. -/
def popVals (s : State) : Nat → List Slot × State
  | 0 => ([], s)
  | n + 1 =>
    let (x, s) := s.popVal
    let (xs, s) := s.popVals n
    (x :: xs, s)

def pushVals (s : State) (slots : List Slot) : State := slots.foldl push s

/-- The call of a contract predicate: its arguments stay, its further outputs are
unknown. -/
def predicateCall (s : State) (inLen outLen : Nat) : State :=
  let (args, s) := s.popVals inLen
  (s.pushVals args.reverse).pushVals (List.replicate (outLen - inLen) (.computed .top))

def pop2Val (s : State) : Slot × Slot × State :=
  let (second, s) := s.popVal
  let (first, s) := s.popVal
  (first, second, s)

def binop (s : State) (f : Interval → Interval → Interval) : State :=
  let (first, second, s) := s.pop2Val
  s.push (.computed (f first.iv second.iv))

def step {M : Type} [MemModel M] (s : State) (op : OpKind) (sr : SubtypeRange) (wordBits : Nat)
    (mem : M) : State × M :=
  match op with
  | .constI64 v => (s.push (.computed (.constVal v)), mem)
  | .constBool b => (s.push (.computed (.constVal (boolVal b))), mem)
  | .constStr _ | .addrOf _ _ _ | .mmioPlace _ _ _ | .scopedEnter _ _ | .taskSpawn _ _ =>
    (s.pushTop, mem)
  | .ptrAddConst _ _ => (s.popVal.2.pushTop, mem)
  | .ptrAddIndex _ _ => (s.pop2Val.2.2.pushTop, mem)
  | .dup _ =>
    let (v, s) := s.popVal
    ((s.push v).push v, mem)
  | .drop _ => (s.popVal.2, mem)
  | .swap _ _ =>
    let (a, b, s) := s.pop2Val
    ((s.push b).push a, mem)
  | .addI64 => (s.binop .add, mem)
  | .subI64 => (s.binop .sub, mem)
  | .mulI64 => (s.binop .mul, mem)
  | .cmp _ kind => (s.binop fun a b => boolIv (triCmp a b kind), mem)
  | .andBool => (s.binop fun a b => boolIv (triAnd (triFromBoolIv a) (triFromBoolIv b)), mem)
  | .orBool => (s.binop fun a b => boolIv (triOr (triFromBoolIv a) (triFromBoolIv b)), mem)
  | .notBool =>
    let (a, s) := s.popVal
    (s.push (.computed (boolIv (triNot (triFromBoolIv a.iv)))), mem)
  | .interruptDisable | .interruptEnable => (s, mem)
  | .localSet slot _ =>
    let (v, s) := s.popVal
    ({ s with locals := s.locals.set slot v }, mem)
  | .localGet slot _ => (s.push (s.locals.getD slot .top), mem)
  | .cast _ tgt =>
    let (v, s) := s.popVal
    let iv := match sr tgt with
      | some (lo, hi) => v.iv.castNarrow lo hi
      | none => v.iv
    (s.push (.computed iv), mem)
  | .bitcast _ _ =>
    let (v, s) := s.popVal
    (s.push v, mem)
  | .call _ sig _ _ _ =>
    ((s.popVals sig.inLen).2.pushVals (List.replicate sig.outLen (.computed .top)), mem)
  | .load _ =>
    let (addr, s) := s.popVal
    (s.push (.computed (MemModel.load mem addr.iv wordBits)), mem)
  | .store _ =>
    let (addr, val, s) := s.pop2Val
    (s, MemModel.store mem addr.iv val.iv)
  | .mmioVolLoad _ place _ _ _ | .mmioVolLoadField _ _ place _ _ _ _ _ =>
    let (v, mem) := MemModel.apertureRead mem place wordBits
    (s.popVal.2.push (.computed v), mem)
  | .mmioVolStore _ place _ _ _ _ | .mmioVolStoreField _ _ place _ _ _ _ _ _ =>
    let (_, val, s) := s.pop2Val
    (s, MemModel.apertureWrite mem place val.iv)
  | .trapIfFalse _ => (s.popVal.2, mem)
  | .brIf _ _ => (s.popVal.2, mem)
  | .br _ | .ret => (s, mem)

def steps {M : Type} [MemModel M] (s : State) (ops : List Op) (sr : SubtypeRange) (wordBits : Nat)
    (mem : M) : State × M :=
  ops.foldl (fun p op => p.1.step op.kind sr wordBits p.2) (s, mem)

end State

/-- Combine two stacks entry by entry from the bottom, as far as both reach and at most
`n` entries. -/
def zipBottom (f : Slot → Slot → Slot) (n : Nat) (a b : List Slot) : List Slot :=
  ((a.reverse.zipWith f b.reverse).take n).reverse

/-- Combine two lists entry by entry as far as either reaches; a missing entry is `d`. -/
def zipPad (f : Slot → Slot → Slot) (d : Slot) (a b : List Slot) : List Slot :=
  (List.range (max a.length b.length)).map fun i => f (a.getD i d) (b.getD i d)

def joinOrigin (a b : Origin) : Origin := if a = b then a else .computed

def joinSlot (x y : Slot) : Slot := ⟨x.iv.join y.iv, joinOrigin x.origin y.origin⟩

def widenSlot (old new : Slot) : Slot :=
  ⟨if new.iv.subsetOf old.iv then old.iv else .top,
    if old.origin = .top ∨ old.origin = new.origin then old.origin else .computed⟩

/-- The join of two states, their stacks cut to `stackLen`. -/
def hullState (a b : State) (stackLen : Nat) : State :=
  ⟨zipBottom joinSlot stackLen a.stack b.stack, zipPad joinSlot .top a.locals b.locals⟩

/-- Back-edge widening, the stacks cut to `stackLen`. -/
def widenState (header bodyEnd : State) (stackLen : Nat) : State :=
  ⟨zipBottom widenSlot stackLen header.stack bodyEnd.stack,
    zipPad widenSlot .top header.locals bodyEnd.locals⟩

/-- The join of an incoming flow into a block's placeholder on first arrival; a missing
stack entry is unreachable. -/
def mergeFirstVisit (old incoming : State) : State :=
  ⟨(zipPad joinSlot (.computed .bottom) old.stack.reverse incoming.stack.reverse).reverse,
    zipPad joinSlot .top old.locals incoming.locals⟩

structure Linear where
  wordBits : Nat
  blocks : List State

namespace Linear

def new (wordBits inputs localsCap : Nat) : Linear := ⟨wordBits, [.calleeEntry inputs localsCap]⟩

/-- Add fresh states until block `idx` exists. -/
def extend (l : Linear) (idx : Nat) : Linear :=
  { l with blocks := l.blocks ++ List.replicate (idx + 1 - l.blocks.length) (.fresh 64) }

def stateOrFresh (l : Linear) (b : BlockId) : State := l.blocks.getD b.idx (.fresh 64)

def setState (l : Linear) (b : BlockId) (s : State) : Linear :=
  let l := l.extend b.idx
  { l with blocks := l.blocks.set b.idx s }

def step {M : Type} [MemModel M] (l : Linear) (b : BlockId) (op : OpKind) (sr : SubtypeRange)
    (mem : M) : Linear × M :=
  let (s, mem) := (l.stateOrFresh b).step op sr l.wordBits mem
  (l.setState b s, mem)

def predicateCall (l : Linear) (b : BlockId) (inLen outLen : Nat) : Linear :=
  l.setState b ((l.stateOrFresh b).predicateCall inLen outLen)

def seedFrom (l : Linear) (target src : BlockId) (stackLen : Nat) : Linear :=
  l.setState target ((l.stateOrFresh src).truncateStack stackLen)

def seedJoin (l : Linear) (target a b : BlockId) (stackLen : Nat) : Linear :=
  l.setState target (hullState (l.stateOrFresh a) (l.stateOrFresh b) stackLen)

def widenLoop (l : Linear) (header bodyEnd : BlockId) (stackLen : Nat) : Linear :=
  l.setState header (widenState (l.stateOrFresh header) (l.stateOrFresh bodyEnd) stackLen)

end Linear

def blockSuccessors (b : Block) : List BlockId :=
  match b.ops.items.getLast? with
  | some ⟨.br target, _⟩ => [target]
  | some ⟨.brIf thenTgt elseTgt, _⟩ => [thenTgt, elseTgt]
  | _ => []

/-- The state of the walk over the block graph.  `visits` and `states` are indexed by
block id; the next block to visit is at the head of the worklist. -/
structure CfgState (M : Type) where
  states : List State
  visits : List Nat
  worklist : List BlockId
  mem : M

def cfgArrive {M : Type} (outLen : Nat) (flow : State) (c : CfgState M) (tgt : BlockId) :
    Option (CfgState M) := do
  let count ← c.visits[tgt.idx]?
  let old ← c.states[tgt.idx]?
  let new := if 0 < count then widenState old flow outLen else mergeFirstVisit old flow
  pure { c with states := c.states.set tgt.idx new, worklist := tgt :: c.worklist }

/-- One visit of the walk, or nothing when an index is out of range, where the source
panics. -/
def cfgVisit {M : Type} [MemModel M] (w : Word) (sr : SubtypeRange) (wordBits : Nat)
    (c : CfgState M) : Option (CfgState M) :=
  match c.worklist with
  | [] => some c
  | bid :: rest => do
    let count ← c.visits[bid.idx]?
    let c := { c with visits := c.visits.set bid.idx (count + 1), worklist := rest }
    match w.blocks.items[bid.idx]? with
    | none => some c
    | some block => do
      let s ← c.states[bid.idx]?
      let (flow, mem) := s.steps block.ops.items sr wordBits c.mem
      (blockSuccessors block).foldlM (cfgArrive w.sig.outLen flow) { c with mem := mem }

/-- The walk for at most `budget` visits. -/
def cfgLoop {M : Type} [MemModel M] (w : Word) (sr : SubtypeRange) (wordBits : Nat) :
    Nat → CfgState M → Option (CfgState M)
  | 0, c => some c
  | budget + 1, c =>
    if c.worklist.isEmpty then some c
    else (cfgVisit w sr wordBits c).bind (cfgLoop w sr wordBits budget)

def cfgBlocks (w : Word) : Nat := max w.blocks.len 1

def cfgBudget (w : Word) : Nat := cfgBlocks w * 4 + 2

def cfgInit {M : Type} (w : Word) (mem : M) : CfgState M where
  states := State.calleeEntry w.sig.inLen 64 :: List.replicate (cfgBlocks w - 1) (.fresh 64)
  visits := List.replicate (cfgBlocks w) 0
  worklist := [⟨0⟩]
  mem := mem

def runCfg {M : Type} [MemModel M] (w : Word) (sr : SubtypeRange) (wordBits : Nat) (mem : M) :
    Option (CfgState M) :=
  cfgLoop w sr wordBits (cfgBudget w) (cfgInit w mem)

def endsInRet (b : Block) : Bool :=
  match b.ops.items.getLast? with
  | some ⟨.ret, _⟩ => true
  | _ => false

/-- Fold the blocks that return, from position `i` on, into the exit state. -/
def exitFold {M : Type} [MemModel M] (states : List State) (sr : SubtypeRange) (wordBits : Nat) :
    Nat → List Block → Option State → M → Option State × M
  | _, [], acc, mem => (acc, mem)
  | i, b :: rest, acc, mem =>
    if endsInRet b then
      let (flow, mem) := (states.getD i (.fresh 1)).steps b.ops.items sr wordBits mem
      let acc := match acc with
        | none => flow
        | some a => mergeFirstVisit a flow
      exitFold states sr wordBits (i + 1) rest (some acc) mem
    else exitFold states sr wordBits (i + 1) rest acc mem

def exitState {M : Type} [MemModel M] (states : List State) (w : Word) (sr : SubtypeRange)
    (wordBits : Nat) (mem : M) : State :=
  ((exitFold states sr wordBits 0 w.blocks.items none mem).1).getD (.fresh 1)

end Tyu

import Tyu.Lib.Ring
import Tyu.Ir.Types
import Tyu.Lib.Runs

/-! # The hosted task scheduler and its channels -/

namespace Tyu.Tasks

open Lib

abbrev Task := Fin 16

abbrev Worker := Fin 4

inductive TaskState where
  | free | ready | running | exited | blocked
deriving DecidableEq

/-- The tables of the scheduler; what a switch saves of a task is elsewhere. -/
structure Scheduler where
  current : Task
  worker : Worker
  state : Task → TaskState
  w : Worker → Ring Task 8
  g : Ring Task 16

namespace Scheduler

def start : Scheduler where
  current := 0
  worker := 0
  state := fun _ => .free
  w := fun _ => .empty fun _ => 0
  g := .empty fun _ => 0

def setState (s : Scheduler) (t : Task) (st : TaskState) : Scheduler :=
  { s with state := Function.update s.state t st }

def enqueue (s : Scheduler) (t : Task) : Option Scheduler :=
  match (s.w s.worker).offer t with
  | some r => some { s with w := Function.update s.w s.worker r }
  | none =>
    match s.g.offer t with
    | some r => some { s with g := r }
    | none => none

def pollWorker (s : Scheduler) (k : Worker) : Option (Task × Worker × Scheduler) :=
  match (s.w k).poll with
  | some (t, r) => some (t, k, { s with w := Function.update s.w k r })
  | none => none

def pick (s : Scheduler) : Option (Task × Worker × Scheduler) :=
  match s.pollWorker s.worker with
  | some found => some found
  | none =>
    match s.g.poll with
    | some (t, r) => some (t, s.worker, { s with g := r })
    | none => [1, 2, 3].findSome? fun k => s.pollWorker (s.worker + k)

/-- The state after the current task has made room: a running task is ready, and in a
ring where one has room. -/
def park (s : Scheduler) : Scheduler :=
  let rbx := s.current
  let s := if s.state rbx = .free then s.setState rbx .running else s
  if s.state rbx = .running then
    let s := s.setState rbx .ready
    (s.enqueue rbx).getD s
  else s

/-- `__task_yield`: switch to the next task.  Where there is none, a running task goes
on, a blocked one is a deadlock, and the routine returns to one that has exited. -/
def yield (s : Scheduler) : Except TrapCode Scheduler :=
  match s.park.pick with
  | some (t, k, s') => .ok { s'.setState t .running with current := t, worker := k }
  | none =>
    match s.state s.current with
    | .free | .running => .ok (s.park.setState s.current .running)
    | .blocked => .error .deadlock
    | .ready | .exited => .ok s.park

/-- `__task_spawn`: the first free slot but the main task's. -/
def spawn (s : Scheduler) : Except TrapCode (Task × Scheduler) :=
  match (List.finRange 16).find? fun t => 1 ≤ t.val && s.state t == .free with
  | none => .error .unreachable
  | some t =>
    match (s.setState t .ready).enqueue t with
    | some s' => .ok (t, s')
    | none => .error .unreachable

def wake (s : Scheduler) (t : Task) : Except TrapCode Scheduler :=
  let s := s.setState t .ready
  match s.g.offer t with
  | some r => .ok { s with g := r }
  | none => .error .taskQueueOverflow

end Scheduler

/-!
## Channels and the programs that use them

A channel is a ring of sixty-four words and two rings of eight waiting tasks.  A send to
a full channel and a receive from an empty one wait: the task goes into the wait ring, is
blocked, and yields; once it runs again it tries again.  A send wakes one waiting
receiver and a receive one waiting sender, through the global ring.

A value wider than a word is sent as a pointer to a copy in fresh pages.  The copy loop
leaves its destination register behind the copy, and that register is what is sent.

A step is what the running task does up to its next switch.  Which operation a task
performs when its own code runs is free; a task that was switched away from inside a
runtime routine goes on there.
-/

abbrev Reg := BitVec 64

abbrev Chan := Fin 16

inductive ChannelPayloadKind where
  | primitive (bits : Nat) (signed isBool : Bool)
  | boxCopy (bytes : Nat)
  | word
deriving DecidableEq

def channelPayloadKind (w : Word) (ty : TypeId) : Option ChannelPayloadKind :=
  match storageBitsSigned w ty 64 with
  | some (bits, signed) =>
    let prim := (w.types.get? ty.idx).bind fun name => Prim.fromTypeName name.text
    some (.primitive bits signed (prim == some .bool))
  | none =>
    if (w.typeClasses.get? ty.idx).getD .other = .slice then none
    else
      match w.typeSizes.get? ty.idx with
      | none | some 0 => none
      | some size => if 8 < size then some (.boxCopy size) else some .word

def maskForBits (bits : Nat) : Reg :=
  if 64 ≤ bits then BitVec.allOnes 64 else (1 : Reg) <<< bits - 1

def channelCanonPrim (bits : Nat) (signed isBool : Bool) (v : Reg) : Reg :=
  let v :=
    if bits < 64 then
      let v := v &&& maskForBits bits
      if signed then (v <<< (64 - bits)).sshiftRight (64 - bits) else v
    else v
  if isBool then (if v = 0 then 0 else 1) else v

/-- What a receive makes of the word it took, and what a send makes of a word that needs
no box. -/
def ChannelPayloadKind.canon : ChannelPayloadKind → Reg → Reg
  | .primitive bits signed isBool, v => channelCanonPrim bits signed isBool v
  | .boxCopy _, v => v
  | .word, v => v

def ChannelPayloadKind.isBox : ChannelPayloadKind → Bool
  | .boxCopy _ => true
  | _ => false

abbrev Memory := Reg → Option UInt8

def readBytes (mem : Memory) (a : Reg) : Nat → Option (List UInt8)
  | 0 => some []
  | n + 1 => do
    let b ← mem a
    let rest ← readBytes mem (a + 1) n
    some (b :: rest)

/-- Fresh pages for `bytes` bytes, all zero. -/
def mapPages (mem : Memory) (page : Reg) (bytes : Nat) : Memory := fun a =>
  if (a - page).toNat < (bytes + 4095) / 4096 * 4096 then some 0 else mem a

def movsb (mem : Memory) (rsi rdi : Reg) : Nat → Option (Memory × Reg)
  | 0 => some (mem, rdi)
  | n + 1 =>
    match mem rsi with
    | none => none
    | some b => movsb (Function.update mem rdi (some b)) (rsi + 1) (rdi + 1) n

inductive End where
  | trap (code : TrapCode)
  | exit (status : Nat)
  | segfault

/-- Copy a value into the pages the system maps at `page`, where a negative answer is an
error; the register that is sent afterwards. -/
def channelBoxArray (mem : Memory) (bytes : Nat) (src page : Reg) : Except End (Reg × Memory) :=
  if page.msb then .error (.trap .unreachable)
  else
    match movsb (mapPages mem page bytes) src page bytes with
    | none => .error .segfault
    | some (mem, rdi) => .ok (rdi, mem)

inductive Value where
  | word (v : Reg)
  | block (bytes : Option (List UInt8))
deriving DecidableEq

def ChannelPayloadKind.value (k : ChannelPayloadKind) (mem : Memory) (v : Reg) : Value :=
  match k with
  | .boxCopy bytes => .block (readBytes mem v bytes)
  | _ => .word v

def ChannelPayloadKind.canonical (k : ChannelPayloadKind) : Value → Value
  | .word v => .word (k.canon v)
  | .block bytes => .block bytes

/-- A value on its way: its type's kind, what it was, and the word in the channel. -/
structure Message where
  kind : ChannelPayloadKind
  value : Value
  word : Reg
deriving DecidableEq

def message (mem : Memory) (k : ChannelPayloadKind) (v page : Reg) : Except End (Message × Memory) :=
  match k with
  | .boxCopy bytes =>
    match channelBoxArray mem bytes v page with
    | .error e => .error e
    | .ok (word, mem') => .ok (⟨k, k.value mem v, word⟩, mem')
  | k => .ok (⟨k, k.value mem v, k.canon v⟩, mem)

/-! ## The machine -/

structure Channel where
  inuse : Bool
  buf : Ring Reg 64
  waitRecv : Ring Task 8
  waitSend : Ring Task 8

inductive Resume where
  | next
  | send (c : Chan) (msg : Message)
  | recv (c : Chan) (kind : Option ChannelPayloadKind)
  | join (task : Task)
  | exit

structure Machine where
  sched : Scheduler
  chans : Chan → Channel
  chanNext : Chan
  resume : Task → Resume
  mem : Memory

inductive Event where
  | sent (c : Chan) (msg : Message)
  | received (c : Chan) (msg : Message)

inductive Outcome where
  | run (m : Machine) (event : Option Event)
  | ended (e : End)

/-- What a task's own code does next; a sleep ends in a yield.  A send and a receive name
the word they are compiled in and the type of the payload, a send the answer of the system
to a request for pages. -/
inductive Op where
  | write (a : Reg) (b : UInt8)
  | spawn
  | yield
  | join (task : Reg)
  | finish (value : Reg)
  | make
  | send (c v : Reg) (w : Word) (ty : TypeId) (page : Reg)
  | recv (c : Reg) (w : Word) (ty : TypeId)

namespace Machine

def start (mem : Memory) : Machine where
  sched := .start
  chans := fun _ => ⟨false, .empty fun _ => 0, .empty fun _ => 0, .empty fun _ => 0⟩
  chanNext := 0
  resume := fun _ => .next
  mem := mem

def setChan (m : Machine) (c : Chan) (ch : Channel) : Machine :=
  { m with chans := Function.update m.chans c ch }

def setResume (m : Machine) (t : Task) (r : Resume) : Machine :=
  { m with resume := Function.update m.resume t r }

/-- The running task calls `__task_yield` from a place where `r` goes on. -/
def switch (m : Machine) (r : Resume) : Outcome :=
  match m.sched.yield with
  | .error code => .ended (.trap code)
  | .ok s => .run { m.setResume m.sched.current r with sched := s } none

def goOn (m : Machine) (event : Option Event) : Outcome :=
  .run (m.setResume m.sched.current .next) event

/-- `__task_join`: wait until a task has exited, and free its slot. -/
def taskJoin (m : Machine) (t : Task) : Outcome :=
  if m.sched.state t = .exited then goOn { m with sched := m.sched.setState t .free } none
  else m.switch (.join t)

/-- `__task_exit`: where the yield returns, the program exits. -/
def taskExit (m : Machine) : Outcome :=
  let t := m.sched.current
  match switch { m with sched := m.sched.setState t .exited } .exit with
  | .run m e => if m.sched.current = t then .ended (.exit 0) else .run m e
  | .ended e => .ended e

/-- The word of the running task returns: the main task's ends the program with its
value, another's ends the task. -/
def finish (m : Machine) (value : Reg) : Outcome :=
  if m.sched.current = 0 then .ended (.exit (value.toNat % 256)) else m.taskExit

def wait (m : Machine) (ring : Ring Task 8) (put : Ring Task 8 → Machine) (r : Resume) : Outcome :=
  match ring.offer m.sched.current with
  | none => .ended (.trap .unreachable)
  | some ring =>
    let m := put ring
    switch { m with sched := m.sched.setState m.sched.current .blocked } r

def wakeFirst (m : Machine) (ring : Ring Task 8) (put : Ring Task 8 → Machine) (e : Event) : Outcome :=
  match ring.poll with
  | none => m.goOn (some e)
  | some (t, ring) =>
    let m := put ring
    match m.sched.wake t with
    | .error code => .ended (.trap code)
    | .ok s => goOn { m with sched := s } (some e)

def sendRetry (m : Machine) (c : Chan) (msg : Message) : Outcome :=
  let ch := m.chans c
  match ch.buf.offer msg.word with
  | none => m.wait ch.waitSend (fun r => m.setChan c { ch with waitSend := r }) (.send c msg)
  | some buf =>
    let ch := { ch with buf := buf }
    (m.setChan c ch).wakeFirst ch.waitRecv (fun r => m.setChan c { ch with waitRecv := r })
      (.sent c msg)

def recvRetry (m : Machine) (c : Chan) (kind : Option ChannelPayloadKind) : Outcome :=
  let ch := m.chans c
  match ch.buf.poll with
  | none => m.wait ch.waitRecv (fun r => m.setChan c { ch with waitRecv := r }) (.recv c kind)
  | some (word, buf) =>
    match kind with
    | none => .ended (.trap .unreachable)
    | some k =>
      let ch := { ch with buf := buf }
      (m.setChan c ch).wakeFirst ch.waitSend (fun r => m.setChan c { ch with waitSend := r })
        (.received c ⟨k, k.value m.mem (k.canon word), word⟩)

def liveChan (m : Machine) (c : Reg) : Option Chan :=
  if h : c.toNat < 16 then
    if (m.chans ⟨c.toNat, h⟩).inuse then some ⟨c.toNat, h⟩ else none
  else none

def chanSend (m : Machine) (c v : Reg) (w : Word) (ty : TypeId) (page : Reg) : Outcome :=
  match channelPayloadKind w ty with
  | none => .ended (.trap .unreachable)
  | some k =>
    match message m.mem k v page with
    | .error e => .ended e
    | .ok (msg, mem) =>
      match m.liveChan c with
      | none => .ended (.trap .unreachable)
      | some c => sendRetry { m with mem := mem } c msg

def chanRecv (m : Machine) (c : Reg) (w : Word) (ty : TypeId) : Outcome :=
  match m.liveChan c with
  | none => .ended (.trap .unreachable)
  | some c => m.recvRetry c (channelPayloadKind w ty)

/-- Take the first slot not in use from `rax` on, round the table once. -/
def chanMakeScan (m : Machine) (rax : Chan) : Nat → Option Chan
  | 0 => none
  | n + 1 => if (m.chans rax).inuse then m.chanMakeScan (rax + 1) n else some rax

def chanMake (m : Machine) : Outcome :=
  match m.chanMakeScan m.chanNext 16 with
  | none => .ended (.trap .unreachable)
  | some c =>
    let ch := m.chans c
    goOn { m.setChan c { ch with inuse := true, buf := ch.buf.clear } with chanNext := c + 1 } none

def perform (m : Machine) : Op → Outcome
  | .write a b =>
    match m.mem a with
    | none => .ended .segfault
    | some _ => goOn { m with mem := Function.update m.mem a (some b) } none
  | .spawn =>
    match m.sched.spawn with
    | .error code => .ended (.trap code)
    | .ok (t, s) => goOn ({ m with sched := s }.setResume t .next) none
  | .yield => m.switch .next
  | .join t => if h : t.toNat < 16 then m.taskJoin ⟨t.toNat, h⟩ else .ended (.trap .unreachable)
  | .finish value => m.finish value
  | .make => m.chanMake
  | .send c v w ty page => m.chanSend c v w ty page
  | .recv c w ty => m.chanRecv c w ty

/-- One step: the routine the task is in goes on, or the task does `op`. -/
def next (m : Machine) (op : Op) : Outcome :=
  match m.resume m.sched.current with
  | .next => m.perform op
  | .send c msg => m.sendRetry c msg
  | .recv c kind => m.recvRetry c kind
  | .join t => m.taskJoin t
  | .exit => .ended (.exit 0)

end Machine

structure History where
  machine : Machine
  log : List Event

def History.sent (h : History) (c : Chan) : List Message :=
  h.log.filterMap fun e =>
    match e with
    | .sent d msg => if d = c then some msg else none
    | .received _ _ => none

def History.received (h : History) (c : Chan) : List Message :=
  h.log.filterMap fun e =>
    match e with
    | .received d msg => if d = c then some msg else none
    | .sent _ _ => none

/-- All interleavings of operations that satisfy `ok`, from any memory. -/
def system (ok : Op → Prop) : System History where
  init h := (∃ mem, h.machine = .start mem) ∧ h.log = []
  step h h' := ∃ op e, ok op ∧ h.machine.next op = .run h'.machine e ∧ h'.log = h.log ++ e.toList

def History.run (h : History) : List Op → Option History
  | [] => some h
  | op :: ops =>
    match h.machine.next op with
    | .run m e => History.run ⟨m, h.log ++ e.toList⟩ ops
    | .ended _ => none

theorem History.run_reachable {ok : Op → Prop} :
    ∀ {ops : List Op} {h h' : History}, (system ok).Reachable h → (∀ op ∈ ops, ok op) →
      h.run ops = some h' → (system ok).Reachable h'
  | [], h, h', hr, _, hrun => Option.some.inj hrun ▸ hr
  | op :: ops, h, h', hr, hok, hrun => by
    unfold History.run at hrun
    split at hrun
    · next m e hnext =>
      have hstep : (system ok).Reachable ⟨m, h.log ++ e.toList⟩ :=
        .next hr trivial ⟨op, e, hok op List.mem_cons_self, hnext, rfl⟩
      exact run_reachable hstep (fun op hop => hok op (List.mem_cons_of_mem _ hop)) hrun
    · exact absurd hrun (by simp)

end Tyu.Tasks

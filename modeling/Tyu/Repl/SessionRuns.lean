import Tyu.Repl.Does

/-!
# Sessions

A session keeps a data stack, a heap and the output so far. A phrase runs over them; when it does
not succeed, its effects are taken back and the stack of its start is restored, while its output
stays.
-/

namespace Tyu.Repl

open Lib Lib.Wire

variable {σ : Type}

structure Checkpoint where
  stack : List Slot
  fuel : Nat

structure Suspended where
  state : ExecState
  entryStack : List Slot

inductive Status where
  | ok
  | compileError (code : Nat) (message : String)
  | trapped (code : TrapCode) (span : Span) (detail : Option TrapDetail)
  | fuelExhausted (code : Nat) (span : Span) (message : String)
  | internal (f : Fault)
  | exited (code : Int64)
  | deviceError (code : Nat) (span : Span) (aperture : Option Nat)

structure Session where
  stack : List Slot
  heap : RegionHeap
  outTotal : Bytes
  fuel : Nat
  elideGuards : Bool
  compiled : Option Compiled
  suspended : Option Suspended

def E9150_FUEL : Nat := 9150
def E9155_PHRASE : Nat := 9155

def REPL_PHRASE : Atom := ⟨"repl-phrase", by decide⟩

def DEFAULT_FUEL : Nat := 100000000

def Session.new (fuel : Nat) : Session where
  stack := []
  heap := .new
  outTotal := []
  fuel := fuel
  elideGuards := false
  compiled := none
  suspended := none

/-- Take the effects of the phrase back and restore its checkpoint; nothing where a
compensation panics. -/
def rollback (st : ExecState) (snap : Checkpoint) : Option ExecState :=
  (heapLog.rollback st.core.journal st.core.heap).map fun h =>
    { st with
      core := { st.core with
        heap := h, journal := [], frames := [], resources := [], stack := snap.stack }
      fuel := snap.fuel }

namespace Session

def keep (s : Session) (st : ExecState) (out : Bytes) : Session :=
  { s with stack := st.core.stack, heap := st.core.heap, outTotal := s.outTotal ++ out }

/-- Commit a phrase, or roll it back; a phrase out of fuel is set aside first.  Nothing where
the engine or a compensation panics. -/
def settle (s : Session) (o : Outcome) (st : ExecState) (snap : Checkpoint) :
    Option (Status × Session) :=
  let undo (status : Status) (s : Session) : Option (Status × Session) :=
    (rollback st snap).map fun st => (status, s.keep st o.out)
  match o.ending with
  | .stopped .done => some (.ok, s.keep st o.out)
  | .stopped (.exit code) => some (.exited code, s.keep st o.out)
  | .stopped (.trap code span) => undo (.trapped code span none) s
  | .stopped (.contract span detail) => undo (.trapped .contractFail span (some detail)) s
  | .stopped (.device code span aperture) => undo (.deviceError code span aperture) s
  | .stopped (.fault f) => undo (.internal f) s
  | .stopped .panic => none
  | .fuel span =>
    undo (.fuelExhausted E9150_FUEL span
        "phrase fuel exhausted (the phrase is suspended; step to resume)")
      { s with suspended := some ⟨st, snap.stack⟩ }

def enter (s : Session) : ExecCore where
  stack := s.stack
  frames := []
  heap := s.heap
  out := []
  journal := []
  elideGuards := s.elideGuards
  strings := []
  resources := []

/-- Run the phrase of a submission that compiled to `c`. -/
def submitPhrase (c : Compiled) (p : Peripheral σ) (s : Session) (d : σ) :
    Option (Status × Session × σ) :=
  let s : Session := { s with compiled := some c, suspended := none }
  let core := s.enter.internCompiled c
  let (o, st, d) := run c p REPL_PHRASE ⟨core, s.fuel, none⟩ d
  (s.settle o st ⟨core.stack, s.fuel⟩).map fun r => (r.1, r.2, d)

def submitDefinitions (c : Compiled) (s : Session) : Session :=
  { s with compiled := some c, suspended := none }

def submitRejected (s : Session) : Session := { s with suspended := none }

/-- Resume the suspended phrase with `ops` units of fuel; zero is no limit. -/
def step (p : Peripheral σ) (s : Session) (ops : Nat) (d : σ) : Option (Status × Session × σ) :=
  match s.suspended with
  | none =>
    some (.compileError E9155_PHRASE
      "no suspended phrase to step (step resumes a fuel-exhausted phrase)", s, d)
  | some susp =>
    let s : Session := { s with suspended := none }
    match s.compiled with
    | none =>
      some (.internal (.internal .UNKNOWN "suspension without a compiled module"), s, d)
    | some c =>
      let fuel := if ops = 0 then 2 ^ 64 - 1 else ops
      let (o, st, d) := resume c p { susp.state with fuel := fuel } d
      (s.settle o st ⟨susp.entryStack, fuel⟩).map fun r => (r.1, r.2, d)

end Session

end Tyu.Repl

/-!
## The heap along the runs of a session

The journal of a run leads back to the heap the run started from.  So a phrase that is
rolled back leaves a heap that matches the one before it, and so does a phrase that was set
aside and is resumed later.  As in `Does`, matching is what an undo log says it is.
-/

namespace Tyu.Repl

open Lib Lib.Wire Exec

variable {σ α : Type}

/-! ## Steps -/

theorem bind_keeps {β : Type} {P : ExecCore → Prop} {x : Exec σ α} {f : α → Exec σ β}
    {s : ExecCore × σ} (hx : P (x s).2.1) (hf : ∀ a m, x s = (.ok a, m) → P m.1 → P (f a m).2.1) :
    P ((x >>= f) s).2.1 := by
  rcases hr : x s with ⟨r | a, m⟩
  · rw [Stoppable.bind_of_error hr]
    rw [hr] at hx
    exact hx
  · rw [Stoppable.bind_of_ok hr]
    rw [hr] at hx
    exact hf a m hr hx

theorem popRaw_eq_ok {span : Span} {s m : ExecCore × σ} {v : Value}
    (h : popRaw span s = (.ok v, m)) : ∃ top rest, s.1.stack = top :: rest ∧ v = top.val ∧
      m = ({ s.1 with stack := rest }, s.2) := by
  obtain ⟨st, d⟩ := s
  unfold popRaw popAny at h
  simp only [Exec.view, bind, pure] at h
  cases hstack : st.stack with
  | nil =>
    rw [hstack] at h
    cases h
  | cons top rest =>
    rw [hstack] at h
    cases h
    exact ⟨top, rest, rfl, rfl, rfl⟩

section Logs

variable {L : UndoLog RegionHeap Effect} {I : RegionHeap → Prop}
  {ok : HeapOp → RegionHeap → Prop} {b : RegionHeap}

/-- Where the operation at the cursor creates a region, the create is `ok`. -/
def CreateOk (ok : HeapOp → RegionHeap → Prop) (c : Compiled) (cur : Cursor) (st : ExecCore) :
    Prop :=
  createsRegion c cur = true → ∀ top rest, st.stack = top :: rest →
    ok (.create top.val.asU64) st.heap

/-- The condition is on creates only, and the invariant is one of matching heaps that placing
a constant keeps. -/
structure Guarded (L : UndoLog RegionHeap Effect) (I : RegionHeap → Prop)
    (ok : HeapOp → RegionHeap → Prop) : Prop extends Tracks L I ok where
  others : ∀ o h, o.isCreate = false → ok o h
  match_heap : ∀ {h k}, L.same h k → I h → I k
  constant : ∀ {h h' : RegionHeap} {bytes : Bytes} {r : Nat × Nat}, I h → bytes.length < 2 ^ 32 →
    h.intern bytes = .ok (r, h') → I h'

theorem guarded_heapLog : Guarded heapLog Rep HeapOp.Allowed where
  toTracks := tracks_heapLog
  others o h ho := by
    cases o with
    | create size => cases ho
    | alloc | reset | destroy | scopedEnter | resource | store => trivial
  match_heap := Rep.of_same
  constant hr hlen hi := (of_intern hr (by omega) hi).1

theorem guarded_sizeLog : Guarded sizeLog Sized fun _ _ => True where
  toTracks := tracks_sizeLog
  others _ _ _ := trivial
  match_heap s hs := hs.of_sameSize s
  constant hs hlen hi := by
    have hsmall := hlen
    refine (longer_of_place hs ?_ hi).1.sized
    rw [List.length_append, length_putLE]
    omega

variable {s : ExecCore × σ} {p : Peripheral σ} {st : ExecState} {d : σ} {status : Status}
  {s' : Session}

theorem Guarded.keeps (g : Guarded L I ok) {x : Exec σ α} (hx : Does false x)
    (hl : Logged L I b s.1) : Logged L I b (x s).2.1 := by
  refine hx.logged g.toTracks ?_ s hl
  intro o h hc
  refine g.others o h ?_
  cases ho : o.isCreate with
  | false => rfl
  | true => cases hc ho

theorem Guarded.execute_create (g : Guarded L I ok) (span : Span) (hl : Logged L I b s.1)
    (hcreate : ∀ top rest, s.1.stack = top :: rest → ok (.create top.val.asU64) s.1.heap) :
    Logged L I b (Builtin.execute span .regionCreate s).2.1 := by
  refine bind_keeps (g.keeps (Does.popRaw span) hl) ?_
  intro v m hpop hlm
  obtain ⟨top, rest, hstack, rfl, rfl⟩ := popRaw_eq_ok hpop
  have hok := hcreate top rest hstack
  refine bind_keeps ?_ fun handle m _ hm => g.keeps (Does.push _) hm
  · unfold changeHeap
    rcases hc : s.1.heap.regionCreate top.val.asU64 with ⟨f | ⟨handle, old⟩, h'⟩
    · have hby : ByHeapOp (.create top.val.asU64) s.1.heap
          ((.error (.trap f.trap span) : Except Stop (Nat × Effect)), h') :=
        .inl (by simp only [HeapOp.exec, hc])
      have hlogged := hlm.byHeapOp g.toTracks hok hby
      simp only [hc]
      exact hlogged
    · have hby : ByHeapOp (.create top.val.asU64) s.1.heap
          (.ok (handle, .regionCreate handle old), h') := by
        simp only [ByHeapOp, HeapOp.exec, hc]
      have hlogged := hlm.byHeapOp g.toTracks hok hby
      simp only [hc]
      exact hlogged

theorem Guarded.step (g : Guarded L I ok) (c : Compiled) (p : Peripheral σ) (cur : Cursor)
    (hl : Logged L I b s.1) (hcreate : CreateOk ok c cur s.1) :
    Logged L I b (step c p cur s).2.1 := by
  by_cases hregion : createsRegion c cur = true
  · have hok := hcreate hregion
    unfold createsRegion at hregion
    cases hat : (c.module.words[cur.word]?).bind fun w => opAt w cur with
    | none =>
      rw [hat] at hregion
      cases hregion
    | some op =>
      rw [hat] at hregion
      obtain ⟨w, hw, hop⟩ := Option.bind_eq_some_iff.mp hat
      rw [step_eq c p hw hop]
      unfold stepOp
      cases hkind : op.kind with
      | call name sig performs requires bound =>
        simp only [hkind, decide_eq_true_eq] at hregion
        simp only [hregion]
        refine bind_keeps ?_ fun _ m _ hm => hm
        refine bind_keeps hl ?_
        intro stack m hview _
        cases hview
        cases Builtin.checkArgs .regionCreate s.1.stack with
        | ok u =>
          exact bind_keeps (g.execute_create op.span hl hok) fun _ m _ hm =>
            g.keeps (Does.retagOutputs _) hm
        | error want =>
          cases want with
          | none => exact hl
          | some want => exact hl
      | _ =>
        simp only [hkind] at hregion
        cases hregion
  · exact g.keeps (Does.step c p cur fun h => absurd h hregion) hl

/-- Every create of the run is `ok`. -/
def DriveOk (ok : HeapOp → RegionHeap → Prop) (c : Compiled) (p : Peripheral σ) :
    Nat → Cursor → ExecCore × σ → Prop
  | 0, _, _ => True
  | n + 1, cur, s =>
    CreateOk ok c cur s.1 ∧
      match step c p cur s with
      | (.ok cur, s) => DriveOk ok c p n cur s
      | (.error _, _) => True

theorem driveOk_of_all (h : ∀ o k, ok o k) (c : Compiled)
    (p : Peripheral σ) (n : Nat) (cur : Cursor) (s : ExecCore × σ) : DriveOk ok c p n cur s := by
  induction n generalizing cur s with
  | zero => trivial
  | succ n ih =>
    refine ⟨fun _ _ _ _ => h _ _, ?_⟩
    split
    · exact ih _ _
    · trivial

theorem Guarded.drive (g : Guarded L I ok) (c : Compiled) (p : Peripheral σ) {n : Nat}
    {cur : Cursor} (hl : Logged L I b s.1) (hok : DriveOk ok c p n cur s) :
    Logged L I b (drive c p n cur s).2.1.core := by
  induction n generalizing cur s with
  | zero => exact ⟨hl.good, hl.back⟩
  | succ n ih =>
    obtain ⟨hcreate, hrest⟩ := hok
    have hstep := g.step c p cur hl hcreate
    unfold Repl.drive
    rcases hs : Repl.step c p cur s with ⟨r | cur', s'⟩
    · rw [hs] at hstep
      exact ⟨hstep.good, hstep.back⟩
    · rw [hs] at hstep hrest
      exact ih hstep hrest

/-- Every create of the run of a phrase is `ok`. -/
def RunOk (ok : HeapOp → RegionHeap → Prop) (c : Compiled) (p : Peripheral σ) (st : ExecState)
    (d : σ) : Prop :=
  ∀ idx w, c.dictLookup REPL_PHRASE = some (.word idx) → c.module.words[idx]? = some w →
    DriveOk ok c p st.fuel ⟨idx, entryBlock w, 0⟩
      ({ st.core with frames := [⟨idx, localsFor w, none⟩] }, d)

theorem Guarded.run (g : Guarded L I ok) {c : Compiled} {p : Peripheral σ} {st : ExecState} {d : σ}
    (hl : Logged L I b st.core) (hok : RunOk ok c p st d) :
    Logged L I b (run c p REPL_PHRASE st d).2.1.core := by
  unfold Repl.run
  split
  · exact ⟨hl.good, hl.back⟩
  · exact ⟨hl.good, hl.back⟩
  rename_i idx hname
  split
  · exact ⟨hl.good, hl.back⟩
  rename_i w hw
  split
  · have hframes : Logged L I b { st.core with frames := [⟨idx, localsFor w, none⟩] } :=
      ⟨hl.good, hl.back⟩
    exact g.drive c p (s := ({ st.core with frames := [⟨idx, localsFor w, none⟩] }, d))
      hframes (hok idx w hname hw)
  · exact ⟨hl.good, hl.back⟩

theorem Guarded.resume (g : Guarded L I ok) {c : Compiled} (hl : Logged L I b st.core)
    (hok : ∀ cur, st.cursor = some cur → DriveOk ok c p st.fuel cur (st.core, d)) :
    Logged L I b (resume c p st d).2.1.core := by
  unfold Repl.resume
  split
  · exact ⟨hl.good, hl.back⟩
  · rename_i cur hcur
    exact g.drive c p (s := (st.core, d)) hl (hok cur hcur)

theorem Guarded.internString (g : Guarded L I ok) (c : Compiled) (span : Span) {st : ExecCore}
    (hi : I st.heap) : I (st.internString c span).heap := by
  unfold ExecCore.internString
  split
  · exact hi
  · cases hintern : st.heap.intern (constStrBytes c span) with
    | error f => exact hi
    | ok r => exact g.constant hi (length_constStrBytes c span) hintern

theorem Guarded.internCompiled (g : Guarded L I ok) (c : Compiled) {st : ExecCore}
    (hi : I st.heap) : I (st.internCompiled c).heap := by
  unfold ExecCore.internCompiled
  induction ExecCore.constStrSpans c.module generalizing st with
  | nil => exact hi
  | cons span spans ih => exact ih (g.internString c span hi)

theorem internCompiled_beside (c : Compiled) (st : ExecCore) :
    (st.internCompiled c).stack = st.stack ∧ (st.internCompiled c).journal = st.journal := by
  unfold ExecCore.internCompiled
  induction ExecCore.constStrSpans c.module generalizing st with
  | nil => exact ⟨rfl, rfl⟩
  | cons span spans ih =>
    have hone : (st.internString c span).stack = st.stack ∧
        (st.internString c span).journal = st.journal := by
      unfold ExecCore.internString
      split
      · exact ⟨rfl, rfl⟩
      · split <;> exact ⟨rfl, rfl⟩
    have hrest := ih (st.internString c span)
    exact ⟨hrest.1.trans hone.1, hrest.2.trans hone.2⟩

theorem Guarded.enter (g : Guarded L I ok) (c : Compiled) {s : Session} (hi : I s.heap) :
    Logged L I (s.enter.internCompiled c).heap (s.enter.internCompiled c) := by
  refine ⟨g.internCompiled c hi, ?_⟩
  rw [(internCompiled_beside c s.enter).2]
  exact UndoLog.LeadsTo.nil _

/-! ## Sessions -/

/-- The heap of the session is good, and a phrase set aside leads back to it and to the stack
of the session. -/
structure SessionGood (L : UndoLog RegionHeap Effect) (I : RegionHeap → Prop) (s : Session) :
    Prop where
  heap : I s.heap
  aside : ∀ susp, s.suspended = some susp →
    Logged L I s.heap susp.state.core ∧ susp.entryStack = s.stack

def Status.committed : Status → Bool
  | .ok | .exited _ => true
  | _ => false

/-- The session after a phrase that was rolled back: its heap matches the one of the start, its
stack is the one of the start, and a phrase set aside leads back to both. -/
structure RolledBack (L : UndoLog RegionHeap Effect) (I : RegionHeap → Prop) (b : RegionHeap)
    (entryStack : List Slot) (s s' : Session) : Prop where
  heap : L.same b s'.heap
  stack : s'.stack = entryStack
  aside : ∀ susp, s'.suspended = some susp → s.suspended = some susp ∨
    Logged L I s'.heap susp.state.core ∧ susp.entryStack = entryStack

theorem Guarded.rolls_back (g : Guarded L I ok) {st : ExecCore} (hl : Logged L I b st) :
    ∃ r, heapLog.rollback st.journal st.heap = some r ∧ L.same r b := by
  obtain ⟨r, hr, hrb⟩ := hl.back
  have hsame : ∀ es h, heapLog.rollback es h = L.rollback es h := by
    intro es
    induction es with
    | nil => exact fun h => rfl
    | cons e es ih =>
      intro h
      show (e.compensate h).bind _ = (L.undo e h).bind _
      rw [g.undo]
      exact congrArg _ (funext ih)
  exact ⟨r, (hsame _ _).trans hr, hrb⟩

theorem Guarded.settle (g : Guarded L I ok) {s : Session} {o : Outcome} {snap : Checkpoint}
    (hl : Logged L I b st.core) (hpanic : o.ending ≠ .stopped .panic) :
    ∃ status s', s.settle o st snap = some (status, s') ∧
      if status.committed then I s'.heap ∧ s'.suspended = s.suspended
      else RolledBack L I b snap.stack s s' := by
  obtain ⟨r, hroll, hrb⟩ := g.rolls_back hl
  have hundo : ∀ (status : Status) (s₀ : Session), status.committed = false →
      (∀ susp, s₀.suspended = some susp → s.suspended = some susp ∨ susp = ⟨st, snap.stack⟩) →
      ∃ status' s', (rollback st snap).map (fun st => (status, s₀.keep st o.out)) =
        some (status', s') ∧ if status'.committed then I s'.heap ∧ s'.suspended = s.suspended
          else RolledBack L I b snap.stack s s' := by
    intro status s₀ hstatus haside
    refine ⟨status, _, by unfold rollback; rw [hroll]; rfl, ?_⟩
    rw [hstatus]
    refine ⟨L.symm hrb, rfl, fun susp hsusp => ?_⟩
    rcases haside susp hsusp with hold | rfl
    · exact .inl hold
    · exact .inr ⟨⟨hl.good, hl.back.to_same (L.symm hrb)⟩, rfl⟩
  obtain ⟨ending, out⟩ := o
  unfold Session.settle
  cases ending with
  | fuel span =>
    refine hundo _ _ rfl ?_
    intro susp hsusp
    cases hsusp
    exact .inr rfl
  | stopped r =>
    cases r with
    | done => exact ⟨_, _, rfl, hl.good, rfl⟩
    | exit code => exact ⟨_, _, rfl, hl.good, rfl⟩
    | panic => exact absurd rfl hpanic
    | trap | contract | device | fault => exact hundo _ _ rfl fun susp hsusp => .inl hsusp

/-- Every create of the phrase is `ok`. -/
def PhraseOk (ok : HeapOp → RegionHeap → Prop) (c : Compiled) (p : Peripheral σ) (s : Session)
    (d : σ) : Prop :=
  RunOk ok c p ⟨s.enter.internCompiled c, s.fuel, none⟩ d

def stepFuel (ops : Nat) : Nat := if ops = 0 then 2 ^ 64 - 1 else ops

/-- Every create of the resumed phrase is `ok`. -/
def ResumeOk (ok : HeapOp → RegionHeap → Prop) (p : Peripheral σ) (s : Session) (ops : Nat)
    (d : σ) : Prop :=
  ∀ susp c cur, s.suspended = some susp → s.compiled = some c → susp.state.cursor = some cur →
    DriveOk ok c p (stepFuel ops) cur (susp.state.core, d)

/-- What a phrase leaves: the session stays good, and where the phrase was not committed the
heap matches `b` and the stack is the one before. -/
structure PhraseLeaves (L : UndoLog RegionHeap Effect) (I : RegionHeap → Prop) (b : RegionHeap)
    (s : Session) (status : Status) (s' : Session) : Prop where
  good : SessionGood L I s'
  back : status.committed = false → L.same b s'.heap ∧ s'.stack = s.stack

theorem Guarded.settle_leaves (g : Guarded L I ok) {s s₀ : Session} {o : Outcome}
    {snap : Checkpoint} (hb : I b) (hl : Logged L I b st.core) (hstack : snap.stack = s₀.stack)
    (hsusp : s.suspended = none) (h : s.settle o st snap = some (status, s')) :
    PhraseLeaves L I b s₀ status s' := by
  have hpanic : o.ending ≠ .stopped .panic := by
    intro hp
    unfold Session.settle at h
    rw [hp] at h
    cases h
  obtain ⟨status', s'', hsettle, hspec⟩ :
      ∃ status' s'', s.settle o st snap = some (status', s'') ∧
        if status'.committed then I s''.heap ∧ s''.suspended = s.suspended
        else RolledBack L I b snap.stack s s'' := g.settle hl hpanic
  rw [hsettle] at h
  cases h
  cases hc : status.committed with
  | true =>
    rw [hc] at hspec
    obtain ⟨hheap, hnone⟩ := hspec
    refine ⟨⟨hheap, ?_⟩, fun hf => absurd (hc.symm.trans hf) Bool.true_eq_false.mp⟩
    intro susp hs
    rw [hnone, hsusp] at hs
    cases hs
  | false =>
    rw [hc] at hspec
    refine ⟨⟨g.match_heap hspec.heap hb, ?_⟩, fun _ => ⟨hspec.heap, hspec.stack.trans hstack⟩⟩
    intro susp hs
    rcases hspec.aside susp hs with hold | ⟨hlogged, hentry⟩
    · rw [hsusp] at hold
      cases hold
    · exact ⟨hlogged, hentry.trans hspec.stack.symm⟩

theorem Guarded.submitPhrase (g : Guarded L I ok) {c : Compiled} {s : Session} {d' : σ}
    (hs : SessionGood L I s) (hok : PhraseOk ok c p s d)
    (h : s.submitPhrase c p d = some (status, s', d')) :
    PhraseLeaves L I (s.enter.internCompiled c).heap s status s' := by
  have hl := g.enter c hs.heap
  have hrun : Logged L I (s.enter.internCompiled c).heap
      (Repl.run c p REPL_PHRASE ⟨s.enter.internCompiled c, s.fuel, none⟩ d).2.1.core :=
    g.run hl hok
  obtain ⟨r, hsettle, hr⟩ := Option.map_eq_some_iff.mp h
  cases hr
  exact g.settle_leaves hl.good hrun (internCompiled_beside c s.enter).1 rfl hsettle

theorem Guarded.resumePhrase (g : Guarded L I ok) {s : Session} {ops : Nat} {d' : σ}
    (hs : SessionGood L I s) (hok : ResumeOk ok p s ops d)
    (h : s.step p ops d = some (status, s', d')) : PhraseLeaves L I s.heap s status s' := by
  unfold Session.step at h
  split at h
  · cases h
    exact ⟨hs, fun _ => ⟨L.refl _, rfl⟩⟩
  rename_i susp hsusp
  obtain ⟨hl, hentry⟩ := hs.aside susp hsusp
  simp only at h
  split at h
  · cases h
    refine ⟨⟨hs.heap, ?_⟩, fun _ => ⟨L.refl _, rfl⟩⟩
    intro susp hs
    cases hs
  rename_i c hc
  obtain ⟨r, hsettle, hr⟩ := Option.map_eq_some_iff.mp h
  cases hr
  have hdrive : Logged L I s.heap
      (Repl.resume c p { susp.state with fuel := stepFuel ops } d).2.1.core :=
    g.resume hl fun cur hcur => hok susp c cur hsusp hc hcur
  exact g.settle_leaves hs.heap hdrive hentry rfl hsettle

/-- What happens to a session: a phrase, a resumption, a submission without a phrase, or a
setting; a device may be attached at any time. -/
inductive SessionStep (ok : HeapOp → RegionHeap → Prop) : Session × σ → Session × σ → Prop
  | phrase {s s' : Session} {d d' : σ} {status : Status} (c : Compiled) (p : Peripheral σ) :
      PhraseOk ok c p s d → s.submitPhrase c p d = some (status, s', d') →
      SessionStep ok (s, d) (s', d')
  | resume {s s' : Session} {d d' : σ} {status : Status} (p : Peripheral σ) (ops : Nat) :
      ResumeOk ok p s ops d → s.step p ops d = some (status, s', d') →
      SessionStep ok (s, d) (s', d')
  | definitions {s : Session} {d : σ} (c : Compiled) :
      SessionStep ok (s, d) (s.submitDefinitions c, d)
  | rejected {s : Session} {d : σ} : SessionStep ok (s, d) (s.submitRejected, d)
  | setFuel {s : Session} {d : σ} (n : Nat) : SessionStep ok (s, d) ({ s with fuel := n }, d)
  | setElideGuards {s : Session} {d : σ} (on : Bool) :
      SessionStep ok (s, d) ({ s with elideGuards := on }, d)
  | reset {s : Session} {d : σ} (fuel : Nat) :
      SessionStep ok (s, d) ({ Session.new fuel with elideGuards := s.elideGuards }, d)
  | attach {s : Session} {d : σ} (d' : σ) : SessionStep ok (s, d) (s, d')

/-- Sessions whose creates are `ok`. -/
def sessionSystem (σ : Type) (ok : HeapOp → RegionHeap → Prop) : System (Session × σ) where
  init x := ∃ fuel, x.1 = .new fuel
  step := SessionStep ok

theorem Guarded.sessionGood (g : Guarded L I ok) (hnew : I RegionHeap.new) {x : Session × σ}
    (h : (sessionSystem σ ok).Reachable x) : SessionGood L I x.1 := by
  refine h.invariant (I := fun x => SessionGood L I x.1) ?_ ?_
  · rintro ⟨s, d⟩ ⟨fuel, rfl⟩
    refine ⟨hnew, ?_⟩
    intro susp hs
    cases hs
  · rintro ⟨s, d⟩ ⟨s', d'⟩ hs - hstep
    cases hstep with
    | phrase c p hok hphrase => exact (g.submitPhrase hs hok hphrase).good
    | resume p ops hok hstep => exact (g.resumePhrase hs hok hstep).good
    | definitions c | rejected =>
      refine ⟨hs.heap, ?_⟩
      intro susp hsusp
      cases hsusp
    | setFuel n => exact ⟨hs.heap, hs.aside⟩
    | setElideGuards on => exact ⟨hs.heap, hs.aside⟩
    | reset fuel =>
      refine ⟨hnew, ?_⟩
      intro susp hsusp
      cases hsusp
    | attach d' => exact hs

end Logs

end Tyu.Repl

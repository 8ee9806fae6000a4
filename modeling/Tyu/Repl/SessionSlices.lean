import Tyu.Repl.Rollback

/-! # Fuel slices -/

namespace Tyu.Repl

open Lib Lib.Wire

variable {σ : Type}

theorem step_carriesOut (c : Compiled) (p : Peripheral σ) (cur : Cursor) :
    CarriesOut (step c p cur) := (Does.step c p cur fun _ => rfl).carriesOut

theorem drive_prepend (c : Compiled) (p : Peripheral σ) (pre : Bytes) (n : Nat) (cur : Cursor)
    (st : ExecCore) (d : σ) :
    drive c p n cur (st.prepend pre, d) =
      (⟨(drive c p n cur (st, d)).1.ending, pre ++ (drive c p n cur (st, d)).1.out⟩,
        (drive c p n cur (st, d)).2) := by
  induction n generalizing cur st d with
  | zero => rfl
  | succ n ih =>
    have hstep := step_carriesOut c p cur pre st d
    unfold drive
    rw [hstep]
    rcases step c p cur (st, d) with ⟨r | cur', st', d'⟩
    · rfl
    · exact ih cur' st' d'

theorem ExecCore.prepend_takeOut (st : ExecCore) : st.takeOut.prepend st.out = st := by
  show { st with out := st.out ++ [] } = st
  rw [List.append_nil]

/-- Resume a run with `b` units of fuel; what it writes comes after what was written. -/
def goOn (c : Compiled) (p : Peripheral σ) (b : Nat) (r : Outcome × ExecState × σ) :
    Outcome × ExecState × σ :=
  let r' := resume c p { r.2.1 with fuel := b } r.2.2
  (⟨r'.1.ending, r.1.out ++ r'.1.out⟩, r'.2)

/-- A run with `b` more units of fuel, from the run without them. -/
def withMore (c : Compiled) (p : Peripheral σ) (b : Nat) (r : Outcome × ExecState × σ) :
    Outcome × ExecState × σ :=
  match r.1.ending with
  | .stopped _ => (r.1, { r.2.1 with fuel := r.2.1.fuel + b }, r.2.2)
  | .fuel _ => goOn c p b r

theorem drive_add (c : Compiled) (p : Peripheral σ) (a b : Nat) (cur : Cursor) (st : ExecCore)
    (d : σ) : drive c p (a + b) cur (st, d) = withMore c p b (drive c p a cur (st, d)) := by
  induction a generalizing cur st d with
  | zero =>
    have hpre := drive_prepend c p st.out b cur st.takeOut d
    rw [st.prepend_takeOut] at hpre
    rw [Nat.zero_add]
    exact hpre
  | succ a ih =>
    rw [show a + 1 + b = (a + b) + 1 by omega]
    unfold drive
    rcases step c p cur (st, d) with ⟨r | cur', st', d'⟩
    · rfl
    · exact ih cur' st' d'

theorem run_add (c : Compiled) (p : Peripheral σ) (entry : Atom) (st : ExecState) (d : σ)
    (a b : Nat) :
    run c p entry { st with fuel := a + b } d =
      withMore c p b (run c p entry { st with fuel := a } d) := by
  unfold run
  rcases c.dictLookup entry with _ | idx | bt
  · rfl
  · dsimp only
    cases c.module.words[idx]? with
    | none => rfl
    | some w =>
      by_cases hbound : boundOk w st.core.stack.length = true
      · simp only [if_pos hbound]
        exact drive_add c p a b _ _ d
      · simp only [if_neg hbound]
        rfl
  · rfl

/-- Go on with one slice after another until the run stops; slices that are not needed stay
as fuel. -/
def resumeAll (c : Compiled) (p : Peripheral σ) :
    List Nat → Outcome × ExecState × σ → Outcome × ExecState × σ
  | [], r => r
  | b :: bs, r =>
    match r.1.ending with
    | .stopped _ => (r.1, { r.2.1 with fuel := r.2.1.fuel + (b :: bs).sum }, r.2.2)
    | .fuel _ => resumeAll c p bs (goOn c p b r)

theorem resumeAll_of_fuel (c : Compiled) (p : Peripheral σ) {b : Nat} {bs : List Nat}
    {r : Outcome × ExecState × σ} {span : Span} (h : r.1.ending = .fuel span) :
    resumeAll c p (b :: bs) r = resumeAll c p bs (goOn c p b r) := by
  rw [resumeAll, h]

def runSlices (c : Compiled) (p : Peripheral σ) (entry : Atom) (st : ExecState) (d : σ) (a : Nat)
    (bs : List Nat) : Outcome × ExecState × σ :=
  resumeAll c p bs (run c p entry { st with fuel := a } d)

/-- Slices of fuel do not change how a run ends, what it writes, the state it leaves or the
fuel that remains. -/
theorem runSlices_eq (c : Compiled) (p : Peripheral σ) (entry : Atom) (st : ExecState) (d : σ)
    (a : Nat) (bs : List Nat) :
    runSlices c p entry st d a bs = run c p entry { st with fuel := a + bs.sum } d := by
  unfold runSlices
  induction bs generalizing a with
  | nil => rfl
  | cons b bs ih =>
    cases hending : (run c p entry { st with fuel := a } d).1.ending with
    | stopped r =>
      rw [resumeAll, run_add]
      unfold withMore
      rw [hending]
    | fuel span =>
      have hmore : run c p entry { st with fuel := a + b } d =
          goOn c p b (run c p entry { st with fuel := a } d) := by
        rw [run_add]
        unfold withMore
        rw [hending]
      rw [resumeAll_of_fuel c p hending, ← hmore, ih (a + b), List.sum_cons, Nat.add_assoc]

end Tyu.Repl

/-!
## Fuel slices in a session

A phrase that is submitted with a slice of fuel and stepped with the others leaves the
session a phrase with all the fuel leaves.  Each stop rolls the session back first, so the
law needs that no rollback on the way panics; this is where the size of the heap comes in.
-/

namespace Tyu.Repl

open Lib Lib.Wire

variable {σ : Type}

namespace Session

def settleRun (s : Session) (snap : Checkpoint) (r : Outcome × ExecState × σ) :
    Option (Status × Session × σ) :=
  (s.settle r.1 r.2.1 snap).map fun x => (x.1, x.2, r.2.2)

/-- Step the session with one slice after another while a phrase is set aside. -/
def stepAll (p : Peripheral σ) : List Nat → Status × Session × σ → Option (Status × Session × σ)
  | [], r => some r
  | n :: ns, r =>
    match r.2.1.suspended with
    | none => some r
    | some _ => (r.2.1.step p n r.2.2).bind (stepAll p ns)

def withFuel (s : Session) (n : Nat) : Session := { s with fuel := n }

/-- The session while a phrase that was set aside runs again: an earlier stop left its stack,
its heap and its output. -/
def after (s : Session) (stack : List Slot) (heap : RegionHeap) (out : Bytes) : Session :=
  { s with stack := stack, heap := heap, outTotal := s.outTotal ++ out }

theorem after_keep (s : Session) (stack : List Slot) (heap : RegionHeap) (out out' : Bytes)
    (st : ExecState) : (s.after stack heap out).keep st out' = s.keep st (out ++ out') := by
  show ({ s with stack := _, heap := _, outTotal := s.outTotal ++ out ++ out' } : Session) = _
  rw [List.append_assoc]
  rfl

theorem settle_after (s : Session) (stack : List Slot) (heap : RegionHeap) (e : Ending)
    (out out' : Bytes) (st : ExecState) {snap snap' : Checkpoint}
    (h : snap'.stack = snap.stack) :
    (s.after stack heap out).settle ⟨e, out'⟩ st snap' = s.settle ⟨e, out ++ out'⟩ st snap := by
  have hundo : ∀ (status : Status) (s : Session),
      (rollback st snap').map (fun st => (status, (s.after stack heap out).keep st out')) =
        (rollback st snap).map fun st => (status, s.keep st (out ++ out')) := by
    intro status s
    unfold rollback
    rw [h, Option.map_map, Option.map_map]
    congr 1
    funext k
    exact congrArg (Prod.mk status) (s.after_keep stack heap out out' _)
  unfold settle
  cases e with
  | fuel span =>
    rw [h]
    dsimp only
    exact hundo _ { s with suspended := some ⟨st, snap.stack⟩ }
  | stopped r =>
    cases r with
    | done => exact congrArg (fun s => some (Status.ok, s)) (s.after_keep stack heap out out' st)
    | exit code =>
      exact congrArg (fun s => some (Status.exited code, s)) (s.after_keep stack heap out out' st)
    | panic => rfl
    | trap | contract | device | fault => exact hundo _ s

theorem settle_stopped_fuel (s : Session) (r : Stop) (out : Bytes) (st : ExecState) (n : Nat)
    (snap : Checkpoint) :
    s.settle ⟨.stopped r, out⟩ { st with fuel := n } snap = s.settle ⟨.stopped r, out⟩ st snap := by
  unfold settle rollback
  cases r <;> rfl

theorem settle_snapFuel (s : Session) (o : Outcome) (st : ExecState) (stack : List Slot)
    (n m : Nat) : s.settle o st ⟨stack, n⟩ = s.settle o st ⟨stack, m⟩ := by
  obtain ⟨e, out⟩ := o
  have hundo : ∀ (status : Status) (s : Session),
      (rollback st ⟨stack, n⟩).map (fun st => (status, s.keep st out)) =
        (rollback st ⟨stack, m⟩).map fun st => (status, s.keep st out) := by
    intro status s
    unfold rollback
    rw [Option.map_map, Option.map_map]
    rfl
  unfold settle
  cases e with
  | fuel span => exact hundo _ { s with suspended := some ⟨st, stack⟩ }
  | stopped r =>
    cases r with
    | done | exit | panic => rfl
    | trap | contract | device | fault => exact hundo _ s

theorem settle_withFuel (s : Session) (n : Nat) (o : Outcome) (st : ExecState)
    (snap : Checkpoint) : (s.withFuel n).settle o st snap =
      (s.settle o st snap).map fun r => (r.1, r.2.withFuel n) := by
  obtain ⟨e, out⟩ := o
  unfold settle
  cases e with
  | fuel span =>
    rw [Option.map_map]
    rfl
  | stopped r =>
    cases r with
    | done | exit | panic => rfl
    | trap | contract | device | fault =>
      rw [Option.map_map]
      rfl

end Session

/-! ## One slice after another -/

namespace Session

theorem settle_stopped {s s' : Session} {r : Stop} {out : Bytes} {st : ExecState}
    {snap : Checkpoint} {status : Status}
    (h : s.settle ⟨.stopped r, out⟩ st snap = some (status, s')) : s'.suspended = s.suspended := by
  unfold settle at h
  cases r with
  | done | exit =>
    cases h
    rfl
  | panic => cases h
  | trap | contract | device | fault =>
    obtain ⟨k, -, hk⟩ := Option.map_eq_some_iff.mp h
    cases hk
    rfl

theorem step_of_suspended {c : Compiled} (p : Peripheral σ) {s : Session} {susp : Suspended}
    {n : Nat} (d : σ) (hsusp : s.suspended = some susp) (hc : s.compiled = some c) (hn : 0 < n) :
    s.step p n d = { s with suspended := none }.settleRun ⟨susp.entryStack, n⟩
      (resume c p { susp.state with fuel := n } d) := by
  unfold step
  rw [hsusp]
  dsimp only
  rw [hc, if_neg (by omega)]
  rfl

theorem step_of_fuel {c : Compiled} (p : Peripheral σ) {s : Session} {snap : Checkpoint}
    {r : Outcome × ExecState × σ} {span : Span} {k : ExecState} {n : Nat}
    (hc : s.compiled = some c) (hs : s.suspended = none) (he : r.1.ending = .fuel span)
    (hk : rollback r.2.1 snap = some k) (hn : 0 < n) :
    ∃ x susp, s.settleRun snap r = some x ∧ x.2.1.suspended = some susp ∧
      x.2.1.step p n x.2.2 = s.settleRun snap (goOn c p n r) := by
  obtain ⟨⟨e, out⟩, st, d⟩ := r
  cases he
  obtain ⟨status, hsettle⟩ : ∃ status, s.settleRun snap (⟨.fuel span, out⟩, st, d) =
      some (status, { s with suspended := some ⟨st, snap.stack⟩ }.keep k out, d) := by
    unfold settleRun settle
    dsimp only
    rw [hk]
    exact ⟨_, rfl⟩
  refine ⟨_, ⟨st, snap.stack⟩, hsettle, rfl, ?_⟩
  have hnone : { s with suspended := none } = s := by
    rw [← hs]
  refine (step_of_suspended p (s := { s with suspended := some ⟨st, snap.stack⟩ }.keep k out) d
    rfl hc hn).trans ?_
  show (({ s with suspended := none } : Session).after k.core.stack k.core.heap out).settleRun
    ⟨snap.stack, n⟩ _ = _
  rw [hnone]
  unfold settleRun
  rw [settle_after s k.core.stack k.core.heap _ out _ _
    (show (⟨snap.stack, n⟩ : Checkpoint).stack = snap.stack from rfl)]
  rfl

theorem stepAll_settleRun {c : Compiled} (p : Peripheral σ) {s : Session} {snap : Checkpoint}
    {b : RegionHeap} (hc : s.compiled = some c) (hs : s.suspended = none) (ns : List Nat)
    (hns : ∀ n ∈ ns, 0 < n) {r : Outcome × ExecState × σ}
    (hl : Logged sizeLog Sized b r.2.1.core) :
    (s.settleRun snap r).bind (stepAll p ns) = s.settleRun snap (resumeAll c p ns r) := by
  induction ns generalizing r with
  | nil =>
    show (s.settleRun snap r).bind some = s.settleRun snap r
    exact Option.bind_fun_some _
  | cons n ns ih =>
    rw [List.forall_mem_cons] at hns
    cases he : r.1.ending with
    | stopped stop =>
      obtain ⟨⟨e, out⟩, st, d⟩ := r
      cases he
      have hsame : s.settleRun snap (resumeAll c p (n :: ns) (⟨.stopped stop, out⟩, st, d)) =
          s.settleRun snap (⟨.stopped stop, out⟩, st, d) := by
        show (s.settle ⟨.stopped stop, out⟩ { st with fuel := _ } snap).map _ = _
        rw [settle_stopped_fuel]
        rfl
      rw [hsame]
      cases hsettle : s.settleRun snap (⟨.stopped stop, out⟩, st, d) with
      | none => rfl
      | some x =>
        obtain ⟨y, hy, rfl⟩ := Option.map_eq_some_iff.mp hsettle
        have hnone := (settle_stopped hy).trans hs
        show stepAll p (n :: ns) (y.1, y.2, d) = _
        unfold stepAll
        rw [hnone]
    | fuel span =>
      obtain ⟨k, hk⟩ : ∃ k, rollback r.2.1 snap = some k := by
        obtain ⟨h, hh, -⟩ := guarded_sizeLog.rolls_back hl
        unfold rollback
        rw [hh]
        exact ⟨_, rfl⟩
      obtain ⟨x, susp, hx, hsusp, hstep⟩ := step_of_fuel p hc hs he hk hns.1
      have hlogged : Logged sizeLog Sized b (goOn c p n r).2.1.core :=
        guarded_sizeLog.resume hl fun cur _ => driveOk_of_all (fun _ _ => trivial) c p n cur _
      rw [hx]
      show stepAll p (n :: ns) x = _
      unfold stepAll
      rw [hsusp]
      show (x.2.1.step p n x.2.2).bind (stepAll p ns) = _
      rw [hstep, ih hns.2 hlogged, resumeAll_of_fuel c p he]

theorem settleRun_withFuel (s : Session) (n : Nat) (snap : Checkpoint)
    (r : Outcome × ExecState × σ) : (s.withFuel n).settleRun snap r =
      (s.settleRun snap r).map fun x => (x.1, x.2.1.withFuel n, x.2.2) := by
  unfold settleRun
  rw [settle_withFuel, Option.map_map, Option.map_map]
  rfl

def running (s : Session) (c : Compiled) : Session :=
  { s with compiled := some c, suspended := none }

theorem submitPhrase_eq (c : Compiled) (p : Peripheral σ) (s : Session) (d : σ) (n m : Nat) :
    (s.withFuel n).submitPhrase c p d =
      ((s.running c).withFuel n).settleRun ⟨(s.enter.internCompiled c).stack, m⟩
        (run c p REPL_PHRASE ⟨s.enter.internCompiled c, n, none⟩ d) := by
  unfold settleRun
  rw [settle_snapFuel _ _ _ _ m n]
  rfl

end Session

/-- Slices of fuel do not change a result: not that of the engine, of which the fuel that
remains is a part, and not that of a session that is stepped. -/
theorem fuel_slices_change_nothing (c : Compiled) (p : Peripheral σ) :
    (∀ (entry : Atom) (st : ExecState) (d : σ) (a : Nat) (ns : List Nat),
      runSlices c p entry st d a ns = run c p entry { st with fuel := a + ns.sum } d) ∧
    ∀ x : Session × σ, (sessionSystem σ fun _ _ => True).Reachable x →
      ∀ (a : Nat) (ns : List Nat), (∀ n ∈ ns, 0 < n) →
        ((x.1.withFuel a).submitPhrase c p x.2).bind (Session.stepAll p ns) =
          ((x.1.withFuel (a + ns.sum)).submitPhrase c p x.2).map
            fun r => (r.1, r.2.1.withFuel a, r.2.2) := by
  refine ⟨runSlices_eq c p, ?_⟩
  rintro ⟨s, d⟩ hreach a ns hns
  have hrun : Logged sizeLog Sized (s.enter.internCompiled c).heap
      (run c p REPL_PHRASE ⟨s.enter.internCompiled c, a, none⟩ d).2.1.core :=
    guarded_sizeLog.run
      (guarded_sizeLog.enter c (guarded_sizeLog.sessionGood sized_new hreach).heap)
      fun _ _ _ _ => driveOk_of_all (fun _ _ => trivial) c p _ _ _
  have hslices : resumeAll c p ns
      (run c p REPL_PHRASE ⟨s.enter.internCompiled c, a, none⟩ d) =
        run c p REPL_PHRASE ⟨s.enter.internCompiled c, a + ns.sum, none⟩ d :=
    runSlices_eq c p REPL_PHRASE ⟨s.enter.internCompiled c, 0, none⟩ d a ns
  rw [s.submitPhrase_eq c p d a 0, s.submitPhrase_eq c p d (a + ns.sum) 0]
  rw [Session.stepAll_settleRun (s := (s.running c).withFuel a) p rfl rfl ns hns hrun]
  rw [hslices, Session.settleRun_withFuel _ (a + ns.sum), Option.map_map]
  rw [Session.settleRun_withFuel _ a]
  rfl

/-- `: repl-phrase ( -- i64 i64 ) 7 dup ;` -/
def dupPhrase : Compiled where
  module :=
    { name := AT_EMPTY
      words :=
        [{ name := REPL_PHRASE
           sig := .empty
           performs := .empty
           requires := .empty
           bound := .ID
           entry := ⟨0⟩
           types := ⟨[AT_EMPTY, AT_I64], two_types⟩
           typeSizes := ⟨[0, 8], two_types⟩
           typeClasses := ⟨[.other, .i64], two_types⟩
           apertures := .new
           subtypeBases := ⟨[TY_EMPTY, TY_EMPTY], two_types⟩
           blocks := ⟨[
             { id := ⟨0⟩
               entryStack := .new
               ops := ⟨[⟨.constI64 7, ⟨0, 1⟩⟩, ⟨.dup TY_I64, ⟨2, 5⟩⟩, ⟨.ret, ⟨6, 7⟩⟩],
                 by decide⟩ }], by decide⟩ }]
      apertures := .new }
  wordBits := 64
  src := []
  small := no_source
  apertures := []
  subtypes := []

/-- One unit and then two, or three at once. -/
theorem dupPhrase_in_slices : (∀ n ∈ [1, 1], 0 < n) ∧
    (((Session.new 0).withFuel 1).submitPhrase dupPhrase disabled ()).bind
        (Session.stepAll disabled [1, 1]) =
      (((Session.new 0).withFuel (1 + [1, 1].sum)).submitPhrase dupPhrase disabled ()).map
        fun r => (r.1, r.2.1.withFuel 1, r.2.2) :=
  ⟨by decide, (fuel_slices_change_nothing dupPhrase disabled).2 (Session.new 0, ())
    (.start ⟨0, rfl⟩) 1 [1, 1] (by decide)⟩

end Tyu.Repl

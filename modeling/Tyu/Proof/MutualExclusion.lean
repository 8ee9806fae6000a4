import Mathlib
import Tyu.Lib.Runs

/-!
# The package lock

Builds that share a generated proof package take turns through a lock file.
-/

namespace Tyu.PackageLock

open Lib

abbrev Build := Nat

def pidText (pid : Nat) : List Char := Nat.toDigits 10 pid ++ ['\n']

def trim (text : List Char) : List Char :=
  ((text.dropWhile Char.isWhitespace).reverse.dropWhile Char.isWhitespace).reverse

/-- A trimmed text as an `i32`.  Only digits are ever written, so a sign does not occur. -/
def parsePid (text : List Char) : Option Nat :=
  let digits := trim text
  if digits ≠ [] ∧ digits.all Char.isDigit then
    let n := Nat.ofDigitChars 10 digits 0
    if n < 2 ^ 31 then some n else none
  else none

/-- The file at the lock's path: who created it, which creation it was, what it holds. -/
structure LockFile where
  creator : Build
  serial : Nat
  text : List Char

/-- Where a build is in `lock_package`. -/
inductive Phase where
  /-- not after the lock: before asking, after giving up, after the release -/
  | away
  /-- about to create the file -/
  | opening
  /-- created the file with this serial; this much of the text is not written yet -/
  | writing (serial : Nat) (rest : List Char)
  /-- the guard is returned and not dropped yet -/
  | holding
  /-- the file existed; about to read it -/
  | reading
  /-- read the file with this serial and this process id; about to probe -/
  | probing (serial : Nat) (pid : Nat)
  /-- what was read counts as left behind; about to remove the file -/
  | stealing (seen : Option Nat)
  /-- the process is alive; about to try again, or to give up -/
  | waiting
  /-- the process has ended -/
  | gone
deriving DecidableEq

def Phase.Owns : Phase → Prop
  | .writing _ _ | .holding => True
  | _ => False

inductive Move where
  | ask | create
  /-- write the next `n` characters, at least one -/
  | write (n : Nat)
  /-- return the guard; an error of the write is ignored -/
  | acquire
  | read
  /-- probe, with the answer of the system -/
  | probe (alive : Bool)
  | remove | retry | giveUp | release | stop
deriving DecidableEq

structure State where
  file : Option LockFile
  serial : Nat
  phase : Build → Phase

/-- What the builds do not choose: their process ids, and whose process each of them can
see and may signal. -/
structure Env where
  pid : Build → Nat
  pid_lt : ∀ b, pid b < 2 ^ 31
  sees : Build → Build → Bool

namespace State

def init : State := ⟨none, 0, fun _ => .away⟩

def setPhase (s : State) (b : Build) (p : Phase) : State :=
  { s with phase := Function.update s.phase b p }

/-- Append to the file with this serial; without its name it is out of reach. -/
def append (s : State) (serial : Nat) (text : List Char) : State :=
  { s with
    file := s.file.map fun f => if f.serial = serial then { f with text := f.text ++ text } else f }

def Holds (s : State) (b : Build) : Prop := (s.phase b).Owns

def Live (s : State) (b : Build) : Prop := s.phase b ≠ .gone

end State

/-- `create_new` fails where the file exists. -/
def create (env : Env) (s : State) (b : Build) : State :=
  match s.file with
  | none =>
    { s with file := some ⟨b, s.serial, []⟩, serial := s.serial + 1 }.setPhase b
      (.writing s.serial (pidText (env.pid b)))
  | some _ => s.setPhase b .reading

/-- `lock_dead`, up to the probe. -/
def read (s : State) (b : Build) : State :=
  match s.file with
  | none => s.setPhase b (.stealing none)
  | some f =>
    match parsePid f.text with
    | none => s.setPhase b (.stealing (some f.serial))
    | some pid => s.setPhase b (.probing f.serial pid)

def next (env : Env) (s : State) (b : Build) (m : Move) : Option State :=
  match m, s.phase b with
  | .ask, .away => some (s.setPhase b .opening)
  | .create, .opening => some (create env s b)
  | .write n, .writing serial rest =>
    if 0 < n ∧ n ≤ rest.length then
      some ((s.append serial (rest.take n)).setPhase b (.writing serial (rest.drop n)))
    else none
  | .acquire, .writing _ _ => some (s.setPhase b .holding)
  | .read, .reading => some (read s b)
  | .probe true, .probing _ _ => some (s.setPhase b .waiting)
  | .probe false, .probing serial _ => some (s.setPhase b (.stealing (some serial)))
  | .remove, .stealing _ => some ({ s with file := none }.setPhase b .opening)
  | .retry, .waiting => some (s.setPhase b .opening)
  | .giveUp, .waiting => some (s.setPhase b .away)
  | .release, .holding => some ({ s with file := none }.setPhase b .away)
  | .stop, .gone => none
  | .stop, _ => some (s.setPhase b .gone)
  | _, _ => none

/-- What the system may answer: `kill(pid, 0)` fails only if no process with this id is
alive that the caller sees.  It may succeed for a process that is no build. -/
def Answers (env : Env) (s : State) (b : Build) (m : Move) : Prop :=
  ∀ serial pid, s.phase b = .probing serial pid → m = .probe false →
    ∀ c, s.Live c → env.sees b c = true → env.pid c ≠ pid

/-- The runs of all builds whose steps satisfy `ok`. -/
def system (env : Env) (ok : State → Build → Move → Prop) : System State where
  init s := s = State.init
  step s s' := ∃ b m, ok s b m ∧ Answers env s b m ∧ next env s b m = some s'

def run (env : Env) (s : State) (moves : List (Build × Move)) : Option State :=
  moves.foldlM (fun s x => next env s x.1 x.2) s

def Exclusive (s : State) : Prop := ∀ b c, s.Holds b → s.Holds c → b = c

def Spares (env : Env) (s : State) (b : Build) (m : Move) : Prop :=
  ∀ s', next env s b m = some s' → ∀ c, c ≠ b → s.Holds c →
    ∀ f, s.file = some f → f.creator = c → s'.file = some f

/-- Nothing comes between what a stealer sees and what it removes: it reads no file that
its creator is still writing, it sees the processes of the builds it probes, and the file
it removes is the one it has read. -/
def Undisturbed (env : Env) (s : State) (b : Build) : Move → Prop
  | .read => ∀ f, s.file = some f → s.Live f.creator → f.text = pidText (env.pid f.creator)
  | .probe _ => ∀ c, env.sees b c = true
  | .remove => ∀ seen, s.phase b = .stealing seen → s.file.map LockFile.serial = seen
  | _ => True

/-!
## When the package lock excludes

A build that has the lock is the creator of the file at its path, and a file that some
build has judged left behind was created by a process that has ended.  Every undisturbed
step keeps both.  A stealer that reads a half-written file, that cannot see the owner's
process, or that is overtaken between its read and its removal breaks them.
-/

theorem dropWhile_digits {text : List Char} (h : ∀ c ∈ text, c.isDigit = true) (rest : List Char)
    (hne : text ≠ []) : (text ++ rest).dropWhile Char.isWhitespace = text ++ rest := by
  obtain ⟨c, cs, rfl⟩ := List.exists_cons_of_ne_nil hne
  have hc : c.isDigit = true := h c List.mem_cons_self
  have hspace : c.isWhitespace = false := by
    simp only [Char.isDigit, Bool.and_eq_true, decide_eq_true_eq] at hc
    simp only [Char.isWhitespace, Bool.or_eq_false_iff, decide_eq_false_iff_not]
    refine ⟨⟨⟨?_, ?_⟩, ?_⟩, ?_⟩ <;> rintro rfl <;> simp at hc
  rw [List.cons_append, List.dropWhile_cons_of_neg (by simp [hspace])]

theorem trim_pidText (pid : Nat) : trim (pidText pid) = Nat.toDigits 10 pid := by
  have hdigits : ∀ c ∈ Nat.toDigits 10 pid, c.isDigit = true :=
    fun c hc => Nat.isDigit_of_mem_toDigits (by decide) (by decide) hc
  have hne : Nat.toDigits 10 pid ≠ [] := Nat.toDigits_ne_nil
  have hback : (Nat.toDigits 10 pid).reverse.dropWhile Char.isWhitespace =
      (Nat.toDigits 10 pid).reverse := by
    have hrev : ∀ c ∈ (Nat.toDigits 10 pid).reverse, c.isDigit = true :=
      fun c hc => hdigits c (List.mem_reverse.1 hc)
    have hkeep := dropWhile_digits hrev [] (by simp)
    rwa [List.append_nil] at hkeep
  rw [trim, pidText, dropWhile_digits hdigits _ hne, List.reverse_append, List.reverse_singleton,
    List.singleton_append, List.dropWhile_cons_of_pos (by decide), hback, List.reverse_reverse]

theorem parsePid_pidText {pid : Nat} (h : pid < 2 ^ 31) : parsePid (pidText pid) = some pid := by
  have hall : (Nat.toDigits 10 pid).all Char.isDigit = true :=
    List.all_eq_true.2 fun c hc => Nat.isDigit_of_mem_toDigits (by decide) (by decide) hc
  rw [parsePid, trim_pidText]
  simp only [Nat.ofDigitChars_toDigits (by decide : 1 < 10) (by decide : 10 ≤ 10)]
  rw [if_pos ⟨Nat.toDigits_ne_nil, hall⟩, if_pos h]

/-! ## The invariant -/

/-- What the file owes to a build in a phase, and what the build knows of the file. -/
def Fits (env : Env) (s : State) (b : Build) : Phase → Prop
  | .writing serial rest =>
    ∃ f, s.file = some f ∧ f.creator = b ∧ f.serial = serial ∧
      f.text ++ rest = pidText (env.pid b)
  | .holding => ∃ f, s.file = some f ∧ f.creator = b
  | .probing serial pid =>
    serial < s.serial ∧
      ∀ f, s.file = some f → f.serial = serial → s.Live f.creator → env.pid f.creator = pid
  | .stealing (some serial) =>
    serial < s.serial ∧ ∀ f, s.file = some f → f.serial = serial → ¬s.Live f.creator
  | _ => True

structure Inv (env : Env) (s : State) : Prop where
  old : ∀ f, s.file = some f → f.serial < s.serial
  fits : ∀ b, Fits env s b (s.phase b)

variable {env : Env} {s s' : State} {b c : Build} {p q : Phase}

@[simp] theorem State.setPhase_file : (s.setPhase b p).file = s.file := rfl

@[simp] theorem State.setPhase_self : (s.setPhase b p).phase b = p := Function.update_self ..

theorem State.setPhase_of_ne (h : c ≠ b) : (s.setPhase b p).phase c = s.phase c :=
  Function.update_of_ne h ..

theorem State.Live.of_setPhase (hb : s.Live b) (h : (s.setPhase b p).Live c) : s.Live c := by
  by_cases hc : c = b
  · exact hc ▸ hb
  · intro hgone
    exact h ((setPhase_of_ne hc).trans hgone)

/-- What a build without the lock knows stays true when the file is written on or
removed, or when a file is created with a new serial. -/
theorem Fits.keep {t : State} (h : Fits env s c q) (hq : ¬q.Owns)
    (hserial : s.serial ≤ t.serial) (hlive : ∀ d, t.Live d → s.Live d)
    (hfile : ∀ f', t.file = some f' → s.serial ≤ f'.serial ∨
      ∃ f, s.file = some f ∧ f'.creator = f.creator ∧ f'.serial = f.serial) :
    Fits env t c q := by
  have hknown : ∀ {serial} {P : Build → Prop}, serial < s.serial →
      (∀ f, s.file = some f → f.serial = serial → P f.creator) →
      ∀ f', t.file = some f' → f'.serial = serial → P f'.creator := by
    intro serial P hlt hP f' hf' hs
    obtain hnew | ⟨f, hf, hcreator, hsame⟩ := hfile f' hf'
    · omega
    · rw [hcreator]
      exact hP f hf (hsame ▸ hs)
  cases q with
  | writing serial rest => exact absurd trivial hq
  | holding => exact absurd trivial hq
  | probing serial pid =>
    refine ⟨Nat.lt_of_lt_of_le h.1 hserial, fun f' hf' hs hl => ?_⟩
    exact hknown (P := fun d => s.Live d → env.pid d = pid) h.1 h.2 f' hf' hs (hlive _ hl)
  | stealing seen =>
    cases seen with
    | none => trivial
    | some serial =>
      refine ⟨Nat.lt_of_lt_of_le h.1 hserial, fun f' hf' hs hl => ?_⟩
      exact hknown (P := fun d => ¬s.Live d) h.1 h.2 f' hf' hs (hlive _ hl)
  | _ => trivial

theorem Fits.setPhase (hb : s.Live b) (h : Fits env s c q) : Fits env (s.setPhase b p) c q := by
  by_cases hq : q.Owns
  · cases q <;> first | exact h | exact absurd hq id
  · exact h.keep hq (Nat.le_refl _) (fun _ hd => hb.of_setPhase hd)
      fun f hf => .inr ⟨f, hf, rfl, rfl⟩

theorem inv_change {file : Option LockFile} {serial : Nat} (hb : s.Live b)
    (hold : ∀ f, file = some f → f.serial < serial) (hp : Fits env ⟨file, serial, s.phase⟩ b p)
    (hrest : ∀ c, c ≠ b → Fits env ⟨file, serial, s.phase⟩ c (s.phase c)) :
    Inv env (State.setPhase ⟨file, serial, s.phase⟩ b p) where
  old := hold
  fits c := by
    have hb' : State.Live ⟨file, serial, s.phase⟩ b := hb
    by_cases hc : c = b
    · subst hc
      rw [State.setPhase_self]
      exact hp.setPhase hb'
    · rw [State.setPhase_of_ne hc]
      exact (hrest c hc).setPhase hb'

theorem Inv.setPhase (h : Inv env s) (hb : s.Live b) (hp : Fits env s b p) :
    Inv env (s.setPhase b p) :=
  inv_change hb h.old hp fun c _ => h.fits c

theorem State.Holds.live (hb : s.Holds b) : s.Live b := by
  intro hgone
  rw [State.Holds, hgone] at hb
  exact hb

theorem Inv.creator (h : Inv env s) (hb : s.Holds b) : ∃ f, s.file = some f ∧ f.creator = b := by
  have hfits := h.fits b
  cases hphase : s.phase b with
  | writing serial rest =>
    rw [hphase] at hfits
    obtain ⟨f, hf, hc, -⟩ := hfits
    exact ⟨f, hf, hc⟩
  | holding =>
    rw [hphase] at hfits
    exact hfits
  | _ =>
    rw [State.Holds, hphase] at hb
    exact absurd hb id

theorem Inv.exclusive (h : Inv env s) : Exclusive s := by
  intro b c hb hc
  obtain ⟨f, hf, rfl⟩ := h.creator hb
  obtain ⟨f', hf', rfl⟩ := h.creator hc
  rw [Option.some.inj (hf.symm.trans hf')]

/-! ## Steps -/

theorem Inv.dropFile (h : Inv env s) (hb : s.Live b) (hfree : ∀ c, c ≠ b → ¬s.Holds c)
    (hp : Fits env { s with file := none } b p) :
    Inv env ({ s with file := none }.setPhase b p) :=
  inv_change hb (fun _ hf => nomatch hf) hp fun c hc =>
    (h.fits c).keep (hfree c hc) (Nat.le_refl _) (fun _ hd => hd) fun _ hf => nomatch hf

theorem Inv.create (h : Inv env s) (hb : s.Live b) : Inv env (create env s b) := by
  unfold PackageLock.create
  cases hfile : s.file with
  | some f => exact h.setPhase hb trivial
  | none =>
    refine inv_change hb (fun f hf => ?_) ⟨_, rfl, rfl, rfl, rfl⟩ fun c _ => ?_
    · obtain rfl := Option.some.inj hf
      exact Nat.lt_succ_self _
    · refine (h.fits c).keep (fun hc => ?_) (Nat.le_succ _) (fun _ hd => hd) fun f hf => ?_
      · obtain ⟨f, hf, -⟩ := h.creator hc
        exact absurd (hfile.symm.trans hf) (by simp)
      · obtain rfl := Option.some.inj hf
        exact .inl (Nat.le_refl _)

theorem Inv.write (h : Inv env s) {serial : Nat} {rest : List Char} (n : Nat)
    (hphase : s.phase b = .writing serial rest) :
    Inv env ((s.append serial (rest.take n)).setPhase b (.writing serial (rest.drop n))) := by
  have hown := h.fits b
  have hb : s.Holds b := by
    rw [State.Holds, hphase]
    trivial
  rw [hphase] at hown
  obtain ⟨f, hf, hcreator, hserial, htext⟩ := hown
  have hfile : (s.append serial (rest.take n)).file =
      some { f with text := f.text ++ rest.take n } := by
    simp [State.append, hf, hserial]
  refine inv_change hb.live (fun f' hf' => ?_) ⟨_, hfile, hcreator, hserial, ?_⟩ fun c hc => ?_
  · obtain rfl := Option.some.inj (hfile.symm.trans hf')
    exact h.old f hf
  · rw [List.append_assoc, List.take_append_drop, htext]
  · refine (h.fits c).keep (fun hholds => hc (h.exclusive c b hholds hb)) (Nat.le_refl _)
      (fun _ hd => hd) fun f' hf' => .inr ⟨f, hf, ?_⟩
    obtain rfl := Option.some.inj (hfile.symm.trans hf')
    exact ⟨rfl, rfl⟩

theorem Inv.read (h : Inv env s) (hb : s.Live b)
    (hfull : ∀ f, s.file = some f → s.Live f.creator → f.text = pidText (env.pid f.creator)) :
    Inv env (read s b) := by
  unfold PackageLock.read
  cases hfile : s.file with
  | none => exact h.setPhase hb trivial
  | some f =>
    have hparse : s.Live f.creator → parsePid f.text = some (env.pid f.creator) := by
      intro hlive
      rw [hfull f hfile hlive, parsePid_pidText (env.pid_lt _)]
    show Inv env (match parsePid f.text with | none => _ | some pid => _)
    cases hpid : parsePid f.text with
    | none =>
      refine h.setPhase hb ⟨h.old f hfile, fun f' hf' _ hlive => ?_⟩
      obtain rfl := Option.some.inj (hfile.symm.trans hf')
      exact absurd (hpid.symm.trans (hparse hlive)) (by simp)
    | some pid =>
      refine h.setPhase hb ⟨h.old f hfile, fun f' hf' _ hlive => ?_⟩
      obtain rfl := Option.some.inj (hfile.symm.trans hf')
      exact (Option.some.inj (hpid.symm.trans (hparse hlive))).symm

theorem Inv.next {m : Move} (h : Inv env s) (hok : Undisturbed env s b m)
    (hanswer : Answers env s b m) (hnext : next env s b m = some s') : Inv env s' := by
  have hfits := h.fits b
  have hlive : s.phase b ≠ .gone → s.Live b := id
  unfold PackageLock.next at hnext
  split at hnext
  · -- ask
    obtain rfl := Option.some.inj hnext
    exact h.setPhase (hlive (by simp [*])) trivial
  · -- create
    obtain rfl := Option.some.inj hnext
    exact h.create (hlive (by simp [*]))
  · -- write
    split at hnext
    · obtain rfl := Option.some.inj hnext
      exact h.write _ ‹_›
    · exact absurd hnext (by simp)
  · -- acquire
    rename_i hphase
    obtain rfl := Option.some.inj hnext
    rw [hphase] at hfits
    obtain ⟨f, hf, hcreator, -⟩ := hfits
    exact h.setPhase (hlive (by simp [hphase])) ⟨f, hf, hcreator⟩
  · -- read
    obtain rfl := Option.some.inj hnext
    exact h.read (hlive (by simp [*])) hok
  · -- the process answers
    obtain rfl := Option.some.inj hnext
    exact h.setPhase (hlive (by simp [*])) trivial
  · -- no process answers
    rename_i hphase
    obtain rfl := Option.some.inj hnext
    rw [hphase] at hfits
    refine h.setPhase (hlive (by simp [hphase])) ⟨hfits.1, fun f hf hs hl => ?_⟩
    exact hanswer _ _ hphase rfl _ hl (hok _) (hfits.2 f hf hs hl)
  · -- remove
    rename_i seen hphase
    obtain rfl := Option.some.inj hnext
    refine h.dropFile (hlive (by simp [hphase])) (fun c _ hholds => ?_) trivial
    obtain ⟨f, hf, rfl⟩ := h.creator hholds
    have hseen : some f.serial = seen := by
      have := hok seen hphase
      rwa [hf] at this
    rw [hphase, ← hseen] at hfits
    exact hfits.2 f hf rfl hholds.live
  · -- retry
    obtain rfl := Option.some.inj hnext
    exact h.setPhase (hlive (by simp [*])) trivial
  · -- give up
    obtain rfl := Option.some.inj hnext
    exact h.setPhase (hlive (by simp [*])) trivial
  · -- release
    rename_i hphase
    obtain rfl := Option.some.inj hnext
    have hholds : s.Holds b := by
      rw [State.Holds, hphase]
      trivial
    exact h.dropFile hholds.live (fun c hc hother => hc (h.exclusive c b hother hholds)) trivial
  · exact absurd hnext (by simp)
  · -- the process ends
    rename_i hphase
    obtain rfl := Option.some.inj hnext
    exact h.setPhase (hlive hphase) trivial
  · exact absurd hnext (by simp)

theorem Inv.spares {m : Move} (h : Inv env s) (hok : Undisturbed env s b m) :
    Spares env s b m := by
  intro s' hnext c hc hholds f hf hcreator
  have hfits := h.fits b
  have hb : ¬s.Holds b := fun hb => hc (h.exclusive c b hholds hb)
  unfold PackageLock.next at hnext
  split at hnext
  · obtain rfl := Option.some.inj hnext
    exact hf
  · obtain rfl := Option.some.inj hnext
    simp [PackageLock.create, hf]
  · rename_i hphase
    exact absurd (by rw [State.Holds, hphase]; trivial) hb
  · rename_i hphase
    exact absurd (by rw [State.Holds, hphase]; trivial) hb
  · obtain rfl := Option.some.inj hnext
    simp only [PackageLock.read, hf]
    cases parsePid f.text <;> exact hf
  · obtain rfl := Option.some.inj hnext
    exact hf
  · obtain rfl := Option.some.inj hnext
    exact hf
  · rename_i seen hphase
    have hseen : some f.serial = seen := by
      have := hok seen hphase
      rwa [hf] at this
    rw [hphase, ← hseen] at hfits
    exact absurd (hcreator ▸ hholds.live) (hfits.2 f hf rfl)
  · obtain rfl := Option.some.inj hnext
    exact hf
  · obtain rfl := Option.some.inj hnext
    exact hf
  · rename_i hphase
    exact absurd (by rw [State.Holds, hphase]; trivial) hb
  · exact absurd hnext (by simp)
  · obtain rfl := Option.some.inj hnext
    exact hf
  · exact absurd hnext (by simp)

theorem Inv.init : Inv env State.init := ⟨fun _ hf => (nomatch hf), fun _ => trivial⟩

theorem Inv.reach (h : (system env (Undisturbed env)).Reachable s) : Inv env s := by
  refine System.Reach.invariant (I := Inv env) (fun s hs => ?_) (fun s s' hi _ hstep => ?_) h
  · rw [hs]
    exact Inv.init
  · obtain ⟨b, m, hok, hanswer, hnext⟩ := hstep
    exact hi.next hok hanswer hnext

/-- A run whose steps are allowed in every state, and in which every probe finds a
process, leads to a state that the system reaches. -/
theorem reachable_run {ok : State → Build → Move → Prop} {moves : List (Build × Move)}
    (hs : (system env ok).Reachable s) (hok : ∀ x ∈ moves, ∀ t, ok t x.1 x.2)
    (hprobe : ∀ x ∈ moves, x.2 ≠ .probe false) (hrun : run env s moves = some s') :
    (system env ok).Reachable s' := by
  induction moves generalizing s with
  | nil =>
    obtain rfl := Option.some.inj hrun
    exact hs
  | cons x moves ih =>
    rw [run, List.foldlM_cons] at hrun
    obtain ⟨t, hnext, hrest⟩ := Option.bind_eq_some_iff.1 hrun
    have hanswer : Answers env s x.1 x.2 :=
      fun _ _ _ hm => absurd hm (hprobe x List.mem_cons_self)
    have hstep : (system env ok).step s t :=
      ⟨x.1, x.2, hok x List.mem_cons_self s, hanswer, hnext⟩
    exact ih (.next hs trivial hstep) (fun y hy => hok y (List.mem_cons_of_mem _ hy))
      (fun y hy => hprobe y (List.mem_cons_of_mem _ hy)) hrest

def sampleEnv : Env where
  pid b := 1000 + b % 1000
  pid_lt b := by omega
  sees _ _ := true

end Tyu.PackageLock

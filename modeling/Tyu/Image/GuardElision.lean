import Tyu.Image.Report
import Tyu.Lib.Runs

/-!
# Dropping the stack guards

A build may leave out the guards before the pushes of an image.
-/

namespace Tyu.Elision

open Lib Manifest Report

def deriveMainBudget (base limit : Option UInt64) (slotBytes : UInt64) : Option UInt32 := do
  let base ← base
  let limit ← limit
  if limit ≤ base ∨ slotBytes = 0 then none
  else
    let slots := (limit - base) / slotBytes
    if slots = 0 ∨ 0xFFFFFFFF < slots then none else some slots.toUInt32

/-- The artifacts of an image, its root module, and the symbols of its runtime. -/
structure Image where
  modules : List Report.LoadedModule
  root : Option String
  base : Option UInt64
  limit : Option UInt64

def SLOT_BYTES : UInt64 := 8

def Image.nMain (i : Image) : Option UInt32 := deriveMainBudget i.base i.limit SLOT_BYTES

def Image.elisionMainVerdict (i : Image) : String :=
  (mainContext i.modules i.root i.nMain).verdict

def Image.elides (i : Image) : Bool := i.elisionMainVerdict == "discharged"

abbrev WordRef := String × String

def Image.fact (i : Image) (w : WordRef) : Option WordFact :=
  ((i.modules.find? fun m => m.name == w.1).bind fun m => m.set).bind fun set =>
    set.facts.words.find? fun f => f.name == w.2

def Image.isHandler (i : Image) (w : WordRef) : Bool :=
  match i.fact w with
  | some f => f.performs.contains "INTERRUPT"
  | none => false

inductive Effect where
  | push | pop | silent
  | spawn (w : WordRef)
  | ret

def Effect.change : Effect → Int
  | .push => 1
  | .pop => -1
  | _ => 0

structure Code where
  State : Type
  start : WordRef → State
  step : State → Effect → State → Prop

inductive Code.Runs (code : Code) (w : WordRef) : Int → code.State → Prop
  | start : Runs code w 0 (code.start w)
  | step {n : Int} {c c' : code.State} {e : Effect} : Runs code w n c → code.step c e c' →
      Runs code w (n + e.change) c'

def Code.Sound (code : Code) (w : WordRef) (f : WordFact) : Prop :=
  (∀ n c, code.Runs w n c → n ≤ f.high.toNat) ∧
    ∀ n c c', code.Runs w n c → code.step c .ret c' → n = f.net.toInt

def Image.SoundBounds (i : Image) (code : Code) : Prop :=
  ∀ w f, i.fact w = some f → f.top = false → code.Sound w f

structure Activation (code : Code) where
  word : WordRef
  state : code.State
  used : Int

/-- A data stack of some bytes, with the words that are active on it, the last one first:
the word that the context was made for, and the handlers that interrupted it. -/
structure Context (code : Code) where
  bytes : Nat
  active : List (Activation code)

def Context.depth {code : Code} (c : Context code) : Int := (c.active.map Activation.used).sum

def Context.Inside {code : Code} (c : Context code) : Prop :=
  c.depth * SLOT_BYTES.toNat ≤ c.bytes

def TASK_STACK_BYTES : Nat := 65536

def Image.mainStart (i : Image) (code : Code) : Context code where
  bytes := (i.limit.getD 0).toNat - (i.base.getD 0).toNat
  active := [⟨(i.root.getD "", "main"), code.start (i.root.getD "", "main"), 0⟩]

def taskStart (code : Code) (w : WordRef) : Context code where
  bytes := TASK_STACK_BYTES
  active := [⟨w, code.start w, 0⟩]

inductive Action where
  /-- the context with this number takes a step -/
  | work (context : Nat) (e : Effect)
  /-- a handler interrupts the context with this number -/
  | interrupt (context : Nat) (handler : WordRef)

/-- The steps of an image without guards.  Any context may go on at any time. -/
inductive Step (i : Image) (code : Code) :
    List (Context code) → Action → List (Context code) → Prop
  | work {cs : List (Context code)} {k : Nat} {c : Context code} {a : Activation code}
      {rest : List (Activation code)} {e : Effect} {s : code.State} :
      cs[k]? = some c → c.active = a :: rest → code.step a.state e s →
      (∀ w, e ≠ .spawn w) → e ≠ .ret →
      Step i code cs (.work k e)
        (cs.set k { c with active := ⟨a.word, s, a.used + e.change⟩ :: rest })
  | spawn {cs : List (Context code)} {k : Nat} {c : Context code} {a : Activation code}
      {rest : List (Activation code)} {w : WordRef} {s : code.State} :
      cs[k]? = some c → c.active = a :: rest → code.step a.state (.spawn w) s →
      Step i code cs (.work k (.spawn w))
        (cs.set k { c with active := ⟨a.word, s, a.used⟩ :: rest } ++ [taskStart code w])
  | finish {cs : List (Context code)} {k : Nat} {c : Context code} {a : Activation code}
      {s : code.State} :
      cs[k]? = some c → c.active = [a] → code.step a.state .ret s →
      Step i code cs (.work k .ret) (cs.set k { c with active := [] })
  | leave {cs : List (Context code)} {k : Nat} {c : Context code} {a b : Activation code}
      {rest : List (Activation code)} {s : code.State} :
      cs[k]? = some c → c.active = a :: b :: rest → code.step a.state .ret s →
      Step i code cs (.work k .ret)
        (cs.set k { c with active := { b with used := b.used + a.used } :: rest })
  | interrupt {cs : List (Context code)} {k : Nat} {c : Context code} {h : WordRef} :
      cs[k]? = some c → c.active ≠ [] → i.isHandler h = true →
      Step i code cs (.interrupt k h)
        (cs.set k { c with active := ⟨h, code.start h, 0⟩ :: c.active })

/-- The runs of an image whose steps satisfy `ok`. -/
def system (i : Image) (code : Code) (ok : List (Context code) → Action → Prop) :
    System (List (Context code)) where
  init cs := cs = [i.mainStart code]
  step cs cs' := ∃ a, ok cs a ∧ Step i code cs a cs'

def Image.high (i : Image) (w : WordRef) : Nat := ((i.fact w).map fun f => f.high.toNat).getD 0

/-- What the words that are active on a data stack are reported to need together. -/
def Image.need (i : Image) {code : Code} (c : Context code) : Nat :=
  (c.active.map fun a => i.high a.word).sum

def Image.Bounded (i : Image) (w : WordRef) : Prop := ∃ f, i.fact w = some f ∧ f.top = false

/-- A task is spawned only if its word is bounded and fits the stack of a task, and a
handler comes only where it is bounded, leaves nothing behind, and fits on top of the words
that are active. -/
def Fits (i : Image) {code : Code} (cs : List (Context code)) : Action → Prop
  | .work _ (.spawn w) => i.Bounded w ∧ i.high w * SLOT_BYTES.toNat ≤ TASK_STACK_BYTES
  | .work _ _ => True
  | .interrupt k h =>
    (∃ f, i.fact h = some f ∧ f.top = false ∧ f.net = 0) ∧
      ∀ c, cs[k]? = some c → (i.need c + i.high h) * SLOT_BYTES.toNat ≤ c.bytes

/-! ## What a run keeps -/

section

variable {i : Image} {code : Code} {cs cs' : List (Context code)} {a : Action}

/-- The words that are active on a data stack: all bounded, and the handlers, which are
all but the one at the bottom, without a net effect. -/
def Layered (i : Image) : List WordRef → Prop
  | [] => True
  | [w] => i.Bounded w
  | h :: w :: rest =>
    (∃ f, i.fact h = some f ∧ f.top = false ∧ f.net = 0) ∧ Layered i (w :: rest)

theorem Layered.tail {w : WordRef} {rest : List WordRef} (h : Layered i (w :: rest)) :
    Layered i rest := by
  cases rest with
  | nil => trivial
  | cons v rest => exact h.2

theorem Layered.bounded {ws : List WordRef} (h : Layered i ws) : ∀ w ∈ ws, i.Bounded w := by
  induction ws with
  | nil => exact fun w hw => absurd hw List.not_mem_nil
  | cons v ws ih =>
    intro w hw
    obtain rfl | hw := List.mem_cons.1 hw
    · cases ws with
      | nil => exact h
      | cons _ _ =>
        obtain ⟨f, hf, htop, -⟩ := h.1
        exact ⟨f, hf, htop⟩
    · exact ih h.tail w hw

/-- The words on a data stack are in runs of their own, and fit it by their bounds. -/
structure Good (i : Image) {code : Code} (c : Context code) : Prop where
  layered : Layered i (c.active.map Activation.word)
  runs : ∀ a ∈ c.active, code.Runs a.word a.used a.state
  fits : i.need c * SLOT_BYTES.toNat ≤ c.bytes

theorem used_le_need {active : List (Activation code)}
    (h : ∀ a ∈ active, a.used ≤ i.high a.word) :
    (active.map Activation.used).sum ≤ ((active.map fun a => i.high a.word).sum : Nat) := by
  induction active with
  | nil => exact Int.le_refl 0
  | cons b rest ih =>
    have hb := h b List.mem_cons_self
    have hrest := ih fun a ha => h a (List.mem_cons_of_mem _ ha)
    simp only [List.map_cons, List.sum_cons]
    omega

theorem Good.inside {c : Context code} (hsound : i.SoundBounds code) (h : Good i c) : c.Inside := by
  have hdepth : c.depth ≤ i.need c := by
    refine used_le_need fun a ha => ?_
    obtain ⟨f, hf, htop⟩ := h.layered.bounded a.word (List.mem_map_of_mem ha)
    have hle := (hsound a.word f hf htop).1 a.used a.state (h.runs a ha)
    rw [Image.high, hf]
    exact hle
  have hfits := h.fits
  have hslot : SLOT_BYTES.toNat = 8 := rfl
  unfold Context.Inside
  rw [hslot] at hfits ⊢
  omega

theorem Good.work {c : Context code} {b : Activation code} {rest : List (Activation code)}
    {e : Effect} {s : code.State} (h : Good i c) (hactive : c.active = b :: rest)
    (hstep : code.step b.state e s) :
    Good i { c with active := ⟨b.word, s, b.used + e.change⟩ :: rest } := by
  have hruns := h.runs
  have hlayered := h.layered
  have hfits := h.fits
  rw [Image.need, hactive] at hfits
  rw [hactive] at hruns hlayered
  refine ⟨hlayered, fun x hx => ?_, hfits⟩
  obtain rfl | hx := List.mem_cons.1 hx
  · exact (hruns b List.mem_cons_self).step hstep
  · exact hruns x (List.mem_cons_of_mem _ hx)

theorem Good.leave {c : Context code} {b d : Activation code} {rest : List (Activation code)}
    {s : code.State} (hsound : i.SoundBounds code) (h : Good i c)
    (hactive : c.active = b :: d :: rest) (hstep : code.step b.state .ret s) :
    Good i { c with active := { d with used := d.used + b.used } :: rest } := by
  have hruns := h.runs
  have hlayered := h.layered
  have hfits := h.fits
  rw [Image.need, hactive] at hfits
  rw [hactive] at hruns hlayered
  obtain ⟨f, hf, htop, hnet⟩ := hlayered.1
  have hzero : b.used = 0 := by
    have := (hsound b.word f hf htop).2 _ _ _ (hruns b List.mem_cons_self) hstep
    rw [this, hnet]
    rfl
  refine ⟨hlayered.2, fun x hx => ?_, ?_⟩
  · rw [hzero, Int.add_zero] at hx
    exact hruns x (List.mem_cons_of_mem _ hx)
  · simp only [List.map_cons, List.sum_cons] at hfits
    simp only [Image.need, List.map_cons, List.sum_cons]
    have hmono := Nat.mul_le_mul_right SLOT_BYTES.toNat
      (Nat.le_add_left (i.high d.word + (rest.map fun a => i.high a.word).sum) (i.high b.word))
    exact Nat.le_trans hmono hfits

theorem good_idle (bytes : Nat) : Good i (⟨bytes, []⟩ : Context code) :=
  ⟨trivial, fun _ hx => absurd hx List.not_mem_nil, by simp [Image.need]⟩

theorem Good.interrupt {c : Context code} {w : WordRef} (h : Good i c) (hne : c.active ≠ [])
    (hw : ∃ f, i.fact w = some f ∧ f.top = false ∧ f.net = 0)
    (hroom : (i.need c + i.high w) * SLOT_BYTES.toNat ≤ c.bytes) :
    Good i { c with active := ⟨w, code.start w, 0⟩ :: c.active } := by
  refine ⟨?_, fun x hx => ?_, ?_⟩
  · obtain ⟨b, rest, hactive⟩ := List.exists_cons_of_ne_nil hne
    have hlayered := h.layered
    rw [hactive] at hlayered ⊢
    exact ⟨hw, hlayered⟩
  · obtain rfl | hx := List.mem_cons.1 hx
    · exact .start
    · exact h.runs x hx
  · have hneed : i.need { c with active := ⟨w, code.start w, 0⟩ :: c.active } =
        i.need c + i.high w := by
      simp [Image.need, Nat.add_comm]
    rw [hneed]
    exact hroom

theorem good_taskStart {w : WordRef} (hw : i.Bounded w)
    (hroom : i.high w * SLOT_BYTES.toNat ≤ TASK_STACK_BYTES) : Good i (taskStart code w) where
  layered := hw
  runs x hx := by
    obtain rfl := List.mem_singleton.1 hx
    exact .start
  fits := by simpa [Image.need, taskStart] using hroom

theorem main_of_elides (h : i.elides = true) : ∃ root f budget, i.root = some root ∧
    i.fact (root, "main") = some f ∧ f.top = false ∧ i.nMain = some budget ∧ f.high ≤ budget := by
  have hverdict : i.elisionMainVerdict = "discharged" := eq_of_beq h
  unfold Image.elisionMainVerdict mainContext at hverdict
  cases hroot : i.root with
  | none => simp [hroot] at hverdict
  | some root =>
    simp only [hroot] at hverdict
    split at hverdict
    · simp at hverdict
    · rename_i f hfact
      split at hverdict
      · simp at hverdict
      · rename_i htop
        split at hverdict
        · simp at hverdict
        · rename_i budget hbudget
          split at hverdict
          · rename_i hle
            exact ⟨root, f, budget, rfl, hfact, by simpa using htop, hbudget, hle⟩
          · simp at hverdict

theorem budget_bytes {budget : UInt32} (h : i.nMain = some budget) :
    budget.toNat * 8 ≤ (i.limit.getD 0).toNat - (i.base.getD 0).toNat := by
  unfold Image.nMain deriveMainBudget at h
  obtain ⟨base, hbase, h⟩ := Option.bind_eq_some_iff.1 h
  obtain ⟨limit, hlimit, h⟩ := Option.bind_eq_some_iff.1 h
  split at h
  · exact absurd h (by simp)
  · rename_i hgeometry
    dsimp only at h
    split at h
    · exact absurd h (by simp)
    · obtain rfl := Option.some.inj h
      rw [hbase, hlimit, Option.getD_some, Option.getD_some]
      rw [not_or, UInt64.not_le] at hgeometry
      have hlt := UInt64.lt_iff_toNat_lt.1 hgeometry.1
      have hsub : (limit - base).toNat = limit.toNat - base.toNat :=
        UInt64.toNat_sub_of_le _ _ (UInt64.le_iff_toNat_le.2 (by omega))
      have hslots : ((limit - base) / SLOT_BYTES).toUInt32.toNat ≤
          (limit.toNat - base.toNat) / 8 := by
        rw [UInt64.toNat_toUInt32, UInt64.toNat_div, hsub]
        exact Nat.mod_le _ _
      omega

theorem good_mainStart (h : i.elides = true) : Good i (i.mainStart code) := by
  obtain ⟨root, f, budget, hroot, hfact, htop, hbudget, hle⟩ := main_of_elides h
  have hmain : i.fact (i.root.getD "", "main") = some f := by
    rw [hroot]
    exact hfact
  refine ⟨⟨f, hmain, htop⟩, fun x hx => ?_, ?_⟩
  · obtain rfl := List.mem_singleton.1 hx
    exact .start
  · have hbytes := budget_bytes hbudget
    have hslot : SLOT_BYTES.toNat = 8 := rfl
    have hneed : i.need (i.mainStart code) = f.high.toNat := by
      simp [Image.need, Image.mainStart, Image.high, hmain]
    have hhigh := UInt32.le_iff_toNat_le.1 hle
    rw [hneed, hslot]
    show f.high.toNat * 8 ≤ (i.limit.getD 0).toNat - (i.base.getD 0).toNat
    omega

theorem good_step (hsound : i.SoundBounds code) (hgood : ∀ c ∈ cs, Good i c) (hfits : Fits i cs a)
    (hstep : Step i code cs a cs') : ∀ c ∈ cs', Good i c := by
  have hset : ∀ {k : Nat} {c : Context code}, Good i c → ∀ d ∈ cs.set k c, Good i d := by
    intro k c hc d hd
    obtain hd | rfl := List.mem_or_eq_of_mem_set hd
    · exact hgood d hd
    · exact hc
  cases hstep with
  | work hk hactive hcode _ _ =>
    exact hset ((hgood _ (List.mem_of_getElem? hk)).work hactive hcode)
  | spawn hk hactive hcode =>
    intro d hd
    obtain hd | hd := List.mem_append.1 hd
    · have := (hgood _ (List.mem_of_getElem? hk)).work hactive hcode
      simp only [Effect.change, Int.add_zero] at this
      exact hset this d hd
    · obtain rfl := List.mem_singleton.1 hd
      exact good_taskStart hfits.1 hfits.2
  | finish _ _ _ => exact hset (good_idle _)
  | leave hk hactive hcode =>
    exact hset ((hgood _ (List.mem_of_getElem? hk)).leave hsound hactive hcode)
  | interrupt hk hne _ =>
    exact hset ((hgood _ (List.mem_of_getElem? hk)).interrupt hne hfits.1 (hfits.2 _ hk))

/-- In an image whose guards are dropped, every context stays inside its data stack in
every run that spawns only tasks that fit theirs, and whose interrupts find room. -/
theorem elided_contexts_inside (helides : i.elides = true) (hsound : i.SoundBounds code)
    (h : (system i code (Fits i)).Reachable cs) : ∀ c ∈ cs, c.Inside := by
  have hgood : ∀ c ∈ cs, Good i c := by
    refine System.Reach.invariant (I := fun cs => ∀ c ∈ cs, Good i c) (fun cs hcs => ?_)
      (fun cs cs' hi _ hstep => ?_) h
    · rw [hcs]
      intro c hc
      obtain rfl := List.mem_singleton.1 hc
      exact good_mainStart helides
    · obtain ⟨a, hfits, hstep⟩ := hstep
      exact good_step hsound hi hfits hstep
  exact fun c hc => (hgood c hc).inside hsound

end

/-! ## A task that needs more than its stack -/

def plainFact (name : String) (high : UInt32) : WordFact :=
  ⟨name, 0, high, false, [], true, "", 1⟩

/-- The main word spawns a word of a bound of `n` slots. -/
def burstImage (n : UInt32) : Image where
  modules := [⟨"Main", some
    { schema := "", semantics := "", stmt := "", module := "Main", target := "x86_64"
      platform := "", modelSemantics := "", concurrency := "", abiContractVersion := 0
      facts := ⟨[plainFact "main" 1, plainFact "burst" n], [], []⟩, obligations := [] }, none⟩]
  root := some "Main"
  base := some 0x10000
  limit := some 0x20000

/-- The main word spawns the other one and returns; that one pushes `n` slots. -/
def burstCode (n : Nat) : Code where
  State := WordRef × Nat
  start w := (w, 0)
  step s e s' :=
    (s = (("Main", "main"), 0) ∧ e = .spawn ("Main", "burst") ∧ s' = (("Main", "main"), 1)) ∨
    (s = (("Main", "main"), 1) ∧ e = .ret ∧ s' = (("Main", "main"), 2)) ∨
    (s.1 = ("Main", "burst") ∧ s.2 < n ∧ e = .push ∧ s' = (s.1, s.2 + 1))

theorem burst_runs {n : Nat} {w : WordRef} {k : Int} {s : (burstCode n).State}
    (h : (burstCode n).Runs w k s) :
    (s : WordRef × Nat).1 = w ∧
      (w = ("Main", "burst") → k = (s : WordRef × Nat).2 ∧ (s : WordRef × Nat).2 ≤ n) ∧
      (w ≠ ("Main", "burst") → k = 0) := by
  induction h with
  | start => exact ⟨rfl, fun _ => ⟨rfl, Nat.zero_le n⟩, fun _ => rfl⟩
  | step _ hstep ih =>
    obtain ⟨hw, hburst, hother⟩ := ih
    obtain ⟨rfl, rfl, rfl⟩ | ⟨rfl, rfl, rfl⟩ | ⟨hs, hlt, rfl, rfl⟩ := hstep
    · have hne : w ≠ ("Main", "burst") := by
        rintro rfl
        exact absurd hw (by decide)
      exact ⟨hw, fun he => absurd he hne, fun _ => by simp [hother hne, Effect.change]⟩
    · have hne : w ≠ ("Main", "burst") := by
        rintro rfl
        exact absurd hw (by decide)
      exact ⟨hw, fun he => absurd he hne, fun _ => by simp [hother hne, Effect.change]⟩
    · have he : w = ("Main", "burst") := hw ▸ hs
      refine ⟨hw, fun _ => ⟨?_, hlt⟩, fun hne => absurd he hne⟩
      rw [(hburst he).1]
      exact (Int.natCast_succ _).symm

theorem burst_fact {n : UInt32} {w : WordRef} {f : WordFact}
    (h : (burstImage n).fact w = some f) :
    (w = ("Main", "main") ∧ f = plainFact "main" 1) ∨
      (w = ("Main", "burst") ∧ f = plainFact "burst" n) := by
  obtain ⟨module, name⟩ := w
  by_cases hmodule : module = "Main"
  · subst hmodule
    by_cases hmain : name = "main"
    · subst hmain
      exact .inl ⟨rfl, (Option.some.inj h).symm⟩
    · by_cases hburst : name = "burst"
      · subst hburst
        exact .inr ⟨rfl, (Option.some.inj h).symm⟩
      · simp [Image.fact, burstImage, plainFact, Ne.symm hmain, Ne.symm hburst] at h
  · simp [Image.fact, burstImage, Ne.symm hmodule] at h

theorem burst_sound (n : UInt32) : (burstImage n).SoundBounds (burstCode n.toNat) := by
  intro w f hf _
  obtain ⟨rfl, rfl⟩ | ⟨rfl, rfl⟩ := burst_fact hf
  · refine ⟨fun k s hruns => ?_, fun k s s' hruns _ => ?_⟩
    · rw [(burst_runs hruns).2.2 (by decide)]
      decide
    · exact (burst_runs hruns).2.2 (by decide)
  · refine ⟨fun k s hruns => ?_, fun k s s' hruns hstep => ?_⟩
    · obtain ⟨rfl, hle⟩ := (burst_runs hruns).2.1 rfl
      exact Int.ofNat_le.2 hle
    · have hw := (burst_runs hruns).1
      obtain ⟨rfl, he, -⟩ | ⟨rfl, -, -⟩ | ⟨-, -, he, -⟩ := hstep
      · exact absurd he (by simp)
      · exact absurd hw (by decide)
      · exact absurd he (by simp)

/-- The main word after it has spawned the other one, which has pushed `k` slots. -/
def afterBurst (n : UInt32) (k : Nat) : List (Context (burstCode n.toNat)) :=
  [{ (burstImage n).mainStart (burstCode n.toNat) with
      active := [⟨("Main", "main"), (("Main", "main"), 1), 0⟩] },
    ⟨TASK_STACK_BYTES, [⟨("Main", "burst"), (("Main", "burst"), k), k⟩]⟩]

theorem burst_spawned {n : UInt32} {ok : List (Context (burstCode n.toNat)) → Action → Prop}
    (hok : ∀ cs, ok cs (.work 0 (.spawn ("Main", "burst")))) :
    (system (burstImage n) (burstCode n.toNat) ok).Reachable (afterBurst n 0) := by
  refine .next (.start rfl) trivial ⟨.work 0 (.spawn ("Main", "burst")), hok _, ?_⟩
  have hcode : (burstCode n.toNat).step (("Main", "main"), 0) (.spawn ("Main", "burst"))
      (("Main", "main"), 1) := .inl ⟨rfl, rfl, rfl⟩
  exact @Step.spawn (burstImage n) (burstCode n.toNat) _ 0
    ((burstImage n).mainStart (burstCode n.toNat)) ⟨("Main", "main"), (("Main", "main"), 0), 0⟩ [] _ _ rfl rfl hcode

theorem burst_pushed {n : UInt32} {k : Nat} (h : k ≤ n.toNat) :
    (system (burstImage n) (burstCode n.toNat) fun _ _ => True).Reachable
      (afterBurst n k) := by
  induction k with
  | zero => exact burst_spawned fun _ => trivial
  | succ k ih =>
    refine .next (ih (by omega)) trivial ⟨.work 1 .push, trivial, ?_⟩
    have hcode : (burstCode n.toNat).step (("Main", "burst"), k) .push
        (("Main", "burst"), k + 1) := .inr (.inr ⟨rfl, h, rfl, rfl⟩)
    exact @Step.work (burstImage n) (burstCode n.toNat) (afterBurst n k) 1
      ⟨TASK_STACK_BYTES, [⟨("Main", "burst"), (("Main", "burst"), k), k⟩]⟩
      ⟨("Main", "burst"), (("Main", "burst"), k), k⟩ [] .push _ rfl rfl hcode
      (by simp) (by simp)

/-- A task whose word fits its stack. -/
theorem small_burst_inside : (burstImage 2).elides = true ∧
    ∀ c ∈ afterBurst 2 0, Context.Inside c := by
  have helides : (burstImage 2).elides = true := by decide
  refine ⟨helides, elided_contexts_inside helides (burst_sound 2) (burst_spawned fun _ => ?_)⟩
  exact ⟨⟨_, rfl, rfl⟩, by decide⟩

/-- The main context is discharged, and the task goes past its 64 KiB. -/
theorem task_bursts : ¬∀ (i : Image) (code : Code) (cs : List (Context code)),
    i.elides = true → i.SoundBounds code →
      (system i code fun _ _ => True).Reachable cs → ∀ c ∈ cs, c.Inside := by
  intro hclaim
  have helides : (burstImage 8193).elides = true := by decide
  have hinside := hclaim _ _ _ helides (burst_sound 8193) (burst_pushed (Nat.le_refl _))
    ⟨TASK_STACK_BYTES, [⟨("Main", "burst"), (("Main", "burst"), (8193 : UInt32).toNat), _⟩]⟩
    (List.mem_cons_of_mem _ List.mem_cons_self)
  revert hinside
  unfold Context.Inside
  simp [Context.depth]
  decide

end Tyu.Elision

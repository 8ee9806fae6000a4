import Tyu.Ir.Exec
import Tyu.Lib.BlockCode

/-! # Words and their code -/

namespace Tyu

open Lib

variable {L I X σ C N : Type} [DecidableEq L]

def trapCodeU32 : TrapCode → Nat
  | .contractFail => 20
  | .subtypeFail => 21
  | .assertFail => 22
  | .unreachable => 23
  | .taskQueueOverflow => 24
  | .stackOverflow => 10
  | .deadlock => 25
  | .regionExhausted => 26
  | .unsupportedImport => 27

/-- Is a number an `i64`? -/
def isI64 (v : Int) : Bool := -2 ^ 63 ≤ v && v < 2 ^ 63

/-- Is a number a `u16`? -/
def isU16 (n : Nat) : Bool := n < 2 ^ 16

def Word.graph (w : Word) : List (BlockId × List Op) :=
  w.blocks.items.map fun b => (b.id, b.ops.items)

theorem Word.graph_find {w : Word} {id : BlockId} {b : Block} (h : findBlock w id = some b) :
    w.graph.find? (fun p => p.1 == id) = some (id, b.ops.items) := by
  have hid : b.id = id := (findBlock_mem h).2
  rw [Word.graph, List.find?_map]
  have hfun : ((fun p : BlockId × List Op => p.1 == id) ∘ fun b : Block => (b.id, b.ops.items)) =
      fun b => b.id == id := rfl
  rw [hfun, show w.blocks.items.find? (fun b => b.id == id) = some b from h, Option.map_some, hid]

/-- The exits of an operation's code: on, to a block, to the end of the word, or out
with a trap. -/
def Lands (mark : BlockId → L) (finish : L) (trapped : TrapCode → X → σ → Prop)
    (Rep : Machine → σ → Prop) (m : Machine) : Control → Exit L X → σ → Prop
  | .next, e, s => e = .through ∧ Rep m s
  | .goto tgt, e, s => e = .to (mark tgt) ∧ Rep m s
  | .done, e, s => e = .to finish ∧ Rep m s
  | .trap code, e, s => ∃ x, e = .out x ∧ trapped code x s

structure Simulates (exec : I → σ → Option (Effect L X σ)) (T : Emitter L I Op C)
    (mark : BlockId → L) (finish : L) (trapped : TrapCode → X → σ → Prop) (W : World)
    (write : OpKind → Machine → N → N) (Rep : N → Machine → σ → Prop)
    (ok : OpKind → N → Machine → Prop) : Prop where
  fresh : T.Fresh mark
  ticks : ∀ n m s, Rep n m s → Rep n m.tick s
  forgets : ∀ n m s, Rep n m s → Rep n m.forget s
  step : ∀ c op own n m m' ctl s, T.code c op = some own → Rep n m s → ok op.kind n m →
    execOp W op.kind m = .ok (m', ctl) →
      Segment exec (T.issued c) (· = s) own
        (Lands mark finish trapped (Rep (write op.kind m n)) m' ctl)

structure Noted (N : Type) where
  config : Config
  note : N

def notedSystem (W : World) (w : Word) (write : OpKind → Machine → N → N) (m₀ : Machine) (n₀ : N) :
    System (Noted N) where
  init k := (wordSystem W w (· = m₀)).init k.config ∧ k.note = n₀
  step k k' := wordStep W w k.config = .running k'.config ∧
    ∀ op, currentOp w k.config = some op → k'.note = write op.kind k.config.machine k.note

def StepOk (w : Word) (ok : OpKind → N → Machine → Prop) (k : Noted N) : Prop :=
  ∀ op, currentOp w k.config = some op → ok op.kind k.note k.config.machine

def Mirrors (T : Emitter L I Op C) (mark : BlockId → L) (Rep : N → Machine → σ → Prop) (w : Word)
    (prog : List (Line L I)) (k : Noted N) (p : Point L I X σ) : Prop :=
  Rep k.note k.config.machine p.state ∧
    ((k.config.pc = 0 ∧ ∃ s, p = .seek (mark k.config.block) s) ∨
      ∃ b code s, findBlock w k.config.block = some b ∧ p = .at code s ∧
        T.Stands prog (b.ops.items.drop k.config.pc) code)

section Runs

variable {exec : I → σ → Option (Effect L X σ)} {T : Emitter L I Op C} {mark : BlockId → L}
  {finish : L} {trapped : TrapCode → X → σ → Prop} {W : World} {write : OpKind → Machine → N → N}
  {Rep : N → Machine → σ → Prop} {ok : OpKind → N → Machine → Prop} {w : Word}
  {prog : List (Line L I)} {k k' : Noted N} {p : Point L I X σ}

def Placed (T : Emitter L I Op C) (mark : BlockId → L) (w : Word) (prog : List (Line L I)) : Prop :=
  ∃ pre c body k, prog = pre ++ (body ++ k) ∧ T.blocks mark c w.graph = some body ∧
    (∀ l, Labelled pre l → T.issued c l) ∧ ∀ b, ¬Labelled pre (mark b)

theorem Placed.find (hT : T.Fresh mark) (h : Placed T mark w prog) {id : BlockId} {b : Block}
    (hb : findBlock w id = some b) :
    ∃ code, target (mark id) prog = some code ∧ T.Stands prog b.ops.items code := by
  obtain ⟨pre, c, body, k, hprog, hbody, hpre, hfree⟩ := h
  exact hT.find hprog hbody hpre (hfree id) (Word.graph_find hb)

theorem drop_of_currentOp {c : Config} {op : Op} (h : currentOp w c = some op) :
    ∃ b, findBlock w c.block = some b ∧
      b.ops.items.drop c.pc = op :: b.ops.items.drop (c.pc + 1) := by
  unfold currentOp at h
  obtain ⟨b, hb, hop⟩ := Option.bind_eq_some_iff.mp h
  refine ⟨b, hb, ?_⟩
  obtain ⟨hlt, rfl⟩ := List.getElem?_eq_some_iff.mp hop
  exact List.drop_eq_getElem_cons hlt

theorem Mirrors.run (hT : T.Fresh mark) (hw : Placed T mark w prog)
    (h : Mirrors T mark Rep w prog k p) {op : Op} (hop : currentOp w k.config = some op)
    {Q : Exit L X → σ → Prop}
    (hseg : ∀ c₁ own, T.code c₁ op = some own →
      Segment exec (T.issued c₁) (· = p.state) own Q) :
    ∃ e s' rest, Q e s' ∧ Leads exec prog p (e.point rest s') ∧
      ∃ b, findBlock w k.config.block = some b ∧
        T.Stands prog (b.ops.items.drop (k.config.pc + 1)) rest := by
  obtain ⟨b, hb, hdrop⟩ := drop_of_currentOp hop
  rcases h.2 with ⟨hpc, s, rfl⟩ | ⟨b', code, s, hb', rfl, hstands⟩
  · obtain ⟨code, htarget, hstands⟩ := hw.find hT hb
    have hzero : b.ops.items.drop k.config.pc = b.ops.items := by rw [hpc, List.drop_zero]
    rw [← hzero, hdrop] at hstands
    obtain ⟨e, s', rest, hq, hrun, hrest⟩ := hstands.run hT hseg
    refine ⟨e, s', rest, hq, .head (q := .at code s) ?_ hrun, b, hb, hrest⟩
    rw [advance, htarget]
    rfl
  · rw [hb] at hb'
    cases hb'
    rw [hdrop] at hstands
    obtain ⟨e, s', rest, hq, hrun, hrest⟩ := hstands.run hT hseg
    exact ⟨e, s', rest, hq, hrun, b, hb, hrest⟩

variable (hsim : Simulates exec T mark finish trapped W write Rep ok) (hw : Placed T mark w prog)

include hsim hw

theorem Mirrors.step {m₀ : Machine} {n₀ : N} (h : Mirrors T mark Rep w prog k p)
    (hok : StepOk w ok k) (hstep : (notedSystem W w write m₀ n₀).step k k') :
    ∃ p', Leads exec prog p p' ∧ Mirrors T mark Rep w prog k' p' := by
  obtain ⟨config', note'⟩ := k'
  obtain ⟨hstep, hnote⟩ := hstep
  obtain ⟨op, m, ctl, hop, hexec, hfollow⟩ := wordStep_eq_running.mp hstep
  obtain rfl : note' = _ := hnote op hop
  obtain ⟨e, s', rest, hq, hrun, b, hb, hrest⟩ := h.run hsim.fresh hw hop fun c₁ own hown =>
    hsim.step c₁ op own k.note k.config.machine m ctl p.state hown h.1 (hok op hop) hexec
  rcases follow_eq_running.mp hfollow with ⟨rfl, rfl⟩ | ⟨tgt, rfl, rfl⟩
  · obtain ⟨rfl, hrep⟩ := hq
    exact ⟨_, hrun, hsim.ticks _ _ _ hrep, .inr ⟨b, rest, s', hb, rfl, hrest⟩⟩
  · obtain ⟨rfl, hrep⟩ := hq
    exact ⟨_, hrun, hsim.forgets _ _ _ (hsim.ticks _ _ _ hrep), .inl ⟨rfl, s', rfl⟩⟩

theorem Mirrors.returned (h : Mirrors T mark Rep w prog k p) (hok : StepOk w ok k) {m : Machine}
    (hstep : wordStep W w k.config = .returned m) :
    ∃ n s', Leads exec prog p (.seek finish s') ∧ Rep n m s' := by
  unfold wordStep at hstep
  split at hstep
  · cases hstep
  · rename_i op hop
    split at hstep
    · cases hstep
    · rename_i m' ctl hexec
      obtain ⟨e, s', rest, hq, hrun, -⟩ := h.run hsim.fresh hw hop fun c₁ own hown =>
        hsim.step c₁ op own k.note k.config.machine m' ctl p.state hown h.1 (hok op hop) hexec
      cases ctl with
      | done =>
        cases hstep
        obtain ⟨rfl, hrep⟩ := hq
        exact ⟨_, s', hrun, hrep⟩
      | next => cases hstep
      | goto tgt => cases hstep
      | trap code => cases hstep

theorem Mirrors.stopped (h : Mirrors T mark Rep w prog k p) (hok : StepOk w ok k) {code : TrapCode}
    (hstep : wordStep W w k.config = .trapped code) :
    ∃ x s', Leads exec prog p (.left x s') ∧ trapped code x s' := by
  unfold wordStep at hstep
  split at hstep
  · cases hstep
  · rename_i op hop
    split at hstep
    · cases hstep
    · rename_i m' ctl hexec
      obtain ⟨e, s', rest, hq, hrun, -⟩ := h.run hsim.fresh hw hop fun c₁ own hown =>
        hsim.step c₁ op own k.note k.config.machine m' ctl p.state hown h.1 (hok op hop) hexec
      cases ctl with
      | trap code' =>
        cases hstep
        obtain ⟨x, rfl, htrap⟩ := hq
        exact ⟨x, s', hrun, htrap⟩
      | next => cases hstep
      | goto tgt => cases hstep
      | done => cases hstep

theorem mirrors_reach {m₀ : Machine} {n₀ : N} {s₀ : σ} (hrep : Rep n₀ m₀ s₀)
    (h : (notedSystem W w write m₀ n₀).Reach (StepOk w ok) k) :
    ∃ p, Leads exec prog (.seek (mark w.entry) s₀) p ∧ Mirrors T mark Rep w prog k p := by
  induction h with
  | @start k hinit =>
    obtain ⟨⟨hblock, hpc, hm⟩, hn⟩ := hinit
    refine ⟨_, .refl, ?_, .inl ⟨hpc, s₀, by rw [hblock]⟩⟩
    rw [hm, hn]
    exact hrep
  | next _ hok hstep ih =>
    obtain ⟨p, hrun, hmirrors⟩ := ih
    obtain ⟨p', hrun', hmirrors'⟩ := hmirrors.step hsim hw hok hstep
    exact ⟨p', hrun.trans hrun', hmirrors'⟩

end Runs

def StepMeets (w : Word) (ok : OpKind → Machine → Prop) (c : Config) : Prop :=
  ∀ op, currentOp w c = some op → ok op.kind c.machine

def Occurs (w : Word) (kind : OpKind) : Prop :=
  ∃ b ∈ w.blocks.items, ∃ op ∈ b.ops.items, op.kind = kind

theorem occurs_of_currentOp {w : Word} {c : Config} {op : Op} (h : currentOp w c = some op) :
    Occurs w op.kind := by
  obtain ⟨b, hb, hop⟩ := Option.bind_eq_some_iff.mp h
  exact ⟨b, (findBlock_mem hb).1, op, List.mem_of_getElem? hop, rfl⟩

abbrev plainSystem (W : World) (w : Word) (m₀ : Machine) : System (Noted Unit) :=
  notedSystem W w (fun _ _ n => n) m₀ ()

theorem plain_reach {W : World} {w : Word} {m₀ : Machine} {ok : Config → Prop}
    {ok' : Noted Unit → Prop} (hok : ∀ c, ok c → ok' ⟨c, ()⟩) {c : Config}
    (h : (wordSystem W w (· = m₀)).Reach ok c) : (plainSystem W w m₀).Reach ok' ⟨c, ()⟩ := by
  induction h with
  | start h => exact .start ⟨h, rfl⟩
  | next _ hc hstep ih => exact .next ih (hok _ hc) ⟨hstep, fun _ _ => rfl⟩

end Tyu

import Tyu.Verifier.CfgSound

/-!
# Discharging a word is sound where the engine settles

The states that `runCfg` leaves describe every run of the word: each value on the stack at the
entry of a block is in the abstract value the engine holds for that position, and each result in
the exit state.
-/

namespace Tyu

open Lib

def DescribesStack (s : State) (m : Machine) : Prop :=
  List.Forall₂ (fun slot cell => slot.iv.contains cell.val = true) s.stack m.stack.items

structure Discharged {M : Type} [MemModel M] (W : World) (w : Word) (sr : SubtypeRange)
    (wordBits : Nat) (cf : CfgState M) (c : Config) : Prop where
  entered : c.pc = 0 → DescribesStack (cf.state c.block) c.machine
  returned : ∀ m, wordStep W w c = .returned m →
    DescribesStack (exitState cf.states w sr wordBits cf.mem) m

/-- A narrowing cast that is about to run finds a value of its target range. -/
def CastsInRange (w : Word) (sr : SubtypeRange) (c : Config) : Prop :=
  ∀ op, currentOp w c = some op → CastInRange sr op.kind c.machine

/-! ## Leaving a block -/

def OpKind.targets : OpKind → List BlockId
  | .br target => [target]
  | .brIf thenTgt elseTgt => [thenTgt, elseTgt]
  | _ => []

theorem blockSuccessors_of_last {b : Block} {op : Op} (h : b.ops.items.getLast? = some op) :
    blockSuccessors b = op.kind.targets := by
  obtain ⟨kind, span⟩ := op
  unfold blockSuccessors
  rw [h]
  cases kind <;> rfl

theorem endsInRet_of_last {b : Block} {op : Op} (h : b.ops.items.getLast? = some op)
    (hret : op.kind = .ret) : endsInRet b = true := by
  obtain ⟨kind, span⟩ := op
  subst hret
  unfold endsInRet
  rw [h]

def Leaves (kind : OpKind) : Control → Prop
  | .goto tgt => tgt ∈ kind.targets
  | .done => kind = .ret
  | .next | .trap _ => True

theorem execOp_leaves {W : World} {kind : OpKind} {m m' : Machine} {ctl : Control}
    (h : execOp W kind m = .ok (m', ctl)) : Leaves kind ctl := by
  cases kind with
  | br target =>
    cases pure_eq_ok.mp h
    exact List.mem_singleton.mpr rfl
  | brIf thenTgt elseTgt =>
    simp only [execOp, bind_eq_ok, pure_eq_ok, Prod.exists, Prod.mk.injEq] at h
    obtain ⟨c, m₁, -, -, rfl⟩ := h
    show (if c.val ≠ 0 then thenTgt else elseTgt) ∈ [thenTgt, elseTgt]
    split
    · exact List.mem_cons_self ..
    · exact List.mem_cons_of_mem _ (List.mem_singleton.mpr rfl)
  | ret =>
    cases pure_eq_ok.mp h
    rfl
  | interruptDisable | interruptEnable =>
    cases pure_eq_ok.mp h
    trivial
  | addI64 | subI64 | mulI64 | cmp out k | andBool | orBool =>
    rw [execOp] at h
    obtain ⟨_, _, _, -, -, -, rfl⟩ := of_binop h
    trivial
  | load ty | mmioVolLoad ty place rk am bar
  | mmioVolLoadField regTy fieldTy place mask shift rk am bar =>
    rw [execOp] at h
    obtain ⟨_, _, -, -, -, rfl⟩ := of_readTop h
    trivial
  | constI64 v | constBool v | constStr span | addrOf place isMut base | scopedEnter ty len
  | taskSpawn name taskTy =>
    obtain ⟨-, -, rfl⟩ := of_pushVal h
    trivial
  | trapIfFalse code =>
    simp only [execOp, bind_eq_ok, pure_eq_ok, Prod.exists, Prod.mk.injEq] at h
    obtain ⟨c, m₁, -, -, rfl⟩ := h
    split <;> trivial
  | call name sig performs requires bound =>
    simp only [execOp, bind_eq_ok, Prod.exists] at h
    obtain ⟨args, m₁, -, h⟩ := h
    split at h
    · cases pure_eq_ok.mp h
      trivial
    · simp only [bind_eq_ok, pure_eq_ok, Prod.mk.injEq] at h
      obtain ⟨m₂, -, -, rfl⟩ := h
      trivial
  | mmioPlace place aperture offset =>
    simp only [execOp, bind_eq_ok, pure_eq_ok, Prod.mk.injEq] at h
    obtain ⟨m₁, -, -, rfl⟩ := h
    trivial
  | localGet slot ty =>
    simp only [execOp, bind_eq_ok, pure_eq_ok, Prod.mk.injEq] at h
    obtain ⟨m₁, -, -, rfl⟩ := h
    trivial
  | drop ty | localSet slot ty =>
    simp only [execOp, bind_eq_ok, pure_eq_ok, Prod.exists, Prod.mk.injEq] at h
    obtain ⟨c, m₁, -, -, rfl⟩ := h
    trivial
  | ptrAddConst ty offset | notBool | cast src tgt | bitcast src tgt =>
    simp only [execOp, bind_eq_ok, pure_eq_ok, Prod.exists, Prod.mk.injEq] at h
    obtain ⟨c, m₁, -, m₂, -, -, rfl⟩ := h
    trivial
  | store ty | mmioVolStore ty place wk rk am bar
  | mmioVolStoreField regTy fieldTy place mask shift wk rk am bar =>
    simp only [execOp, bind_eq_ok, pure_eq_ok, Prod.exists, Prod.mk.injEq] at h
    obtain ⟨v, m₁, -, a, m₂, -, -, rfl⟩ := h
    trivial
  | ptrAddIndex ty scale =>
    simp only [execOp, bind_eq_ok, pure_eq_ok, Prod.exists, Prod.mk.injEq] at h
    obtain ⟨i, m₁, -, p, m₂, -, m₃, -, -, rfl⟩ := h
    trivial
  | dup ty =>
    simp only [execOp, bind_eq_ok, pure_eq_ok, Prod.exists, Prod.mk.injEq] at h
    obtain ⟨c, m₁, -, m₂, -, m₃, -, -, rfl⟩ := h
    trivial
  | swap a b =>
    simp only [execOp, bind_eq_ok, pure_eq_ok, Prod.exists, Prod.mk.injEq] at h
    obtain ⟨cb, m₁, -, ca, m₂, -, m₃, -, m₄, -, -, rfl⟩ := h
    trivial

theorem verifyOp_terminates {w : Word} {st st' : VerifyState} {op : Op}
    (h : verifyOp w st op = .ok st') (hop : op.kind.targets ≠ [] ∨ op.kind = .ret) :
    st'.terminated = true := by
  obtain ⟨kind, span⟩ := op
  cases kind with
  | br target =>
    simp only [verifyOp, bind_eq_ok, pure_eq_ok] at h
    obtain ⟨_, -, _, -, rfl⟩ := h
    rfl
  | brIf thenTgt elseTgt =>
    simp only [verifyOp, bind_eq_ok, pure_eq_ok, Prod.exists] at h
    obtain ⟨_, -, _, _, -, _, -, _, -, _, -, rfl⟩ := h
    rfl
  | ret =>
    simp only [verifyOp, bind_eq_ok, pure_eq_ok] at h
    obtain ⟨_, -, _, -, _, -, rfl⟩ := h
    rfl
  | _ =>
    rcases hop with h | h
    · exact absurd rfl h
    · cases h

theorem Consistent.last {w : Word} (hw : Accepted w) {c : Config} (hc : Consistent w c)
    {b : Block} (hb : findBlock w c.block = some b) {op : Op} (hop : b.ops.items[c.pc]? = some op)
    (hend : op.kind.targets ≠ [] ∨ op.kind = .ret) :
    b.ops.items.take (c.pc + 1) = b.ops.items ∧ b.ops.items.getLast? = some op := by
  obtain ⟨b', st, hb', hpre, -, -⟩ := hc
  rw [hb] at hb'
  cases hb'
  obtain ⟨stEnd, hall, -⟩ := hw.block (findBlock_mem hb).1
  obtain ⟨st', hstep, hpre'⟩ := foldlM_at hall hpre hop
  have hterm := verifyOp_terminates hstep hend
  have hlen : b.ops.items.length = c.pc + 1 := by
    have hlt := (List.getElem?_eq_some_iff.mp hop).1
    by_contra hne
    have hnextlt : c.pc + 1 < b.ops.items.length := by omega
    have hnext : b.ops.items[c.pc + 1]? = some b.ops.items[c.pc + 1] :=
      List.getElem?_eq_getElem hnextlt
    obtain ⟨st'', hstep', -⟩ := foldlM_at hall hpre' hnext
    rw [verifyOp, bind_eq_ok] at hstep'
    obtain ⟨_, hlive, -⟩ := hstep'
    rw [require_eq_ok.mp hlive] at hterm
    cases hterm
  refine ⟨List.take_of_length_le (Nat.le_of_eq hlen), ?_⟩
  rw [List.getLast?_eq_getElem?, hlen]
  exact hop

/-! ## Runs -/

section Runs

variable {M : Type} [MemModel M] {W : World} {w : Word} {sr : SubtypeRange} {wordBits : Nat}
  {mem : M} {cf : CfgState M} {Entered : BlockId → Prop}

/-- The invariant of a run: the engine's state of the block, carried through the
operations already run, covers the machine. -/
def Described (w : Word) (sr : SubtypeRange) (wordBits : Nat) (mem : M) (cf : CfgState M)
    (Entered : BlockId → Prop) (c : Config) : Prop :=
  ∃ b, w.blocks.items[c.block.idx]? = some b ∧ Entered c.block ∧
    Covers ((cf.state c.block).steps (b.ops.items.take c.pc) sr wordBits mem).1 c.machine

theorem steps_take_succ {s : State} {ops : List Op} {i : Nat} {op : Op} (hop : ops[i]? = some op) :
    s.steps (ops.take (i + 1)) sr wordBits mem =
      (s.steps (ops.take i) sr wordBits mem).1.step op.kind sr wordBits
        (s.steps (ops.take i) sr wordBits mem).2 := by
  obtain ⟨hi, heq⟩ := List.getElem?_eq_some_iff.mp hop
  unfold State.steps
  rw [List.take_succ_eq_append_getElem hi, heq, List.foldl_append]
  rfl

theorem Covers.tick {s : State} {m : Machine} (h : Covers s m) : Covers s m.tick :=
  ⟨h.stack, h.room, h.locals⟩

theorem Described.init (hw : Accepted w) (hidx : Indexed w)
    (hpost : PostFixpoint w sr wordBits mem cf Entered) {m : Machine}
    (hm : m.stackTypes = w.sig.inputs.items) (hlocals : 64 ≤ m.locals.length) :
    Described w sr wordBits mem cf Entered ⟨w.entry, 0, m⟩ := by
  obtain ⟨b, hb, -⟩ := hidx.first hw
  rw [hidx.1]
  refine ⟨b, hb, hpost.entered, ?_⟩
  have hdepth : m.stack.items.length = w.sig.inLen := by
    have := congrArg List.length hm
    rwa [Machine.stackTypes, List.length_reverse, List.length_map] at this
  have hentry : Covers (.calleeEntry w.sig.inLen 64) m := by
    refine ⟨List.forall₂_iff_get.mpr ⟨?_, ?_⟩, hlocals, ?_⟩
    · rw [calleeEntry_length, hdepth]
    · intro i h₁ h₂
      have hiv : ∀ x ∈ (State.calleeEntry w.sig.inLen 64).stack, x.iv = .top := by
        intro x hx
        obtain ⟨j, -, rfl⟩ := List.mem_map.mp (List.mem_reverse.mp hx)
        rfl
      unfold Slot.Describes
      rw [hiv _ (List.get_mem _ _)]
      rfl
    · intro i
      unfold Slot.Describes
      rw [(openLocals_calleeEntry w.sig.inLen).getD i]
      rfl
  exact hentry.mono hpost.entry (hpost.locals _) (openLocals_calleeEntry _).length

variable [BlindMem M]

theorem Described.exec {c : Config} {b : Block}
    (hcov : Covers ((cf.state c.block).steps (b.ops.items.take c.pc) sr wordBits mem).1 c.machine)
    {op : Op} (hop : b.ops.items[c.pc]? = some op) (hcast : CastInRange sr op.kind c.machine)
    {m : Machine} {ctl : Control} (hex : execOp W op.kind c.machine = .ok (m, ctl))
    (hctl : ∀ code, ctl ≠ .trap code) :
    Covers ((cf.state c.block).steps (b.ops.items.take (c.pc + 1)) sr wordBits mem).1 m := by
  rw [steps_take_succ hop]
  exact step_covers hcov hcast hex hctl

theorem currentOp_eq (hidx : Indexed w) {c : Config} {b : Block}
    (hb : w.blocks.items[c.block.idx]? = some b) : currentOp w c = b.ops.items[c.pc]? := by
  rw [currentOp, hidx.findBlock_eq, hb, Option.bind_some]

theorem Described.step (hw : Accepted w) (hidx : Indexed w)
    (hpost : PostFixpoint w sr wordBits mem cf Entered) {c c' : Config} (hcons : Consistent w c)
    (h : Described w sr wordBits mem cf Entered c) (hcast : CastsInRange w sr c)
    (hstep : wordStep W w c = .running c') : Described w sr wordBits mem cf Entered c' := by
  obtain ⟨b, hb, hent, hcov⟩ := h
  obtain ⟨op, m, ctl, hcur, hex, hfollow⟩ := wordStep_eq_running.mp hstep
  have hop : b.ops.items[c.pc]? = some op := by rw [← currentOp_eq hidx hb, hcur]
  have hcov' := Described.exec hcov hop (hcast op hcur) hex <| by
    rintro code rfl
    cases hfollow
  rcases follow_eq_running.mp hfollow with ⟨rfl, rfl⟩ | ⟨tgt, rfl, rfl⟩
  · exact ⟨b, hb, hent, hcov'.tick⟩
  · have htgt : tgt ∈ op.kind.targets := execOp_leaves hex
    have hfind : findBlock w c.block = some b := by rw [hidx.findBlock_eq, hb]
    obtain ⟨htake, hlast⟩ := hcons.last hw hfind hop (.inl (List.ne_nil_of_mem htgt))
    rw [← blockSuccessors_of_last hlast] at htgt
    obtain ⟨hent', hbelow⟩ := hpost.next c.block b tgt hent hb htgt
    obtain ⟨stEnd, hver, -⟩ := hw.block (List.mem_of_getElem? hb)
    obtain ⟨tb, htb, -⟩ := successor_depth hidx hver htgt
    rw [htake] at hcov'
    refine ⟨tb, htb, hent', ?_⟩
    have hlen : (blockFlow sr wordBits mem (cf.state c.block) b).locals.length = 64 := by
      rw [blockFlow, steps_locals_length]
      exact (hpost.locals c.block).length
    exact (hcov'.mono hbelow (hpost.locals tgt) hlen).forget

end Runs

section Exit

variable {M : Type} [MemModel M] {w : Word} {sr : SubtypeRange} {wordBits n : Nat}
  {states : List State} {m : Machine}

def Shallow (n : Nat) (s : State) : Prop := s.stack.length ≤ n ∧ s.locals.length = 64

theorem Shallow.merge {a b : State} (ha : Shallow n a) (hb : Shallow n b) :
    Shallow n (mergeFirstVisit a b) := by
  refine ⟨?_, ?_⟩
  · rw [mergeFirstVisit_length]
    exact Nat.max_le.mpr ⟨ha.1, hb.1⟩
  · show (zipPad _ _ _ _).length = 64
    rw [zipPad_length, ha.2, hb.2, Nat.max_self]

theorem exitFold_keeps {bs : List Block} {i : Nat} {a : State} {mem : M}
    (hflow : ∀ j b mem, bs[j]? = some b → endsInRet b = true →
      Shallow n (blockFlow (M := M) sr wordBits mem (states.getD (i + j) (.fresh 1)) b))
    (ha : Covers a m) (hlocals : a.locals.length = 64) (hdepth : m.stack.depth = n) :
    ∃ s, (exitFold states sr wordBits i bs (some a) mem).1 = some s ∧ Covers s m := by
  induction bs generalizing i a mem with
  | nil => exact ⟨a, rfl, ha⟩
  | cons b bs ih =>
    have hrest : ∀ j b' mem, bs[j]? = some b' → endsInRet b' = true →
        Shallow n (blockFlow (M := M) sr wordBits mem (states.getD (i + 1 + j) (.fresh 1)) b') := by
      intro j b' mem hb' hret
      have := hflow (j + 1) b' mem hb' hret
      rwa [show i + (j + 1) = i + 1 + j by omega] at this
    unfold exitFold
    split
    · rename_i hret
      obtain ⟨hlen, hloc⟩ := hflow 0 b mem rfl hret
      have halen : a.stack.length = n := ha.depth_eq.trans hdepth
      refine ih hrest ?_ ?_
      · exact mergeFirstVisit_left ha (by rw [halen]; exact hlen) (by rw [hlocals]; exact hloc.le)
      · show (zipPad _ _ _ _).length = 64
        rw [zipPad_length, hlocals]
        exact (congrArg (max 64) hloc).trans (Nat.max_self 64)
    · exact ih hrest ha hlocals

theorem exitFold_reaches {bs : List Block} {i j : Nat} {acc : Option State} {b : Block} {mem : M}
    (hflow : ∀ j b mem, bs[j]? = some b → endsInRet b = true →
      Shallow n (blockFlow (M := M) sr wordBits mem (states.getD (i + j) (.fresh 1)) b))
    (hacc : ∀ a, acc = some a → Shallow n a) (hdepth : m.stack.depth = n) (hb : bs[j]? = some b)
    (hret : endsInRet b = true)
    (hcov : ∀ mem : M, Covers (blockFlow sr wordBits mem (states.getD (i + j) (.fresh 1)) b) m) :
    ∃ s, (exitFold states sr wordBits i bs acc mem).1 = some s ∧ Covers s m := by
  induction bs generalizing i j acc mem with
  | nil => cases hb
  | cons b₀ bs ih =>
    have hrest : ∀ j b' mem, bs[j]? = some b' → endsInRet b' = true →
        Shallow n (blockFlow (M := M) sr wordBits mem (states.getD (i + 1 + j) (.fresh 1)) b') := by
      intro j b' mem hb' hret
      have := hflow (j + 1) b' mem hb' hret
      rwa [show i + (j + 1) = i + 1 + j by omega] at this
    cases j with
    | zero =>
      cases hb
      have hfl := hflow 0 b mem rfl hret
      unfold exitFold
      rw [if_pos hret]
      cases acc with
      | none => exact exitFold_keeps hrest (hcov mem) hfl.2 hdepth
      | some a =>
        have ha := hacc a rfl
        refine exitFold_keeps hrest ?_ (ha.merge hfl).2 hdepth
        have hflen := (hcov mem).depth_eq.trans hdepth
        exact mergeFirstVisit_right (hcov mem) (ha.1.trans_eq hflen.symm)
          (by rw [ha.2]; exact hfl.2.ge)
    | succ j =>
      have hcov' : ∀ mem : M,
          Covers (blockFlow sr wordBits mem (states.getD (i + 1 + j) (.fresh 1)) b) m := by
        intro mem
        have := hcov mem
        rwa [show i + (j + 1) = i + 1 + j by omega] at this
      unfold exitFold
      split
      · rename_i hret₀
        have hfl := hflow 0 b₀ mem rfl hret₀
        refine ih hrest ?_ hb hcov'
        rintro a ⟨⟩
        cases acc with
        | none => exact hfl
        | some a => exact (hacc a rfl).merge hfl
      · exact ih hrest hacc hb hcov'

end Exit

/-! ## The main result -/

section Main

variable {M : Type} [MemModel M] {w : Word}

/-- The flow of a block that returns is no deeper than the outputs, whether the walk
entered the block or not. -/
theorem PostFixpoint.shallow {sr : SubtypeRange} {wordBits : Nat} {mem₀ : M} {cf : CfgState M}
    {Entered : BlockId → Prop} (hpost : PostFixpoint w sr wordBits mem₀ cf Entered)
    (hw : Accepted w) {i : Nat} {b : Block} (hb : w.blocks.items[i]? = some b)
    (hret : endsInRet b = true) (mem : M) :
    Shallow w.sig.outLen (blockFlow sr wordBits mem (cf.states.getD i (.fresh 1)) b) := by
  obtain ⟨stEnd, hver, -⟩ := hw.block (List.mem_of_getElem? hb)
  have hi : i < cf.states.length := by
    rw [hpost.length]
    exact lt_cfgBlocks hb
  have hstate : cf.states.getD i (.fresh 1) = cf.state ⟨i⟩ := by
    rw [CfgState.state, List.getD_eq_getElem _ _ hi, List.getD_eq_getElem _ _ hi]
  rw [hstate]
  refine ⟨?_, ?_⟩
  · rw [← ret_depth hver hret]
    refine (steps_length hver ?_ sr wordBits mem).1
    have hdepth : entryDepth w ⟨i⟩ = b.entryStack.len := entryDepth_of_block hb
    rw [entry_depth, ← hdepth]
    by_cases hent : Entered ⟨i⟩
    · exact (hpost.depth _ hent).le
    · rw [hpost.missing _ hent]
      exact Nat.zero_le _
  · rw [blockFlow, steps_locals_length]
    exact (hpost.locals _).length

theorem Described.discharged [BlindMem M] (hw : Accepted w) (hidx : Indexed w) {W : World}
    {sr : SubtypeRange} {wordBits : Nat} {mem : M} {cf : CfgState M} {Entered : BlockId → Prop}
    (hpost : PostFixpoint w sr wordBits mem cf Entered) {c : Config} (hcons : Consistent w c)
    (h : Described w sr wordBits mem cf Entered c) : Discharged W w sr wordBits cf c := by
  obtain ⟨b, hb, hent, hcov⟩ := h
  refine ⟨?_, ?_⟩
  · intro hpc
    rw [hpc, List.take_zero] at hcov
    exact hcov.stack
  · intro m hret
    have hdepth := ((hcons.typeSafe hw (W := W)).returned m hret).1
    obtain ⟨-, op, st', -, hop, -, m', ctl, hex, -⟩ := hcons.follows hw W
    have hout : wordStep W w c = c.follow m' ctl := by
      rw [wordStep, hop]
      simp only [hex]
    rw [hout] at hret
    have hctl : ctl = .done := by
      cases ctl with
      | done => rfl
      | next => cases hret
      | goto tgt => cases hret
      | trap code => cases hret
    subst hctl
    cases hret
    have hkind : op.kind = .ret := execOp_leaves hex
    have hop' : b.ops.items[c.pc]? = some op := by rw [← currentOp_eq hidx hb, hop]
    have hfind : findBlock w c.block = some b := by rw [hidx.findBlock_eq, hb]
    obtain ⟨htake, hlast⟩ := hcons.last hw hfind hop' (.inr hkind)
    have hcast : CastInRange sr op.kind c.machine := by
      intro src tgt lo hi cell rest hk
      rw [hkind] at hk
      cases hk
    have hcov' := Described.exec hcov hop' hcast hex fun code h => by cases h
    rw [htake] at hcov'
    have hi : c.block.idx < cf.states.length := by
      rw [hpost.length]
      exact lt_cfgBlocks hb
    have hstate : cf.states.getD (0 + c.block.idx) (.fresh 1) = cf.state c.block := by
      rw [Nat.zero_add, CfgState.state, List.getD_eq_getElem _ _ hi, List.getD_eq_getElem _ _ hi]
    have hreach : ∃ s, (exitFold cf.states sr wordBits 0 w.blocks.items none cf.mem).1 = some s ∧
        Covers s m := by
      refine exitFold_reaches ?_ (fun a h => by cases h) hdepth hb (endsInRet_of_last hlast hkind) ?_
      · intro j b mem hb hret
        rw [Nat.zero_add]
        exact hpost.shallow hw hb hret mem
      · intro mem'
        rw [hstate]
        -- the flow of a block does not depend on the memory model's state
        have halike : Alike (blockFlow sr wordBits mem (cf.state c.block) b)
            (blockFlow sr wordBits mem' (cf.state c.block) b) :=
          blockFlow_alike (.refl _) b mem mem'
        exact halike.covers hcov'
    obtain ⟨s, hs, hcovers⟩ := hreach
    rw [exitState, hs]
    exact hcovers.stack

end Main

/-- A machine with the integer `n` on its stack and all local slots. -/
def framedInteger (n : Int) : Machine :=
  ⟨⟨[⟨⟨n, none⟩, TY_I64⟩], one_value⟩, List.replicate 64 ⟨0, none⟩, ⟨[], 0, 0⟩, 0⟩

/-- A word with one output whose loop carries two values: the arrival at the loop head
from its body cuts the head's state to one entry, and what lies above is lost. -/
def cutAtBackEdge : Word := { countdown with
  name := ⟨"cut_at_back_edge", by decide⟩
  sig := ⟨.new, ⟨[TY_I64], one_result⟩⟩
  blocks := ⟨[
    ⟨⟨0⟩, .new, ⟨[⟨.constI64 5, .UNKNOWN⟩, ⟨.constI64 7, .UNKNOWN⟩, ⟨.br ⟨1⟩, .UNKNOWN⟩],
      by decide⟩⟩,
    ⟨⟨1⟩, ⟨[TY_I64, TY_I64], by decide⟩,
      ⟨[⟨.constBool false, .UNKNOWN⟩, ⟨.brIf ⟨2⟩ ⟨3⟩, .UNKNOWN⟩], by decide⟩⟩,
    ⟨⟨2⟩, ⟨[TY_I64, TY_I64], by decide⟩, ⟨[⟨.br ⟨1⟩, .UNKNOWN⟩], one_op⟩⟩,
    ⟨⟨3⟩, ⟨[TY_I64, TY_I64], by decide⟩,
      ⟨[⟨.swap TY_I64 TY_I64, .UNKNOWN⟩, ⟨.drop TY_I64, .UNKNOWN⟩, ⟨.ret, .UNKNOWN⟩],
        by decide⟩⟩], by decide⟩ }

def framedEmpty : Machine := ⟨.empty, List.replicate 64 ⟨0, none⟩, ⟨[], 0, 0⟩, 0⟩

/-- The point before `cutAtBackEdge` returns: the loop was left at once. -/
def beforeReturn : Config :=
  ⟨⟨3⟩, 2, ⟨⟨[⟨⟨7, none⟩, TY_I64⟩], one_value⟩, List.replicate 64 ⟨0, none⟩,
    ⟨[], 0, 0⟩, 7⟩⟩

end Tyu

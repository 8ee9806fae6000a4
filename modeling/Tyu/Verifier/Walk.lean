import Tyu.Verifier.Order

/-! # The order in which the engine visits blocks -/

namespace Tyu

open Lib

/-- What the walk knows of a block: how often it was visited, how many claims its state
may still lose, and whether the state may have changed since the last visit. -/
structure Mark where
  visits : Nat
  slack : Nat
  stale : Bool

/-- `shallow` says that no arrival at a visited block has cut its stack. -/
structure Walk where
  marks : List Mark
  worklist : List BlockId
  shallow : Bool

def entryDepth (w : Word) (id : BlockId) : Nat :=
  match w.blocks.items[id.idx]? with
  | some b => b.entryStack.len
  | none => 0

namespace Walk

def mark (x : Walk) (id : BlockId) : Mark := x.marks.getD id.idx ⟨0, 0, false⟩

def setMark (x : Walk) (id : BlockId) (k : Mark) : Walk :=
  { x with marks := x.marks.set id.idx k }

def Entered (x : Walk) (id : BlockId) : Prop := id ∈ x.worklist ∨ 0 < (x.mark id).visits

end Walk

/-- Arrival at a block, from a visit whose flow may differ from the last one's when
`moved` is set. -/
def walkArrive (w : Word) (moved : Bool) (x : Walk) (tgt : BlockId) : List Walk :=
  let k := x.mark tgt
  let y := { x with worklist := tgt :: x.worklist }
  if k.visits = 0 then [y]
  else
    let y := { y with shallow := y.shallow && decide (entryDepth w tgt ≤ w.sig.outLen) }
    if moved && decide (0 < k.slack) then
      [y, y.setMark tgt { k with slack := k.slack - 1, stale := true }]
    else [y]

def walkArrivals (w : Word) (moved : Bool) : List BlockId → Walk → List Walk
  | [], x => [x]
  | tgt :: tgts, x => (walkArrive w moved x tgt).flatMap (walkArrivals w moved tgts)

def walkVisit (w : Word) (x : Walk) : List Walk :=
  match x.worklist with
  | [] => [x]
  | bid :: rest =>
    let k := x.mark bid
    let y := { x.setMark bid ⟨k.visits + 1, k.slack, false⟩ with worklist := rest }
    match w.blocks.items[bid.idx]? with
    | none => [y]
    | some block => walkArrivals w (k.visits == 0 || k.stale) (blockSuccessors block) y

def walkLoop (w : Word) : Nat → Walk → List Walk
  | 0, x => [x]
  | budget + 1, x => if x.worklist.isEmpty then [x] else (walkVisit w x).flatMap (walkLoop w budget)

def walkInit (w : Word) : Walk where
  marks := (List.range (cfgBlocks w)).map fun i => ⟨0, entryDepth w ⟨i⟩, false⟩
  worklist := [⟨0⟩]
  shallow := true

def walks (w : Word) : List Walk := walkLoop w (cfgBudget w) (walkInit w)

def Indexed (w : Word) : Prop :=
  w.entry = ⟨0⟩ ∧ w.blocks.items.map Block.id = (List.range w.blocks.len).map BlockId.mk

instance (w : Word) : Decidable (Indexed w) := inferInstanceAs (Decidable (_ ∧ _))

/-- In no outcome of the walk was a stack cut, a waiting block never visited, or a state
changed after the last visit of its block. -/
def Settles (w : Word) : Prop :=
  ∀ x ∈ walks w, x.shallow = true ∧ (∀ id ∈ x.worklist, 0 < (x.mark id).visits) ∧
    ∀ k ∈ x.marks, k.stale = false

instance (w : Word) : Decidable (Settles w) := inferInstanceAs (Decidable (∀ x ∈ walks w, _))

namespace Walk

theorem mark_setMark {x : Walk} {id : BlockId} (hid : id.idx < x.marks.length) (k : Mark)
    (id' : BlockId) : (x.setMark id k).mark id' = if id' = id then k else x.mark id' := by
  unfold mark setMark
  by_cases h : id' = id
  · rw [if_pos h, h, List.getD_eq_getElem _ _ (by rwa [List.length_set]), List.getElem_set_self]
  · have hne : id.idx ≠ id'.idx := fun he => h (by cases id; cases id'; cases he; rfl)
    rw [if_neg h, List.getD_eq_getElem?_getD, List.getElem?_set_ne hne,
      ← List.getD_eq_getElem?_getD]

theorem mark_mem {x : Walk} {id : BlockId} (h : id.idx < x.marks.length) :
    x.mark id ∈ x.marks := by
  unfold mark
  rw [List.getD_eq_getElem _ _ h]
  exact List.getElem_mem h

end Walk

theorem Indexed.block_id {w : Word} (h : Indexed w) {i : Nat} {b : Block}
    (hb : w.blocks.items[i]? = some b) : b.id = ⟨i⟩ := by
  have hid := congrArg (·[i]?) h.2
  have hi : i < w.blocks.len := (List.getElem?_eq_some_iff.mp hb).1
  simp only [List.getElem?_map, hb, Option.map_some, List.getElem?_range hi] at hid
  exact Option.some.inj hid

theorem Indexed.findBlock_eq {w : Word} (h : Indexed w) (id : BlockId) :
    findBlock w id = w.blocks.items[id.idx]? := by
  cases hb : w.blocks.items[id.idx]? with
  | none =>
    refine List.find?_eq_none.mpr ?_
    intro b hmem hid
    obtain ⟨i, hi⟩ := List.mem_iff_getElem?.mp hmem
    have hbi := h.block_id hi
    have heq : b.id = id := of_decide_eq_true hid
    rw [← heq, hbi, hi] at hb
    cases hb
  | some b =>
    cases hf : findBlock w id with
    | none =>
      have hnone := List.find?_eq_none.mp hf b (List.mem_of_getElem? hb)
      exact absurd (decide_eq_true (h.block_id hb)) hnone
    | some b' =>
      obtain ⟨hmem, hid⟩ := findBlock_mem hf
      obtain ⟨i, hi⟩ := List.mem_iff_getElem?.mp hmem
      have hbi := h.block_id hi
      rw [hid] at hbi
      rw [hbi, hi] at hb
      exact hb

theorem entryDepth_of_block {w : Word} {id : BlockId} {b : Block}
    (hb : w.blocks.items[id.idx]? = some b) : entryDepth w id = b.entryStack.len := by
  unfold entryDepth
  rw [hb]

theorem lt_cfgBlocks {w : Word} {i : Nat} {b : Block} (hb : w.blocks.items[i]? = some b) :
    i < cfgBlocks w :=
  Nat.lt_of_lt_of_le (List.getElem?_eq_some_iff.mp hb).1 (Nat.le_max_left ..)

/-! ## Depths along a verified block -/

section Depths

variable {w : Word} {b : Block} {M : Type} [MemModel M]

theorem entry_depth (b : Block) : (VerifyState.entry b).stack.depth = b.entryStack.len :=
  List.length_reverse

/-- Along operations that the verifier lets pass, a state that starts with no more
entries than the verifier ends with no more, and one that starts with as many ends with
as many. -/
theorem steps_length {st st' : VerifyState} {ops : List Op}
    (h : ops.foldlM (verifyOp w) st = .ok st') {s : State} (hs : s.stack.length ≤ st.stack.depth)
    (sr : SubtypeRange) (wordBits : Nat) (mem : M) :
    (s.steps ops sr wordBits mem).1.stack.length ≤ st'.stack.depth ∧
      (s.stack.length = st.stack.depth →
        (s.steps ops sr wordBits mem).1.stack.length = st'.stack.depth) := by
  induction ops generalizing st s mem with
  | nil =>
    rw [foldlM_nil_eq_ok] at h
    subst h
    exact ⟨hs, id⟩
  | cons op ops ih =>
    obtain ⟨st₁, hop, hrest⟩ := foldlM_cons_eq_ok.mp h
    obtain ⟨hpops, hdepth⟩ := verifyOp_depth hop
    have hcap : st₁.stack.depth ≤ 64 := st₁.stack.bounded
    have hlen : (s.step op.kind sr wordBits mem).1.stack.length =
        s.stack.length - op.kind.pops + op.kind.pushes :=
      State.step_length (show _ ≤ 64 by omega)
    obtain ⟨hle, heq⟩ := ih hrest (s := (s.step op.kind sr wordBits mem).1)
      (by rw [hlen]; omega) (s.step op.kind sr wordBits mem).2
    refine ⟨hle, ?_⟩
    intro hs'
    exact heq (by rw [hlen]; omega)

theorem steps_locals_length (s : State) (ops : List Op) (sr : SubtypeRange) (wordBits : Nat)
    (mem : M) : (s.steps ops sr wordBits mem).1.locals.length = s.locals.length := by
  induction ops generalizing s mem with
  | nil => rfl
  | cons op ops ih =>
    exact (ih (s.step op.kind sr wordBits mem).1 _).trans s.step_locals_length

theorem last_verified {st : VerifyState} (h : b.ops.items.foldlM (verifyOp w) (.entry b) = .ok st)
    {op : Op} (hop : b.ops.items.getLast? = some op) :
    ∃ st₀, verifyOp w st₀ op = .ok st := by
  obtain ⟨init, hinit⟩ := List.getLast?_eq_some_iff.mp hop
  rw [hinit, foldlM_append_eq_ok] at h
  obtain ⟨st₀, -, hlast⟩ := h
  obtain ⟨st₁, hstep, hnil⟩ := foldlM_cons_eq_ok.mp hlast
  rw [foldlM_nil_eq_ok] at hnil
  exact ⟨st₀, hnil ▸ hstep⟩

theorem successor_depth (hidx : Indexed w) {st : VerifyState}
    (h : b.ops.items.foldlM (verifyOp w) (.entry b) = .ok st) {t : BlockId}
    (ht : t ∈ blockSuccessors b) :
    ∃ tb, w.blocks.items[t.idx]? = some tb ∧ entryDepth w t = st.stack.depth := by
  have htarget : ∀ {stack : TypeStack} {tgt : BlockId} {e₁ e₂ e₃ : VerifyError} {u : Unit},
      checkTarget w stack tgt e₁ e₂ e₃ = .ok u →
      ∃ tb, w.blocks.items[tgt.idx]? = some tb ∧ entryDepth w tgt = stack.depth := by
    intro stack tgt e₁ e₂ e₃ u hc
    obtain ⟨tb, htb, hitems⟩ := checkTarget_eq_ok hc
    rw [hidx.findBlock_eq] at htb
    refine ⟨tb, htb, ?_⟩
    rw [entryDepth_of_block htb]
    show tb.entryStack.items.length = _
    rw [hitems, List.length_reverse]
    rfl
  unfold blockSuccessors at ht
  split at ht
  · rename_i target span hlast
    obtain ⟨st₀, hop⟩ := last_verified h hlast
    simp only [verifyOp, bind_eq_ok, pure_eq_ok] at hop
    obtain ⟨_, -, _, hc, rfl⟩ := hop
    rw [List.mem_singleton.mp ht]
    exact htarget hc
  · rename_i thenTgt elseTgt span hlast
    obtain ⟨st₀, hop⟩ := last_verified h hlast
    simp only [verifyOp, bind_eq_ok, pure_eq_ok, Prod.exists] at hop
    obtain ⟨_, -, _, st₁, -, _, -, _, hthen, _, helse, rfl⟩ := hop
    rcases List.mem_pair.mp ht with rfl | rfl
    · exact htarget hthen
    · exact htarget helse
  · cases ht

theorem ret_depth {st : VerifyState} (h : b.ops.items.foldlM (verifyOp w) (.entry b) = .ok st)
    (hret : endsInRet b = true) : st.stack.depth = w.sig.outLen := by
  unfold endsInRet at hret
  split at hret
  · rename_i span hlast
    obtain ⟨st₀, hop⟩ := last_verified h hlast
    simp only [verifyOp, bind_eq_ok, pure_eq_ok] at hop
    obtain ⟨_, -, _, hdepth, _, -, rfl⟩ := hop
    exact require_eq_ok.mp hdepth
  · cases hret

end Depths

end Tyu

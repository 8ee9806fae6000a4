import Mathlib.Data.List.Chain

/-! # What a node rests on -/

namespace Lib

open Relation

/-- A graph of dependencies: which nodes are closed, and what each rests on. -/
structure Dependence (α : Type) where
  closed : α → Bool
  rests : α → List α

namespace Dependence

variable {α : Type} (g : Dependence α)

def Edge (v w : α) : Prop := w ∈ g.rests v

def ClosedEdge (v w : α) : Prop := g.closed v = true ∧ g.closed w = true ∧ g.Edge v w

inductive Sound : α → Prop where
  | intro {v : α} (closed : g.closed v = true) (rests : ∀ w ∈ g.rests v, Sound w) : Sound v

def Walked (v w : α) : Prop :=
  g.closed v = true ∧ ∃ before after, g.rests v = before ++ w :: after ∧ ∀ u ∈ before, g.Sound u

def Settled (v : α) : Prop := Acc (fun w v => g.Walked v w) v

def ReachesOpen (v : α) : Prop := ∃ w, ReflTransGen g.Edge v w ∧ g.closed w = false

variable {g}

theorem Sound.closed {v : α} (h : g.Sound v) : g.closed v = true := by
  cases h with
  | intro closed _ => exact closed

theorem Sound.rests {v w : α} (h : g.Sound v) (hw : g.Edge v w) : g.Sound w := by
  cases h with
  | intro _ rests => exact rests w hw

theorem Walked.edge {v w : α} (h : g.Walked v w) : g.Edge v w := by
  obtain ⟨_, before, after, hrests, _⟩ := h
  show w ∈ g.rests v
  rw [hrests]
  exact List.mem_append_right _ List.mem_cons_self

theorem Sound.closed_of_reach {v w : α} (h : g.Sound v) (hreach : ReflTransGen g.Edge v w) :
    g.closed w = true := by
  have hw : g.Sound w := by
    induction hreach with
    | refl => exact h
    | tail _ hedge ih => exact ih.rests hedge
  exact hw.closed

theorem exists_walked_of_not_sound {v : α} (hclosed : g.closed v = true) (h : ¬ g.Sound v) :
    ∃ w, g.Walked v w ∧ ¬ g.Sound w := by
  by_contra hnone
  push Not at hnone
  -- by induction on the edges already looked at, all of them sound
  have hall : ∀ after before, g.rests v = before ++ after → (∀ u ∈ before, g.Sound u) →
      ∀ u ∈ after, g.Sound u := by
    intro after
    induction after with
    | nil => intro _ _ _ u hu; exact absurd hu List.not_mem_nil
    | cons w after ih =>
      intro before hrests hbefore u hu
      have hw : g.Sound w := hnone w ⟨hclosed, before, after, hrests, hbefore⟩
      rcases List.mem_cons.mp hu with rfl | hu
      · exact hw
      · refine ih (before ++ [w]) (by rw [hrests, List.append_assoc]; rfl) ?_ u hu
        intro x hx
        rcases List.mem_append.mp hx with hx | hx
        · exact hbefore x hx
        · rw [List.mem_singleton.mp hx]
          exact hw
  exact h (.intro hclosed (hall (g.rests v) [] rfl (fun _ hu => absurd hu List.not_mem_nil)))

/-- Where the walk from a node ends, the node is sound unless it reaches a node that is not
closed. -/
theorem Settled.not_sound_iff {v : α} (h : g.Settled v) : ¬ g.Sound v ↔ g.ReachesOpen v := by
  constructor
  · intro hv
    induction h with
    | intro v _ ih =>
      by_cases hclosed : g.closed v = true
      · obtain ⟨w, hwalked, hw⟩ := exists_walked_of_not_sound hclosed hv
        obtain ⟨u, hreach, hu⟩ := ih w hwalked hw
        exact ⟨u, .head hwalked.edge hreach, hu⟩
      · exact ⟨v, .refl, by simpa using hclosed⟩
  · rintro ⟨w, hreach, hw⟩ hv
    rw [hv.closed_of_reach hreach] at hw
    exact absurd hw (by decide)

theorem Settled.not_cycle {v : α} (h : g.Settled v) : ¬ TransGen g.Walked v v := by
  have hacc : Acc (TransGen fun w v => g.Walked v w) v := Acc.transGen h
  intro hcycle
  have hback : TransGen (fun w v => g.Walked v w) v v := transGen_swap.mpr hcycle
  clear h hcycle
  induction hacc with
  | intro v _ ih => exact ih v hback hback

/-! ## Walking the list

The list of what a node rests on, looked at from the left: the nodes before the first that
is not sound, and that one. -/

def AllSettle (g : Dependence α) (nodes : List α) : Prop := ∀ u ∈ nodes, g.Settled u ∧ g.Sound u

/-- Of two ways to split a list, the one with sound nodes in front is no longer than the one
whose next node is not sound. -/
theorem mem_of_split {before after front rest : List α} {u w : α}
    (h : before ++ u :: after = front ++ w :: rest) (hbefore : ∀ x ∈ before, g.Sound x)
    (hw : ¬ g.Sound w) : u ∈ front ++ [w] := by
  rcases List.append_eq_append_iff.mp h with ⟨gap, hfront, hrest⟩ | ⟨gap, hbefore', hrest⟩
  · cases gap with
    | nil =>
      have huw : u = w := (List.cons.inj hrest).1
      rw [huw]
      exact List.mem_append_right _ List.mem_cons_self
    | cons x gap =>
      have hux : u = x := (List.cons.inj hrest).1
      rw [hfront, hux, List.append_assoc]
      exact List.mem_append_right _ List.mem_cons_self
  · cases gap with
    | nil =>
      have huw : w = u := (List.cons.inj hrest).1
      rw [huw]
      exact List.mem_append_right _ List.mem_cons_self
    | cons x gap =>
      have hwx : w = x := (List.cons.inj hrest).1
      refine absurd (hbefore w ?_) hw
      rw [hbefore', hwx]
      exact List.mem_append_right _ List.mem_cons_self

theorem AllSettle.node {v : α} (hclosed : g.closed v = true) (h : g.AllSettle (g.rests v)) :
    g.Settled v ∧ g.Sound v := by
  refine ⟨.intro v fun w hw => (h w hw.edge).1, .intro hclosed fun w hw => (h w hw).2⟩

/-- A node whose walk leaves off at a settled node that is not sound is settled, and is not
sound. -/
theorem AllSettle.leaves_off {v w : α} {front rest : List α} (h : g.AllSettle front)
    (hrests : g.rests v = front ++ w :: rest) (hw : g.Settled w) (hns : ¬ g.Sound w) :
    g.Settled v ∧ ¬ g.Sound v := by
  constructor
  · refine .intro v fun u hu => ?_
    obtain ⟨_, before, after, hsplit, hbefore⟩ := hu
    rcases List.mem_append.mp (mem_of_split (hsplit.symm.trans hrests) hbefore hns) with hu | hu
    · exact (h u hu).1
    · rw [List.mem_singleton.mp hu]
      exact hw
  · intro hv
    refine hns (hv.rests ?_)
    show w ∈ g.rests v
    rw [hrests]
    exact List.mem_append_right _ List.mem_cons_self

def Loop (r : α → α → Prop) (path : List α) : Prop :=
  path.IsChain r ∧ ∃ v middle, path = v :: (middle ++ [v])

theorem transGen_of_chain {r : α → α → Prop} {v w : α} {middle : List α}
    (h : (v :: (middle ++ [w])).IsChain r) : TransGen r v w := by
  induction middle generalizing v with
  | nil =>
    exact .single (List.isChain_cons_cons.mp h).1
  | cons u middle ih =>
    obtain ⟨hvu, hrest⟩ := List.isChain_cons_cons.mp h
    exact .head hvu (ih hrest)

theorem Loop.cycle {r : α → α → Prop} {path : List α} (h : Loop r path) :
    ∃ v, TransGen r v v := by
  obtain ⟨hchain, v, middle, rfl⟩ := h
  exact ⟨v, transGen_of_chain hchain⟩

theorem Loop.next {r : α → α → Prop} {path : List α} (h : Loop r path) {v : α} (hv : v ∈ path) :
    ∃ w ∈ path, r v w := by
  obtain ⟨hchain, u, middle, rfl⟩ := h
  have hmem : v ∈ u :: middle := by
    rcases List.mem_cons.mp hv with rfl | hv
    · exact List.mem_cons_self
    · rcases List.mem_append.mp hv with hv | hv
      · exact List.mem_cons_of_mem _ hv
      · rw [List.mem_singleton.mp hv]
        exact List.mem_cons_self
  obtain ⟨before, after, hsplit⟩ := List.append_of_mem hmem
  have hpath : u :: (middle ++ [u]) = before ++ v :: (after ++ [u]) := by
    rw [← List.cons_append, hsplit, List.append_assoc, List.cons_append]
  rw [hpath] at hchain ⊢
  have htail : (v :: (after ++ [u])).IsChain r := (List.isChain_append.mp hchain).2.1
  cases after with
  | nil =>
    refine ⟨u, List.mem_append_right _ ?_, (List.isChain_cons_cons.mp htail).1⟩
    exact List.mem_cons_of_mem _ List.mem_cons_self
  | cons w after =>
    refine ⟨w, List.mem_append_right _ ?_, (List.isChain_cons_cons.mp htail).1⟩
    exact List.mem_cons_of_mem _ List.mem_cons_self

theorem Loop.closed {path : List α} (h : Loop g.Walked path) : Loop g.ClosedEdge path := by
  obtain ⟨hchain, hends⟩ := h
  refine ⟨?_, hends⟩
  have hclosed : ∀ v ∈ path, g.closed v = true := by
    intro v hv
    obtain ⟨w, _, hw⟩ := Loop.next ⟨hchain, hends⟩ hv
    exact hw.1
  refine List.IsChain.imp_of_mem_imp ?_ hchain
  intro v w hv hw hwalked
  exact ⟨hclosed v hv, hclosed w hw, hwalked.edge⟩

theorem loop_of_return {r : α → α → Prop} {front back : List α} {v last : α}
    (hchain : (front ++ v :: back).IsChain r) (hlast : (front ++ v :: back).getLast? = some last)
    (hreturn : r last v) : Loop r (v :: (back ++ [v])) := by
  refine ⟨?_, v, back, rfl⟩
  have htail : (v :: back).IsChain r := (List.isChain_append.mp hchain).2.1
  rw [← List.cons_append]
  refine List.isChain_append.mpr ⟨htail, List.isChain_singleton v, ?_⟩
  intro x hx y hy
  have hlast' : (v :: back).getLast? = some last := by
    rw [List.getLast?_append_of_ne_nil _ (List.cons_ne_nil v back)] at hlast
    exact hlast
  have hxl : x = last := Option.some.inj (hx.symm.trans hlast')
  have hyv : y = v := (Option.some.inj hy).symm
  rw [hxl, hyv]
  exact hreturn

end Dependence

end Lib

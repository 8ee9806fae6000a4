import Mathlib

/-! # Sorting a graph by counting -/

namespace Lib

open Relation

universe u

variable {α : Type u}

/-- The nodes of a graph, and for each the ends of its edges.  An edge may lead out of the
graph. -/
structure DepGraph (α : Type u) where
  nodes : List α
  targets : α → List α

namespace DepGraph

variable (G : DepGraph α)

def Edge (a b : α) : Prop := a ∈ G.nodes ∧ b ∈ G.nodes ∧ b ∈ G.targets a

def Ordered (l : List α) : Prop :=
  ∀ before n after, l = before ++ n :: after → ∀ t ∈ G.targets n, t ∈ G.nodes → t ∈ before

/-- A list of different nodes in order, which a node is missing from only if another one that
it has an edge to is missing. -/
structure Sorts (l : List α) : Prop where
  nodup : l.Nodup
  subset : ∀ n ∈ l, n ∈ G.nodes
  ordered : G.Ordered l
  blocked : ∀ n ∈ G.nodes, n ∉ l → ∃ t, G.Edge n t ∧ t ∉ l

variable {G}

theorem Ordered.snoc {l : List α} {n : α} (h : G.Ordered l)
    (hn : ∀ t ∈ G.targets n, t ∈ G.nodes → t ∈ l) : G.Ordered (l ++ [n]) := by
  intro before m after heq
  rcases List.eq_nil_or_concat after with hnil | ⟨after', x, hcat⟩
  · rw [hnil] at heq
    obtain ⟨hl, hm⟩ := List.append_inj' heq rfl
    rw [← hl, ← (List.cons.inj hm).1]
    exact hn
  · have hsplit : l ++ [n] = (before ++ m :: after') ++ [x] := by
      rw [heq, hcat, List.concat_eq_append]
      simp
    obtain ⟨hl, -⟩ := List.append_inj' hsplit rfl
    exact h before m after' hl

theorem Sorts.mem {l : List α} (h : G.Sorts l) {a b : α} (hedge : G.Edge a b) (ha : a ∈ l) :
    b ∈ l := by
  obtain ⟨before, after, hl, -⟩ := List.eq_append_cons_of_mem ha
  have hb : b ∈ before := h.ordered before a after hl b hedge.2.2 hedge.2.1
  rw [hl]
  exact List.mem_append_left _ hb

variable [DecidableEq α]

theorem Sorts.lt {l : List α} (h : G.Sorts l) {a b : α} (hedge : G.Edge a b) (ha : a ∈ l) :
    l.idxOf b < l.idxOf a := by
  obtain ⟨before, after, hl, hfirst⟩ := List.eq_append_cons_of_mem ha
  have hb : b ∈ before := h.ordered before a after hl b hedge.2.2 hedge.2.1
  have hlt : before.idxOf b < before.length := List.idxOf_lt_length_of_mem hb
  rw [hl, List.idxOf_append_of_mem hb, List.idxOf_append_of_notMem hfirst, List.idxOf_cons_self]
  omega

theorem Sorts.lt_of_transGen {l : List α} (h : G.Sorts l) {a b : α}
    (hpath : TransGen G.Edge a b) (ha : a ∈ l) : b ∈ l ∧ l.idxOf b < l.idxOf a := by
  induction hpath with
  | single hedge => exact ⟨h.mem hedge ha, h.lt hedge ha⟩
  | tail _ hedge ih =>
    have hlt := h.lt hedge ih.1
    exact ⟨h.mem hedge ih.1, by omega⟩

theorem Sorts.acyclic {l : List α} (h : G.Sorts l) {a : α} (ha : a ∈ l) :
    ¬ TransGen G.Edge a a := by
  intro hcycle
  have hlt := (h.lt_of_transGen hcycle ha).2
  omega

theorem Sorts.complete {l : List α} (h : G.Sorts l) (hacyclic : ∀ a, ¬ TransGen G.Edge a a)
    {n : α} (hn : n ∈ G.nodes) : n ∈ l := by
  by_contra hmissing
  let Missing := { m : α // m ∈ G.nodes ∧ m ∉ l }
  have hfinite : Finite Missing :=
    (G.nodes.toFinset.finite_toSet.subset
      (fun m (hm : m ∈ G.nodes ∧ m ∉ l) => List.mem_toFinset.mpr hm.1)).to_subtype
  let Below : Missing → Missing → Prop := fun b a => TransGen G.Edge a.1 b.1
  have htrans : IsTrans Missing Below := ⟨fun _ _ _ hba hcb => hcb.trans hba⟩
  have hirrefl : Std.Irrefl Below := ⟨fun a => hacyclic a.1⟩
  have hwf : WellFounded Below := Finite.wellFounded_of_trans_of_irrefl Below
  obtain ⟨m, -, hmin⟩ := hwf.has_min Set.univ ⟨⟨n, hn, hmissing⟩, trivial⟩
  obtain ⟨t, hedge, ht⟩ := h.blocked m.1 m.2.1 m.2.2
  exact hmin ⟨t, hedge.2.1, ht⟩ trivial (.single hedge)

theorem Sorts.length_eq_iff {l : List α} (h : G.Sorts l) (hnodes : G.nodes.Nodup) :
    l.length = G.nodes.length ↔ ∀ a, ¬ TransGen G.Edge a a := by
  constructor
  · intro hlen a hcycle
    have hperm : l.Perm G.nodes := (h.nodup.subperm h.subset).perm_of_length_le hlen.ge
    have ha : a ∈ G.nodes := by
      cases hcycle with
      | single hedge => exact hedge.1
      | tail _ hedge => exact hedge.2.1
    exact h.acyclic (hperm.mem_iff.mpr ha) hcycle
  · intro hacyclic
    have hsub : G.nodes.Subperm l := hnodes.subperm fun n hn => h.complete hacyclic hn
    exact Nat.le_antisymm (h.nodup.subperm h.subset).length_le hsub.length_le

theorem Sorts.last {l : List α} (h : G.Sorts l) {root : α} (hroot : root ∈ l)
    (hreach : ∀ n ∈ l, ReflTransGen G.Edge root n) : l.getLast? = some root := by
  obtain ⟨before, after, hl, hfirst⟩ := List.eq_append_cons_of_mem hroot
  have hafter : after = [] := by
    by_contra hne
    obtain ⟨x, hx⟩ := List.exists_mem_of_ne_nil after hne
    have hxl : x ∈ l := by rw [hl]; exact List.mem_append_right _ (List.mem_cons_of_mem _ hx)
    have hnodup : (before ++ root :: after).Nodup := hl ▸ h.nodup
    have hne : x ≠ root := by
      intro heq
      exact (List.nodup_cons.mp (List.nodup_append.mp hnodup).2.1).1 (heq ▸ hx)
    have hpath : TransGen G.Edge root x :=
      (reflTransGen_iff_eq_or_transGen.mp (hreach x hxl)).resolve_left hne
    have hlt := (h.lt_of_transGen hpath hroot).2
    have hxb : x ∉ before := fun hb => (List.nodup_append.mp hnodup).2.2 x hb x
      (List.mem_cons_of_mem _ hx) rfl
    rw [hl, List.idxOf_append_of_notMem hxb, List.idxOf_append_of_notMem hfirst,
      List.idxOf_cons_self] at hlt
    omega
  rw [hl, hafter]
  simp

end DepGraph

/-! ## Counting -/

variable [DecidableEq α]

structure Sorting (α : Type u) where
  inDegree : α → Nat
  queue : List α
  sorted : List α

namespace Sorting

def relax (s : Sorting α) (n : α) : Sorting α :=
  let deg := s.inDegree n - 1
  { s with
    inDegree := fun m => if m = n then deg else s.inDegree m
    queue := if deg = 0 then s.queue ++ [n] else s.queue }

def take (dependents : α → List α) (s : Sorting α) (n : α) (rest : List α) : Sorting α :=
  if n ∈ s.sorted then { s with queue := rest }
  else (dependents n).foldl relax { s with queue := rest, sorted := s.sorted ++ [n] }

def run (dependents : α → List α) : Nat → Sorting α → Option (List α)
  | 0, _ => none
  | fuel + 1, s =>
    match s.queue with
    | [] => some s.sorted
    | n :: rest => run dependents fuel (s.take dependents n rest)

variable (s : Sorting α) (l : List α)

theorem foldl_relax_sorted : (l.foldl relax s).sorted = s.sorted := by
  induction l generalizing s with
  | nil => rfl
  | cons m l ih => exact ih (s.relax m)

theorem foldl_relax_inDegree (n : α) :
    (l.foldl relax s).inDegree n = s.inDegree n - l.count n := by
  induction l generalizing s with
  | nil => simp
  | cons m l ih =>
    rw [List.foldl_cons, ih, List.count_cons]
    by_cases hmn : n = m
    · simp only [relax, hmn, if_true, beq_self_eq_true]
      omega
    · simp only [relax, if_neg hmn, if_neg (fun h => hmn (beq_iff_eq.mp h).symm)]
      omega

theorem mem_queue_foldl_relax (n : α) :
    n ∈ (l.foldl relax s).queue ↔ n ∈ s.queue ∨ n ∈ l ∧ s.inDegree n ≤ l.count n := by
  induction l generalizing s with
  | nil => simp
  | cons m l ih =>
    rw [List.foldl_cons, ih, List.count_cons, List.mem_cons]
    have hqueue : n ∈ (s.relax m).queue ↔ n ∈ s.queue ∨ n = m ∧ s.inDegree m ≤ 1 := by
      simp only [relax, Nat.sub_eq_zero_iff_le]
      by_cases hzero : s.inDegree m ≤ 1
      · simp [hzero]
      · simp [hzero]
    rw [hqueue]
    by_cases hmn : n = m
    · simp only [relax, hmn, if_true, beq_self_eq_true, true_and, true_or]
      have hcount : m ∈ l ↔ 0 < l.count m := List.count_pos_iff.symm
      have hsteps : s.inDegree m ≤ 1 ∨ 0 < l.count m ∧ s.inDegree m - 1 ≤ l.count m ↔
          s.inDegree m ≤ l.count m + 1 := by omega
      rw [hcount, or_assoc, hsteps]
    · rw [if_neg (fun h => hmn (beq_iff_eq.mp h).symm), Nat.add_zero]
      simp only [relax, hmn, if_false, false_and, or_false, false_or]

theorem length_queue_foldl_relax :
    (l.foldl relax s).queue.length ≤ s.queue.length + l.length := by
  induction l generalizing s with
  | nil => exact Nat.le_refl _
  | cons m l ih =>
    have hone : (s.relax m).queue.length ≤ s.queue.length + 1 := by
      simp only [relax]
      split
      · rw [List.length_append, List.length_singleton]
      · omega
    have hrest := ih (s.relax m)
    rw [List.foldl_cons, List.length_cons]
    omega

end Sorting

namespace DepGraph

variable (G : DepGraph α)

def inDegree (n : α) : Nat := (G.targets n).countP (· ∈ G.nodes)

/-- The starts of the edges to a node, in the order in which `order` has them. -/
def dependents (order : List α) (n : α) : List α :=
  order.flatMap fun m => ((G.targets m).filter (· = n)).map fun _ => m

def start (order : List α) : Sorting α :=
  ⟨G.inDegree, order.filter (G.inDegree · = 0), []⟩

def fuel (order : List α) : Nat :=
  G.nodes.length + (G.nodes.map fun n => (G.dependents order n).length).sum + 1

/-- The nodes one behind the other.  The zeros are looked for in the order `first`, the edges
in the order `second`. -/
def sort (first second : List α) : Option (List α) :=
  Sorting.run (G.dependents second) (G.fuel second) (G.start first)

structure Counted (s : Sorting α) : Prop where
  nodup : s.sorted.Nodup
  subset : ∀ n ∈ s.sorted, n ∈ G.nodes
  ordered : G.Ordered s.sorted
  /-- The number of a node counts its edges to nodes that are still to come. -/
  count : ∀ n ∈ G.nodes,
    s.inDegree n = (G.targets n).countP fun t => t ∈ G.nodes ∧ t ∉ s.sorted
  free : ∀ n ∈ s.queue, n ∈ G.nodes ∧ s.inDegree n = 0
  seen : ∀ n ∈ G.nodes, s.inDegree n = 0 → n ∈ s.queue ∨ n ∈ s.sorted

variable {G} {order : List α}

theorem count_dependents (horder : order.Perm G.nodes) (hnodes : G.nodes.Nodup) {m : α}
    (hm : m ∈ G.nodes) (n : α) : (G.dependents order n).count m = (G.targets m).count n := by
  have hnodup : order.Nodup := horder.nodup_iff.mpr hnodes
  have hmem : m ∈ order := horder.mem_iff.mpr hm
  clear horder hnodes hm
  induction order with
  | nil => exact absurd hmem List.not_mem_nil
  | cons k order ih =>
    have hown : (((G.targets k).filter (· = n)).map fun _ => k).count m =
        if k = m then (G.targets m).count n else 0 := by
      rw [List.map_const', List.count_replicate, ← List.countP_eq_length_filter]
      by_cases hkm : k = m
      · rw [if_pos hkm, if_pos (beq_iff_eq.mpr hkm), hkm]
        rfl
      · rw [if_neg hkm, if_neg (fun h => hkm (beq_iff_eq.mp h))]
    have hcons : (G.dependents (k :: order) n).count m =
        (if k = m then (G.targets m).count n else 0) + (G.dependents order n).count m := by
      rw [← hown]
      exact List.count_append
    obtain ⟨hfirst, hrest⟩ := List.nodup_cons.mp hnodup
    rw [hcons]
    by_cases hkm : k = m
    · have hnone : (G.dependents order n).count m = 0 := by
        rw [List.count_eq_zero]
        intro hdep
        obtain ⟨j, hj, hin⟩ := List.mem_flatMap.mp hdep
        obtain ⟨-, -, hjm⟩ := List.mem_map.mp hin
        exact hfirst (hkm.trans hjm.symm ▸ hj)
      rw [if_pos hkm, hnone, Nat.add_zero]
    · rw [if_neg hkm, Nat.zero_add]
      exact ih hrest ((List.mem_cons.mp hmem).resolve_left fun h => hkm h.symm)

theorem mem_nodes_of_mem_dependents (horder : order.Perm G.nodes) {m n : α}
    (h : m ∈ G.dependents order n) : m ∈ G.nodes := by
  obtain ⟨j, hj, hin⟩ := List.mem_flatMap.mp h
  obtain ⟨-, -, hjm⟩ := List.mem_map.mp hin
  exact horder.mem_iff.mp (hjm ▸ hj)

theorem countP_snoc {l : List α} {n : α} (hn : n ∈ G.nodes) (hl : n ∉ l) (ts : List α) :
    (ts.countP fun t => t ∈ G.nodes ∧ t ∉ l ++ [n]) + ts.count n =
      ts.countP fun t => t ∈ G.nodes ∧ t ∉ l := by
  induction ts with
  | nil => rfl
  | cons t ts ih =>
    rw [List.countP_cons, List.countP_cons, List.count_cons, ← ih]
    by_cases htn : t = n
    · simp [htn, hn, hl]
      omega
    · simp [htn]
      omega

theorem Counted.start (horder : order.Perm G.nodes) : G.Counted (G.start order) := by
  refine ⟨List.nodup_nil, nofun, ?_, ?_, ?_, ?_⟩
  · intro before n after heq
    simp [DepGraph.start] at heq
  · intro n _
    simp [DepGraph.start, inDegree]
  · intro n hn
    obtain ⟨hmem, hzero⟩ := List.mem_filter.mp hn
    exact ⟨horder.mem_iff.mp hmem, of_decide_eq_true hzero⟩
  · intro n hn hzero
    exact .inl (List.mem_filter.mpr ⟨horder.mem_iff.mpr hn, decide_eq_true hzero⟩)

theorem Counted.take {s : Sorting α} {n : α} {rest : List α} (horder : order.Perm G.nodes)
    (hnodes : G.nodes.Nodup) (h : G.Counted s) (hqueue : s.queue = n :: rest) :
    G.Counted (s.take (G.dependents order) n rest) := by
  obtain ⟨hn, hzero⟩ := h.free n (hqueue ▸ List.mem_cons_self)
  have hrest : ∀ m ∈ rest, m ∈ s.queue := fun m hm => hqueue ▸ List.mem_cons_of_mem _ hm
  by_cases hsorted : n ∈ s.sorted
  · rw [Sorting.take, if_pos hsorted]
    refine { h with free := fun m hm => h.free m (hrest m hm), seen := ?_ }
    intro m hm hmzero
    rcases h.seen m hm hmzero with hq | hs
    · rw [hqueue] at hq
      rcases List.mem_cons.mp hq with heq | hq
      · exact .inr (heq ▸ hsorted)
      · exact .inl hq
    · exact .inr hs
  · rw [Sorting.take, if_neg hsorted]
    have hdone : ∀ t ∈ G.targets n, t ∈ G.nodes → t ∈ s.sorted := by
      intro t ht hnode
      by_contra hleft
      have hnone := List.countP_eq_zero.mp ((h.count n hn).symm.trans hzero) t ht
      exact hnone (decide_eq_true ⟨hnode, hleft⟩)
    have hcount : ∀ m ∈ G.nodes, s.inDegree m - (G.dependents order n).count m =
        (G.targets m).countP fun t => t ∈ G.nodes ∧ t ∉ s.sorted ++ [n] := by
      intro m hm
      have hsnoc := countP_snoc hn hsorted (G.targets m)
      rw [count_dependents horder hnodes hm, h.count m hm]
      omega
    refine ⟨?_, ?_, ?_, ?_, ?_, ?_⟩
    · rw [Sorting.foldl_relax_sorted]
      exact h.nodup.append (List.nodup_singleton n) (by simpa using hsorted)
    · rw [Sorting.foldl_relax_sorted]
      intro m hm
      rcases List.mem_append.mp hm with hm | hm
      · exact h.subset m hm
      · exact List.mem_singleton.mp hm ▸ hn
    · rw [Sorting.foldl_relax_sorted]
      exact h.ordered.snoc hdone
    · intro m hm
      rw [Sorting.foldl_relax_sorted, Sorting.foldl_relax_inDegree]
      exact hcount m hm
    · intro m hm
      rw [Sorting.foldl_relax_inDegree]
      rcases (Sorting.mem_queue_foldl_relax _ _ _).mp hm with hm | ⟨hdep, hle⟩
      · obtain ⟨hnode, hmzero⟩ := h.free m (hrest m hm)
        exact ⟨hnode, by rw [hmzero, Nat.zero_sub]⟩
      · exact ⟨mem_nodes_of_mem_dependents horder hdep, Nat.sub_eq_zero_of_le hle⟩
    · intro m hm hmzero
      rw [Sorting.foldl_relax_inDegree] at hmzero
      rw [Sorting.foldl_relax_sorted, Sorting.mem_queue_foldl_relax]
      by_cases hdep : m ∈ G.dependents order n
      · exact .inl (.inr ⟨hdep, Nat.le_of_sub_eq_zero hmzero⟩)
      · rw [List.count_eq_zero_of_not_mem hdep] at hmzero
        rcases h.seen m hm hmzero with hq | hs
        · rw [hqueue] at hq
          rcases List.mem_cons.mp hq with heq | hq
          · exact .inr (List.mem_append_right _ (List.mem_singleton.mpr heq))
          · exact .inl (.inl hq)
        · exact .inr (List.mem_append_left _ hs)

theorem Counted.sorts {s : Sorting α} (h : G.Counted s) (hqueue : s.queue = []) :
    G.Sorts s.sorted := by
  refine ⟨h.nodup, h.subset, h.ordered, ?_⟩
  intro n hn hleft
  have hpos : 0 < s.inDegree n := by
    refine Nat.pos_of_ne_zero fun hzero => ?_
    rcases h.seen n hn hzero with hq | hs
    · rw [hqueue] at hq
      exact absurd hq List.not_mem_nil
    · exact hleft hs
  rw [h.count n hn] at hpos
  obtain ⟨t, ht, hopen⟩ := List.countP_pos_iff.mp hpos
  have hopen := of_decide_eq_true hopen
  exact ⟨t, ⟨hn, hopen.1, ht⟩, hopen.2⟩

def work (G : DepGraph α) (order : List α) (s : Sorting α) : Nat :=
  s.queue.length +
    ((G.nodes.filter (· ∉ s.sorted)).map fun n => (G.dependents order n).length).sum

theorem sum_filter_snoc {l nodes : List α} {n : α} (f : α → Nat) (hnodes : nodes.Nodup)
    (hn : n ∈ nodes) (hl : n ∉ l) :
    ((nodes.filter (· ∉ l ++ [n])).map f).sum + f n = ((nodes.filter (· ∉ l)).map f).sum := by
  have hsplit : nodes.filter (· ∉ l ++ [n]) = (nodes.filter (· ∉ l)).erase n := by
    rw [(hnodes.filter _).erase_eq_filter, List.filter_filter]
    refine List.filter_congr fun m _ => ?_
    by_cases hmn : m = n
    · simp [hmn]
    · simp [hmn]
  have hmem : n ∈ nodes.filter (· ∉ l) := List.mem_filter.mpr ⟨hn, decide_eq_true hl⟩
  rw [hsplit, ((List.perm_cons_erase hmem).map f).sum_nat, List.map_cons, List.sum_cons]
  omega

theorem work_take {s : Sorting α} {n : α} {rest : List α} (hnodes : G.nodes.Nodup)
    (h : G.Counted s) (hqueue : s.queue = n :: rest) :
    G.work order (s.take (G.dependents order) n rest) < G.work order s := by
  obtain ⟨hn, -⟩ := h.free n (hqueue ▸ List.mem_cons_self)
  have hlen : s.queue.length = rest.length + 1 := by rw [hqueue]; rfl
  by_cases hsorted : n ∈ s.sorted
  · rw [Sorting.take, if_pos hsorted]
    simp only [work]
    omega
  · rw [Sorting.take, if_neg hsorted]
    have hgrown := Sorting.length_queue_foldl_relax
      { s with queue := rest, sorted := s.sorted ++ [n] } (G.dependents order n)
    have hsum := sum_filter_snoc (fun n => (G.dependents order n).length) hnodes hn hsorted
    simp only [work, Sorting.foldl_relax_sorted]
    simp only at hgrown hsum
    omega

theorem run_sorts {fuel : Nat} {s : Sorting α} (horder : order.Perm G.nodes)
    (hnodes : G.nodes.Nodup) (h : G.Counted s) (hfuel : G.work order s < fuel) :
    ∃ l, Sorting.run (G.dependents order) fuel s = some l ∧ G.Sorts l := by
  induction fuel generalizing s with
  | zero => omega
  | succ fuel ih =>
    rw [Sorting.run]
    cases hqueue : s.queue with
    | nil => exact ⟨s.sorted, rfl, h.sorts hqueue⟩
    | cons n rest =>
      have hless : G.work order _ < G.work order s := work_take hnodes h hqueue
      exact ih (h.take horder hnodes hqueue) (by omega)

theorem sort_sorts {first second : List α} (hfirst : first.Perm G.nodes)
    (hsecond : second.Perm G.nodes) (hnodes : G.nodes.Nodup) :
    ∃ l, G.sort first second = some l ∧ G.Sorts l := by
  refine run_sorts hsecond hnodes (.start hfirst) ?_
  have hqueue : (G.start first).queue.length ≤ G.nodes.length := by
    rw [← hfirst.length_eq]
    exact List.length_filter_le _ _
  have hnone : G.nodes.filter (· ∉ (G.start first).sorted) = G.nodes := by
    simp [DepGraph.start]
  rw [work, hnone, fuel]
  omega

end DepGraph
end Lib

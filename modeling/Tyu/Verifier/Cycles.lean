import Tyu.Ir.Types
import Tyu.Lib.Closure
import Tyu.Verifier.Manifest

/-!
# The cycles of a block graph

Termination facts are recorded for the cycles of a word: the components of its block graph that
contain a cycle, each under the names of its blocks.
-/

namespace Tyu.Manifest

open Lib Relation

def blockIds (w : Word) : List Nat :=
  (w.blocks.items.foldl
    (fun ids b => if ids.contains b.id.idx then ids else ids ++ [b.id.idx]) []).mergeSort (· ≤ ·)

def indexOf (ids : List Nat) (id : Nat) : Option (Fin ids.length) := ids.findFinIdx? (· == id)

def edgeTo (ids : List Nat) (i : Fin ids.length) (target : BlockId) :
    List (Fin ids.length × Fin ids.length) :=
  match indexOf ids target.idx with
  | some t => [(i, t)]
  | none => []

def opEdges (ids : List Nat) (i : Fin ids.length) (kind : OpKind) :
    List (Fin ids.length × Fin ids.length) :=
  match kind with
  | .br target => edgeTo ids i target
  | .brIf thenTgt elseTgt => edgeTo ids i thenTgt ++ edgeTo ids i elseTgt
  | _ => []

def blockEdges (ids : List Nat) (b : Block) : List (Fin ids.length × Fin ids.length) :=
  match indexOf ids b.id.idx with
  | some i => b.ops.items.flatMap fun op => opEdges ids i op.kind
  | none => []

def wordEdges (w : Word) (ids : List Nat) : List (Fin ids.length × Fin ids.length) :=
  w.blocks.items.flatMap (blockEdges ids)

section Classes

variable {n : Nat}

def adjacency (edges : List (Fin n × Fin n)) : Grid n :=
  edges.foldl (fun r e => r.set e.1 e.2 true)
    ((List.finRange n).foldl (fun r i => r.set i i true) (.blank n))

/-- The numbers that lead to `i` and are led to from it. -/
def classOf (reach : Grid n) (i : Fin n) : List (Fin n) :=
  ((List.finRange n).filter fun j => reach.get i j && reach.get j i).mergeSort (· ≤ ·)

/-- A class is kept when it has two members or an edge from a member to itself. -/
def isCycle (edges : List (Fin n × Fin n)) (member : List (Fin n)) : Bool :=
  1 < member.length || edges.any fun e => e.1 == e.2 && member.contains e.1

structure Sweep (n : Nat) where
  used : Vector Bool n
  classes : List (List (Fin n))

/-- Collect the class of `i`, unless `i` belongs to one already. -/
def Sweep.visit (edges : List (Fin n × Fin n)) (reach : Grid n) (s : Sweep n) (i : Fin n) :
    Sweep n :=
  if getElem s.used i i.isLt then s
  else
    let member := classOf reach i
    ⟨member.foldl (fun used (j : Fin n) => used.set j true j.isLt) s.used,
      if isCycle edges member then s.classes ++ [member] else s.classes⟩

def cycleClasses (edges : List (Fin n × Fin n)) : List (List (Fin n)) :=
  ((List.finRange n).foldl (Sweep.visit edges (adjacency edges).close)
    ⟨.replicate n false, []⟩).classes

def leader (member : List (Fin n)) : Nat := (member.head?.map Fin.val).getD 0

end Classes

def blockName (id : Nat) : String := "b" ++ toString id

def computeCycles (w : Word) : List Cycle :=
  let ids := blockIds w
  let classes := (cycleClasses (wordEdges w ids)).mergeSort fun a b => leader a ≤ leader b
  classes.mapIdx fun idx member =>
    ⟨UInt32.ofNat (idx + 1), member.map fun i => blockName ids[i]⟩

/-! ## Classes of mutual reachability -/

section Classes

variable {n : Nat} {edges : List (Fin n × Fin n)} {i j k : Fin n}

def Linked (edges : List (Fin n × Fin n)) (i j : Fin n) : Prop := (i, j) ∈ edges

def Mutual {α : Type} (r : α → α → Prop) (a b : α) : Prop := ReflTransGen r a b ∧ ReflTransGen r b a

variable {α : Type} {r : α → α → Prop} {a b : α}

theorem Mutual.symm (h : Mutual r a b) : Mutual r b a :=
  ⟨h.2, h.1⟩

theorem Mutual.trans {c : α} (h : Mutual r a b) (h' : Mutual r b c) : Mutual r a c :=
  ⟨h.1.trans h'.1, h'.2.trans h.2⟩

theorem get_foldl_set (es : List (Fin n × Fin n)) (r : Grid n) (a c : Fin n) :
    (es.foldl (fun r e => r.set e.1 e.2 true) r).get a c = true ↔ (a, c) ∈ es ∨ r.get a c = true := by
  induction es generalizing r with
  | nil => simp
  | cons e es ih =>
    rw [List.foldl_cons, ih, Grid.get_set, List.mem_cons]
    by_cases he : a = e.1 ∧ c = e.2
    · rw [if_pos he]
      simp [he]
    · rw [if_neg he]
      simp [Prod.ext_iff, he]

theorem get_foldl_diagonal (is : List (Fin n)) (r : Grid n) (a c : Fin n) :
    (is.foldl (fun r i => r.set i i true) r).get a c = true ↔
      (a ∈ is ∧ a = c) ∨ r.get a c = true := by
  induction is generalizing r with
  | nil => simp
  | cons i is ih =>
    rw [List.foldl_cons, ih, Grid.get_set, List.mem_cons]
    by_cases hi : a = i ∧ c = i
    · rw [if_pos hi]
      simp [hi.1, hi.2]
    · rw [if_neg hi]
      grind

theorem rel_adjacency : (adjacency edges).Rel i j ↔ Linked edges i j ∨ i = j := by
  rw [Grid.Rel, adjacency, get_foldl_set, get_foldl_diagonal, Grid.get_blank]
  simp [Linked]

theorem rel_reach : (adjacency edges).close.Rel i j ↔ ReflTransGen (Linked edges) i j := by
  rw [Grid.rel_close fun i => rel_adjacency.mpr (.inr rfl)]
  constructor
  · intro h
    induction h with
    | refl => exact .refl
    | tail _ hbc ih =>
      rcases rel_adjacency.mp hbc with hlink | rfl
      · exact ih.tail hlink
      · exact ih
  · exact ReflTransGen.mono (fun a b hab => rel_adjacency.mpr (.inl hab)) i j

theorem mem_classOf : j ∈ classOf (adjacency edges).close i ↔ Mutual (Linked edges) i j := by
  rw [classOf, List.mem_mergeSort, List.mem_filter, Bool.and_eq_true, Mutual, ← rel_reach,
    ← rel_reach]
  simp [Grid.Rel]

theorem classOf_congr (h : Mutual (Linked edges) i j) :
    classOf (adjacency edges).close i = classOf (adjacency edges).close j := by
  have hfilter : ∀ x, ((adjacency edges).close.get i x && (adjacency edges).close.get x i) =
      ((adjacency edges).close.get j x && (adjacency edges).close.get x j) := by
    intro x
    rw [Bool.eq_iff_iff, Bool.and_eq_true, Bool.and_eq_true]
    have hi : Mutual (Linked edges) i x ↔ Mutual (Linked edges) j x :=
      ⟨fun hx => h.symm.trans hx, fun hx => h.trans hx⟩
    simp only [Mutual, ← rel_reach] at hi
    exact hi
  rw [classOf, classOf, funext hfilter]

theorem length_of_two {l : List α} (ha : a ∈ l) (hb : b ∈ l) (hne : a ≠ b) : 1 < l.length := by
  cases l with
  | nil => cases ha
  | cons x l =>
    cases l with
    | nil =>
      rw [List.mem_singleton] at ha hb
      exact absurd (ha.trans hb.symm) hne
    | cons y l => simp

theorem exists_ne_of_length {l : List α} (hnodup : l.Nodup) (hlen : 1 < l.length) (a : α) :
    ∃ b ∈ l, b ≠ a := by
  match l, hnodup, hlen with
  | x :: y :: l, hnodup, _ =>
    have hxy : x ≠ y := by
      intro h
      subst h
      exact (List.nodup_cons.mp hnodup).1 (List.mem_cons_self ..)
    by_cases hx : x = a
    · exact ⟨y, by simp, fun hy => hxy (hx.trans hy.symm)⟩
    · exact ⟨x, by simp, hx⟩

theorem classOf_nodup (reach : Grid n) (i : Fin n) : (classOf reach i).Nodup :=
  (List.mergeSort_perm _ _).nodup_iff.mpr ((List.nodup_finRange n).filter _)

theorem Mutual.cycle_of_ne (h : Mutual r a b) (hne : b ≠ a) : TransGen r a a := by
  rcases ReflTransGen.cases_head h.1 with heq | ⟨c, hac, hcb⟩
  · exact absurd heq.symm hne
  · exact TransGen.head' hac (hcb.trans h.2)

theorem isCycle_iff : isCycle edges (classOf (adjacency edges).close i) = true ↔
    ∃ a, Mutual (Linked edges) i a ∧ TransGen (Linked edges) a a := by
  rw [isCycle, Bool.or_eq_true, decide_eq_true_eq, List.any_eq_true]
  constructor
  · rintro (hlen | ⟨e, he, hself⟩)
    · obtain ⟨b, hb, hne⟩ := exists_ne_of_length (classOf_nodup _ i) hlen i
      exact ⟨i, ⟨.refl, .refl⟩, (mem_classOf.mp hb).cycle_of_ne hne⟩
    · rw [Bool.and_eq_true, beq_iff_eq, List.contains_iff_mem] at hself
      have hlink : Linked edges e.1 e.1 := by
        have heq : e = (e.1, e.1) := Prod.ext rfl hself.1.symm
        rw [Linked, ← heq]
        exact he
      exact ⟨e.1, mem_classOf.mp hself.2, .single hlink⟩
  · rintro ⟨a, ha, hcycle⟩
    obtain ⟨b, hab, hba⟩ := TransGen.head'_iff.mp hcycle
    by_cases hb : b = a
    · subst hb
      refine .inr ⟨(b, b), hab, ?_⟩
      rw [Bool.and_eq_true, beq_iff_eq, List.contains_iff_mem]
      exact ⟨rfl, mem_classOf.mpr ha⟩
    · have hib : Mutual (Linked edges) i b := ha.trans ⟨.single hab, hba⟩
      exact .inl (length_of_two (mem_classOf.mpr hib) (mem_classOf.mpr ha) hb)

/-! ## The sweep -/

theorem get_mark (member : List (Fin n)) (used : Vector Bool n) (j : Fin n) :
    getElem (member.foldl (fun used (j : Fin n) => used.set j true j.isLt) used) j j.isLt = true ↔
      j ∈ member ∨ getElem used j j.isLt = true := by
  induction member generalizing used with
  | nil => simp
  | cons x member ih =>
    rw [List.foldl_cons, ih, List.mem_cons]
    by_cases hx : j = x
    · subst hx
      simp
    · have hne : (x : Nat) ≠ j := fun h => hx (Fin.ext h.symm)
      simp [hx, hne]

/-- What the sweep has collected after the numbers `done`. -/
structure Swept (edges : List (Fin n × Fin n)) (done : List (Fin n)) (s : Sweep n) : Prop where
  used : ∀ j, getElem s.used j j.isLt = true ↔ ∃ i ∈ done, Mutual (Linked edges) i j
  sound : ∀ c ∈ s.classes, isCycle edges c = true ∧
    ∃ i ∈ done, c = classOf (adjacency edges).close i
  complete : ∀ i ∈ done, isCycle edges (classOf (adjacency edges).close i) = true →
    classOf (adjacency edges).close i ∈ s.classes
  disjoint : s.classes.Pairwise fun c d => ∀ x ∈ c, x ∉ d

theorem Swept.visit {done : List (Fin n)} {s : Sweep n} (h : Swept edges done s) (i : Fin n) :
    Swept edges (done ++ [i]) (s.visit edges (adjacency edges).close i) := by
  unfold Sweep.visit
  by_cases hused : getElem s.used i i.isLt = true
  · obtain ⟨k, hk, hki⟩ := (h.used i).mp hused
    rw [if_pos hused]
    refine ⟨fun j => ?_, fun c hc => ?_, fun l hl hcycle => ?_, h.disjoint⟩
    · rw [h.used j]
      constructor
      · rintro ⟨l, hl, hlj⟩
        exact ⟨l, List.mem_append_left _ hl, hlj⟩
      · rintro ⟨l, hl, hlj⟩
        rcases List.mem_append.mp hl with hl | hl
        · exact ⟨l, hl, hlj⟩
        · rw [List.mem_singleton.mp hl] at hlj
          exact ⟨k, hk, hki.trans hlj⟩
    · obtain ⟨hcycle, l, hl, heq⟩ := h.sound c hc
      exact ⟨hcycle, l, List.mem_append_left _ hl, heq⟩
    · rcases List.mem_append.mp hl with hl | hl
      · exact h.complete l hl hcycle
      · rw [List.mem_singleton.mp hl] at hcycle ⊢
        rw [← classOf_congr hki] at hcycle ⊢
        exact h.complete k hk hcycle
  · have hfresh : ∀ c ∈ s.classes, ∀ x ∈ c, x ∉ classOf (adjacency edges).close i := by
      intro c hc x hx hxi
      obtain ⟨-, l, hl, rfl⟩ := h.sound c hc
      exact hused ((h.used i).mpr ⟨l, hl, (mem_classOf.mp hx).trans (mem_classOf.mp hxi).symm⟩)
    rw [if_neg hused]
    refine ⟨fun j => ?_, fun c hc => ?_, fun l hl hcycle => ?_, ?_⟩
    · show getElem (List.foldl _ _ _) j j.isLt = true ↔ _
      rw [get_mark, mem_classOf, h.used j]
      constructor
      · rintro (hij | ⟨l, hl, hlj⟩)
        · exact ⟨i, by simp, hij⟩
        · exact ⟨l, List.mem_append_left _ hl, hlj⟩
      · rintro ⟨l, hl, hlj⟩
        rcases List.mem_append.mp hl with hl | hl
        · exact .inr ⟨l, hl, hlj⟩
        · rw [List.mem_singleton.mp hl] at hlj
          exact .inl hlj
    · dsimp only at hc
      split at hc
      · rename_i hcycle
        rcases List.mem_append.mp hc with hc | hc
        · obtain ⟨hcyc, l, hl, heq⟩ := h.sound c hc
          exact ⟨hcyc, l, List.mem_append_left _ hl, heq⟩
        · rw [List.mem_singleton.mp hc]
          exact ⟨hcycle, i, by simp, rfl⟩
      · obtain ⟨hcyc, l, hl, heq⟩ := h.sound c hc
        exact ⟨hcyc, l, List.mem_append_left _ hl, heq⟩
    · dsimp only
      rcases List.mem_append.mp hl with hl | hl
      · split
        · exact List.mem_append_left _ (h.complete l hl hcycle)
        · exact h.complete l hl hcycle
      · rw [List.mem_singleton.mp hl] at hcycle ⊢
        rw [if_pos hcycle]
        exact List.mem_append_right _ (List.mem_singleton_self _)
    · dsimp only
      split
      · refine List.pairwise_append.mpr ⟨h.disjoint, List.pairwise_singleton _ _, ?_⟩
        intro c hc d hd
        rw [List.mem_singleton.mp hd]
        exact hfresh c hc
      · exact h.disjoint

theorem Swept.run {done is : List (Fin n)} {s : Sweep n} (h : Swept edges done s) :
    Swept edges (done ++ is) (is.foldl (Sweep.visit edges (adjacency edges).close) s) := by
  induction is generalizing done s with
  | nil => rwa [List.append_nil]
  | cons i is ih =>
    have hrest := ih (h.visit i)
    rwa [List.append_assoc, List.singleton_append] at hrest

theorem swept_all : Swept edges (List.finRange n)
    ((List.finRange n).foldl (Sweep.visit edges (adjacency edges).close) ⟨.replicate n false, []⟩) := by
  have hstart : Swept edges [] ⟨.replicate n false, []⟩ :=
    ⟨fun j => by simp, fun c hc => absurd hc List.not_mem_nil,
      fun i hi => absurd hi List.not_mem_nil, .nil⟩
  exact hstart.run

theorem mem_cycleClasses {c : List (Fin n)} : c ∈ cycleClasses edges ↔
    ∃ i, c = classOf (adjacency edges).close i ∧
      ∃ a, Mutual (Linked edges) i a ∧ TransGen (Linked edges) a a := by
  constructor
  · intro hc
    obtain ⟨hcycle, i, -, rfl⟩ := swept_all.sound c hc
    exact ⟨i, rfl, isCycle_iff.mp hcycle⟩
  · rintro ⟨i, rfl, hcycle⟩
    exact swept_all.complete i (List.mem_finRange i) (isCycle_iff.mpr hcycle)

theorem cycleClasses_disjoint : (cycleClasses edges).Pairwise fun c d => ∀ x ∈ c, x ∉ d :=
  swept_all.disjoint

end Classes

/-! ## The block graph -/

def branchTargets : OpKind → List BlockId
  | .br target => [target]
  | .brIf thenTgt elseTgt => [thenTgt, elseTgt]
  | _ => []

def IsBlock (w : Word) (a : Nat) : Prop := ∃ b ∈ w.blocks.items, b.id.idx = a

/-- An operation of block `a` branches to the block `b` of the word. -/
def BlockEdge (w : Word) (a b : Nat) : Prop :=
  (∃ blk ∈ w.blocks.items, blk.id.idx = a ∧
    ∃ op ∈ blk.ops.items, ∃ tgt ∈ branchTargets op.kind, tgt.idx = b) ∧ IsBlock w b

/-- A strongly connected component: all the blocks that a block leads to and that lead to it. -/
def Component (w : Word) (C : Set Nat) : Prop :=
  ∃ a, IsBlock w a ∧ C = {b | IsBlock w b ∧ Mutual (BlockEdge w) a b}

def CyclicComponent (w : Word) (C : Set Nat) : Prop :=
  Component w C ∧ ∃ a ∈ C, TransGen (BlockEdge w) a a

section Graph

variable {w : Word}

theorem dedup_ids (bs : List Block) (ids : List Nat) (h : ids.Nodup) :
    (bs.foldl (fun ids b => if ids.contains b.id.idx then ids else ids ++ [b.id.idx]) ids).Nodup ∧
      ∀ a, a ∈ bs.foldl (fun ids b => if ids.contains b.id.idx then ids else ids ++ [b.id.idx]) ids ↔
        a ∈ ids ∨ ∃ b ∈ bs, b.id.idx = a := by
  induction bs generalizing ids with
  | nil => simpa using h
  | cons b bs ih =>
    rw [List.foldl_cons]
    by_cases hb : b.id.idx ∈ ids
    · rw [if_pos (List.contains_iff_mem.mpr hb)]
      refine ⟨(ih ids h).1, fun a => ?_⟩
      rw [(ih ids h).2 a]
      grind
    · have hne : ¬ids.contains b.id.idx = true := fun hc => hb (List.contains_iff_mem.mp hc)
      have hnodup : (ids ++ [b.id.idx]).Nodup := by
        rw [List.nodup_append]
        refine ⟨h, List.nodup_singleton _, fun x hx y hy => ?_⟩
        rw [List.mem_singleton.mp hy]
        exact fun heq => hb (heq ▸ hx)
      rw [if_neg hne]
      refine ⟨(ih _ hnodup).1, fun a => ?_⟩
      rw [(ih _ hnodup).2 a]
      grind

theorem blockIds_nodup (w : Word) : (blockIds w).Nodup :=
  (List.mergeSort_perm _ _).nodup_iff.mpr (dedup_ids _ [] .nil).1

theorem mem_blockIds {a : Nat} : a ∈ blockIds w ↔ IsBlock w a := by
  rw [blockIds, List.mem_mergeSort, (dedup_ids _ [] .nil).2 a]
  simp [IsBlock]

variable {a b : Fin (blockIds w).length} {ids : List Nat}

theorem indexOf_eq_some (h : ids.Nodup) {id : Nat} {i : Fin ids.length} :
    indexOf ids id = some i ↔ ids[i] = id := by
  rw [indexOf, List.findFinIdx?_eq_some_iff, beq_iff_eq]
  refine ⟨And.left, fun hi => ⟨hi, fun j hj hid => ?_⟩⟩
  have hji : j = i := Fin.ext ((List.Nodup.getElem_inj_iff h).mp ((beq_iff_eq.mp hid).trans hi.symm))
  exact absurd hji (Fin.ne_of_lt hj)

theorem mem_edgeTo (h : ids.Nodup) {i a b : Fin ids.length} {target : BlockId} :
    (a, b) ∈ edgeTo ids i target ↔ a = i ∧ ids[b] = target.idx := by
  unfold edgeTo
  cases hidx : indexOf ids target.idx with
  | none =>
    refine ⟨fun hab => absurd hab List.not_mem_nil, fun hab => ?_⟩
    rw [(indexOf_eq_some h).mpr hab.2] at hidx
    cases hidx
  | some t =>
    rw [List.mem_singleton, Prod.mk.injEq]
    refine and_congr_right fun _ => ?_
    rw [← (indexOf_eq_some h), hidx, Option.some.injEq]
    exact eq_comm

theorem mem_opEdges (h : ids.Nodup) {i a b : Fin ids.length} {kind : OpKind} :
    (a, b) ∈ opEdges ids i kind ↔ a = i ∧ ∃ tgt ∈ branchTargets kind, tgt.idx = ids[b] := by
  cases kind <;> simp [opEdges, branchTargets, mem_edgeTo h, eq_comm, and_or_left]

theorem linked_wordEdges :
    Linked (wordEdges w (blockIds w)) a b ↔ BlockEdge w (blockIds w)[a] (blockIds w)[b] := by
  have hnodup := blockIds_nodup w
  rw [Linked, wordEdges, List.mem_flatMap]
  constructor
  · rintro ⟨blk, hblk, hedge⟩
    unfold blockEdges at hedge
    split at hedge
    · rename_i i hi
      obtain ⟨op, hop, hkind⟩ := List.mem_flatMap.mp hedge
      obtain ⟨rfl, tgt, htgt, hid⟩ := (mem_opEdges hnodup).mp hkind
      exact ⟨⟨blk, hblk, ((indexOf_eq_some hnodup).mp hi).symm, op, hop, tgt, htgt, hid⟩,
        mem_blockIds.mp (List.getElem_mem _)⟩
    · exact absurd hedge List.not_mem_nil
  · rintro ⟨⟨blk, hblk, hid, op, hop, tgt, htgt, htgtid⟩, -⟩
    refine ⟨blk, hblk, ?_⟩
    unfold blockEdges
    rw [(indexOf_eq_some hnodup).mpr hid.symm]
    exact List.mem_flatMap.mpr ⟨op, hop, (mem_opEdges hnodup).mpr ⟨rfl, tgt, htgt, htgtid⟩⟩

theorem reaches_iff :
    ReflTransGen (Linked (wordEdges w (blockIds w))) a b ↔
      ReflTransGen (BlockEdge w) (blockIds w)[a] (blockIds w)[b] := by
  constructor
  · exact ReflTransGen.lift (fun i : Fin (blockIds w).length => (blockIds w)[i])
      (fun _ _ => linked_wordEdges.mp) a b
  · intro h
    generalize hy : (blockIds w)[b] = y at h
    induction h generalizing b with
    | refl =>
      have hab : a = b := Fin.ext ((List.Nodup.getElem_inj_iff (blockIds_nodup w)).mp hy.symm)
      rw [hab]
    | @tail y z _ hedge ih =>
      obtain ⟨blk, hblk, hid, -⟩ := hedge.1
      obtain ⟨k, hk, hky⟩ := List.getElem_of_mem (mem_blockIds.mpr ⟨blk, hblk, hid⟩)
      subst hy
      exact (ih (b := ⟨k, hk⟩) hky).tail (linked_wordEdges.mpr (hky ▸ hedge))

theorem cycle_iff :
    TransGen (Linked (wordEdges w (blockIds w))) a a ↔
      TransGen (BlockEdge w) (blockIds w)[a] (blockIds w)[a] := by
  constructor
  · exact TransGen.lift (fun i : Fin (blockIds w).length => (blockIds w)[i])
      (fun _ _ => linked_wordEdges.mp) a a
  · intro h
    obtain ⟨y, hay, hya⟩ := TransGen.head'_iff.mp h
    obtain ⟨k, hk, hky⟩ := List.getElem_of_mem (mem_blockIds.mpr hay.2)
    subst hky
    exact TransGen.head' (b := ⟨k, hk⟩) (linked_wordEdges.mpr hay) (reaches_iff.mpr hya)

theorem mutual_iff :
    Mutual (Linked (wordEdges w (blockIds w))) a b ↔
      Mutual (BlockEdge w) (blockIds w)[a] (blockIds w)[b] :=
  and_congr reaches_iff reaches_iff

def classIds (w : Word) (member : List (Fin (blockIds w).length)) : Set Nat :=
  {b | ∃ i ∈ member, (blockIds w)[i] = b}

/-- **The classes are the components with a cycle.** -/
theorem cyclicComponent_iff {C : Set Nat} : CyclicComponent w C ↔
    ∃ member ∈ cycleClasses (wordEdges w (blockIds w)), C = classIds w member := by
  have hids : ∀ i : Fin (blockIds w).length,
      classIds w (classOf (adjacency (wordEdges w (blockIds w))).close i) =
        {b | IsBlock w b ∧ Mutual (BlockEdge w) (blockIds w)[i] b} := by
    intro i
    ext b
    constructor
    · rintro ⟨j, hj, rfl⟩
      exact ⟨mem_blockIds.mp (List.getElem_mem _), mutual_iff.mp (mem_classOf.mp hj)⟩
    · rintro ⟨hb, hmutual⟩
      obtain ⟨k, hk, rfl⟩ := List.getElem_of_mem (mem_blockIds.mpr hb)
      exact ⟨⟨k, hk⟩, mem_classOf.mpr (mutual_iff.mpr hmutual), rfl⟩
  constructor
  · rintro ⟨⟨a, ha, rfl⟩, b, ⟨hb, hab⟩, hcycle⟩
    obtain ⟨i, hi, rfl⟩ := List.getElem_of_mem (mem_blockIds.mpr ha)
    obtain ⟨j, hj, rfl⟩ := List.getElem_of_mem (mem_blockIds.mpr hb)
    exact ⟨_, mem_cycleClasses.mpr ⟨⟨i, hi⟩, rfl, ⟨j, hj⟩, mutual_iff.mpr hab,
      cycle_iff.mpr hcycle⟩, (hids ⟨i, hi⟩).symm⟩
  · rintro ⟨member, hmember, rfl⟩
    obtain ⟨i, rfl, a, hia, hcycle⟩ := mem_cycleClasses.mp hmember
    rw [hids i]
    exact ⟨⟨_, mem_blockIds.mp (List.getElem_mem _), rfl⟩, (blockIds w)[a],
      ⟨mem_blockIds.mp (List.getElem_mem _), mutual_iff.mp hia⟩, cycle_iff.mp hcycle⟩

/-! ## The answer -/

theorem blockName_injective : Function.Injective blockName := by
  intro a b h
  have hlist := congrArg String.toList h
  rw [blockName, blockName, String.toList_append, String.toList_append,
    List.append_right_inj, Nat.toString_eq_ofList_toDigits, Nat.toString_eq_ofList_toDigits,
    String.toList_ofList, String.toList_ofList] at hlist
  calc a = Nat.ofDigitChars 10 (Nat.toDigits 10 a) 0 := Nat.ofDigitChars_ten_toDigits.symm
    _ = Nat.ofDigitChars 10 (Nat.toDigits 10 b) 0 := by rw [hlist]
    _ = b := Nat.ofDigitChars_ten_toDigits

def classNames (w : Word) (member : List (Fin (blockIds w).length)) : List String :=
  member.map fun i => blockName (blockIds w)[i]

theorem blocks_computeCycles (w : Word) : (computeCycles w).map Cycle.blocks =
    ((cycleClasses (wordEdges w (blockIds w))).mergeSort fun a b => leader a ≤ leader b).map
      (classNames w) := by
  refine List.ext_getElem (by simp [computeCycles]) fun i hi hi' => ?_
  simp [computeCycles, classNames]

theorem mem_classNames {member : List (Fin (blockIds w).length)} {name : String} :
    name ∈ classNames w member ↔ ∃ b ∈ classIds w member, blockName b = name := by
  simp [classNames, classIds]

theorem exists_blocks_iff {P : List String → Prop} : (∃ c ∈ computeCycles w, P c.blocks) ↔
    ∃ member ∈ cycleClasses (wordEdges w (blockIds w)), P (classNames w member) := by
  have hmem : ∀ names, names ∈ (computeCycles w).map Cycle.blocks ↔
      ∃ member ∈ cycleClasses (wordEdges w (blockIds w)), classNames w member = names := by
    intro names
    rw [blocks_computeCycles, List.mem_map]
    exact exists_congr fun member => and_congr_left fun _ => List.mem_mergeSort
  constructor
  · rintro ⟨c, hc, hP⟩
    obtain ⟨member, hmember, hnames⟩ := (hmem c.blocks).mp (List.mem_map_of_mem hc)
    exact ⟨member, hmember, hnames ▸ hP⟩
  · rintro ⟨member, hmember, hP⟩
    obtain ⟨c, hc, hblocks⟩ := List.mem_map.mp ((hmem _).mpr ⟨member, hmember, rfl⟩)
    exact ⟨c, hc, hblocks ▸ hP⟩

theorem names_determine {C : Set Nat} {member : List (Fin (blockIds w).length)} :
    (∀ name, name ∈ classNames w member ↔ ∃ b ∈ C, blockName b = name) ↔ C = classIds w member := by
  constructor
  · intro h
    ext b
    have hb := h (blockName b)
    rw [mem_classNames] at hb
    constructor
    · intro hC
      obtain ⟨b', hb', hname⟩ := hb.mpr ⟨b, hC, rfl⟩
      rwa [blockName_injective hname] at hb'
    · intro hmember
      obtain ⟨b', hb', hname⟩ := hb.mp ⟨b, hmember, rfl⟩
      rwa [blockName_injective hname] at hb'
  · rintro rfl name
    exact mem_classNames

theorem classNames_disjoint {c d : List (Fin (blockIds w).length)} (h : ∀ x ∈ c, x ∉ d) :
    ∀ name ∈ classNames w c, name ∉ classNames w d := by
  intro name hc hd
  obtain ⟨i, hi, rfl⟩ := List.mem_map.mp hc
  obtain ⟨j, hj, hname⟩ := List.mem_map.mp hd
  have hij : j = i :=
    Fin.ext ((List.Nodup.getElem_inj_iff (blockIds_nodup w)).mp (blockName_injective hname))
  exact h i hi (hij ▸ hj)

theorem classNames_nodup {member : List (Fin (blockIds w).length)}
    (h : member ∈ cycleClasses (wordEdges w (blockIds w))) : (classNames w member).Nodup := by
  obtain ⟨i, rfl, -⟩ := mem_cycleClasses.mp h
  refine List.Nodup.map (fun a b hab => ?_) (classOf_nodup _ i)
  exact Fin.ext ((List.Nodup.getElem_inj_iff (blockIds_nodup w)).mp (blockName_injective hab))

/-- **Cycles.**  What is reported are the names of the blocks of every component that contains
a cycle, one cycle for a component; no block is in two cycles or twice in one, and its name
tells it from every other. -/
theorem computeCycles_exact (w : Word) :
    (∀ C : Set Nat, CyclicComponent w C ↔
      ∃ c ∈ computeCycles w, ∀ name, name ∈ c.blocks ↔ ∃ b ∈ C, blockName b = name) ∧
    (computeCycles w).Pairwise (fun c d => ∀ name ∈ c.blocks, name ∉ d.blocks) ∧
    (∀ c ∈ computeCycles w, c.blocks.Nodup) ∧
    Function.Injective blockName := by
  refine ⟨fun C => ?_, ?_, fun c hc => ?_, blockName_injective⟩
  · rw [cyclicComponent_iff, exists_blocks_iff
      (P := fun blocks => ∀ name, name ∈ blocks ↔ ∃ b ∈ C, blockName b = name)]
    exact exists_congr fun member => and_congr_right fun _ => names_determine.symm
  · have hsym : ∀ {c d : List (Fin (blockIds w).length)}, (∀ x ∈ c, x ∉ d) → ∀ x ∈ d, x ∉ c :=
      fun h x hd hc => h x hc hd
    have hsorted := (List.mergeSort_perm (cycleClasses (wordEdges w (blockIds w)))
      fun a b => leader a ≤ leader b).symm.pairwise cycleClasses_disjoint hsym
    have hnames := List.Pairwise.map (S := fun c d => ∀ name ∈ c, name ∉ d) (classNames w)
      (fun _ _ h => classNames_disjoint h) hsorted
    rw [← blocks_computeCycles] at hnames
    exact List.pairwise_map.mp hnames
  · obtain ⟨member, hmember, hnodup⟩ :=
      (exists_blocks_iff (P := fun blocks => blocks = c.blocks)).mp ⟨c, hc, rfl⟩
    rw [← hnodup]
    exact classNames_nodup hmember

end Graph

end Tyu.Manifest

import Tyu.Verifier.VerdictFile
import Tyu.Lib.Dependence

/-! # Assumption closure of an image -/

namespace Tyu

open Lib Manifest

namespace Closure

/-- A dependent whose closure failed, with the direct dependency that failed to close. -/
structure UnresolvedDependent where
  module : String
  id : String
  kind : String
  word : String
  occurrence : UInt32
  line : UInt32
  dependency : String

structure ImageClosure where
  wellClosed : Bool
  checked : UInt32
  unresolved : List UnresolvedDependent

structure ClosureCycle where
  path : List (String × String)

/-- Why a walk stops: a cycle, or the bound on its depth, which is never met. -/
inductive Halt where
  | cycle (c : ClosureCycle)
  | depth

/-- The state of the search.  The newest entry of `sets` and of `memo` stands first. -/
structure Walker where
  sets : List (String × OblSet)
  closed : List (String × String)
  memo : List ((String × String) × Bool)
  onPath : List (String × String)

namespace Walker

def assumptionsOf (w : Walker) (module id : String) : List AssumptionEdge :=
  (((w.sets.lookup module).bind fun set => set.obligations.find? fun o => o.id == id).map
    fun o => o.assumptions).getD []

/-- The first edge whose target is not sound, by its id.  An emitted check is a discharge of
its own, and nothing behind a failing edge is looked at. -/
def firstFailing (assess : Walker → String → String → Except Halt (Bool × Walker)) :
    Walker → List AssumptionEdge → Except Halt (Option String × Walker)
  | w, [] => pure (none, w)
  | w, .runtimeCheck :: rest => firstFailing assess w rest
  | w, .obligation depId depMod :: rest => do
    let (sound, w) ← assess w depMod depId
    if sound then firstFailing assess w rest else pure (some depId, w)

/-- Is the closure of an obligation sound?  The path is looked at before the memo, so an
obligation met again below itself is a cycle. -/
def assessSound : Nat → Walker → String → String → Except Halt (Bool × Walker)
  | 0, _, _, _ => .error .depth
  | fuel + 1, w, module, id =>
    let key := (module, id)
    match w.onPath.findIdx? (· == key) with
    | some idx => .error (.cycle ⟨w.onPath.drop idx ++ [key]⟩)
    | none =>
      match w.memo.lookup key with
      | some cached => pure (cached, w)
      | none =>
        if w.closed.contains key then do
          let (failed, w) ← firstFailing (assessSound fuel) { w with onPath := w.onPath ++ [key] }
            (w.assumptionsOf module id)
          let sound := failed.isNone
          pure (sound, { w with onPath := w.onPath.dropLast, memo := (key, sound) :: w.memo })
        else
          pure (false, { w with memo := (key, false) :: w.memo })

end Walker

/-- A module of the image: its artifact, if there is one, and its verdict records. -/
structure ImageModule where
  name : String
  set : Option OblSet
  records : List VerdictFile.VerdictRecord

def ImageModule.obligations (m : ImageModule) : List Obligation :=
  (m.set.map fun set => set.obligations).getD []

def recordOf (records : List VerdictFile.VerdictRecord) (o : Obligation) : Option VerdictFile.VerdictRecord :=
  records.find? fun r => r.id == o.id && r.idHash == o.idHash

/-- The record of an obligation discharges it, by a proof or a checked fact. -/
def recordClosed (records : List VerdictFile.VerdictRecord) (o : Obligation) : Bool :=
  ((recordOf records o).map fun r =>
    r.status == .discharged && (r.trust == .proof || r.trust == .checked)).getD false

def imageObligations (modules : List ImageModule) : List (String × Obligation) :=
  modules.flatMap fun m => m.obligations.map fun o => (m.name, o)

def closedKeys (modules : List ImageModule) : List (String × String) :=
  modules.flatMap fun m =>
    (m.obligations.filter (recordClosed m.records)).map fun o => (m.name, o.id)

def startWalker (modules : List ImageModule) : Walker where
  sets := (modules.filterMap fun m => m.set.map fun set => (m.name, set)).reverse
  closed := closedKeys modules
  memo := []
  onPath := []

def saturatingSucc (n : UInt32) : UInt32 := if n = 0xFFFFFFFF then n else n + 1

def unresolvedOf (module : String) (o : Obligation) (dependency : String) : UnresolvedDependent :=
  ⟨module, o.id, o.kind.asStr, o.site.word, o.site.occurrence, o.site.span.line, dependency⟩

structure Found where
  walker : Walker
  checked : UInt32
  unresolved : List UnresolvedDependent

def checkObligation (fuel : Nat) (f : Found) (entry : String × Obligation) :
    Except Halt Found := do
  let (name, o) := entry
  if o.assumptions.isEmpty then pure f
  else if f.walker.closed.contains (name, o.id) then do
    let (failedDep, walker) ← f.walker.firstFailing (Walker.assessSound fuel) o.assumptions
    pure ⟨walker, saturatingSucc f.checked,
      f.unresolved ++ (failedDep.map (unresolvedOf name o)).toList⟩
  else pure f

def UnresolvedDependent.le (a b : UnresolvedDependent) : Bool :=
  decide (a.module < b.module) || (a.module == b.module && !decide (b.id < a.id))

/-- The closure check of an image.  The search is no deeper than there are closed
obligations, so its bound is out of reach. -/
def checkImageClosureRecords (modules : List ImageModule) : Except Halt ImageClosure := do
  let walker := startWalker modules
  let found ← (imageObligations modules).foldlM (checkObligation (walker.closed.length + 1))
    ⟨walker, 0, []⟩
  let unresolved := found.unresolved.mergeSort UnresolvedDependent.le
  pure ⟨unresolved.isEmpty, found.checked, unresolved⟩

end Closure

/-!
## The closure search against the assumption graph

The search assesses a node by the graph its artifacts and records describe: a node it
returns from is settled, and its answer is the soundness of the node; a cycle it reports is
a loop of walked edges.  The memo, the path and the early exits change nothing in this.
-/

namespace Closure

def target : AssumptionEdge → Option (String × String)
  | .obligation id module => some (module, id)
  | .runtimeCheck => none

def targets (edges : List AssumptionEdge) : List (String × String) := edges.filterMap target

namespace Walker

def dependence (w : Walker) : Dependence (String × String) where
  closed k := w.closed.contains k
  rests k := targets (w.assumptionsOf k.1 k.2)

structure Beside (w w' : Walker) : Prop where
  sets : w'.sets = w.sets
  closed : w'.closed = w.closed
  onPath : w'.onPath = w.onPath

theorem Beside.refl (w : Walker) : w.Beside w := ⟨rfl, rfl, rfl⟩

variable {w w' : Walker} {k : String × String}

theorem Beside.trans {w'' : Walker} (h : w.Beside w') (h' : w'.Beside w'') : w.Beside w'' :=
  ⟨h'.sets.trans h.sets, h'.closed.trans h.closed, h'.onPath.trans h.onPath⟩

theorem Beside.dependence (h : w.Beside w') : w'.dependence = w.dependence := by
  unfold Walker.dependence assumptionsOf
  rw [h.sets, h.closed]

structure Good (w : Walker) : Prop where
  memo : ∀ k b, w.memo.lookup k = some b → w.dependence.Settled k ∧ (b = true ↔ w.dependence.Sound k)
  chain : w.onPath.IsChain w.dependence.Walked
  nodup : w.onPath.Nodup
  closed : ∀ k ∈ w.onPath, k ∈ w.closed

def Enters (w : Walker) (k : String × String) : Prop :=
  ∀ last ∈ w.onPath.getLast?, w.dependence.Walked last k

theorem Beside.enters (h : w.Beside w') (hk : w.Enters k) : w'.Enters k := by
  intro last hlast
  rw [h.dependence]
  exact hk last (h.onPath ▸ hlast)

def Assessed (w : Walker) (k : String × String) : Except Halt (Bool × Walker) → Prop
  | .ok (sound, w') => w.Beside w' ∧ w'.Good ∧ w.dependence.Settled k ∧
      (sound = true ↔ w.dependence.Sound k)
  | .error (.cycle c) => Dependence.Loop w.dependence.Walked c.path
  | .error .depth => False

def LeavesOff (g : Dependence (String × String)) (nodes : List (String × String)) :
    Option String → Prop
  | none => g.AllSettle nodes
  | some id => ∃ front module rest, nodes = front ++ (module, id) :: rest ∧ g.AllSettle front ∧
      g.Settled (module, id) ∧ ¬ g.Sound (module, id)

def EdgesAssessed (w : Walker) (edges : List AssumptionEdge) :
    Except Halt (Option String × Walker) → Prop
  | .ok (failed, w') => w.Beside w' ∧ w'.Good ∧ LeavesOff w.dependence (targets edges) failed
  | .error (.cycle c) => Dependence.Loop w.dependence.Walked c.path
  | .error .depth => False

theorem LeavesOff.cons {g : Dependence (String × String)} {k : String × String}
    {nodes : List (String × String)} {failed : Option String} (hk : g.Settled k ∧ g.Sound k)
    (h : LeavesOff g nodes failed) : LeavesOff g (k :: nodes) failed := by
  have hcons : ∀ front, g.AllSettle front → g.AllSettle (k :: front) := by
    intro front hfront u hu
    rcases List.mem_cons.mp hu with rfl | hu
    · exact hk
    · exact hfront u hu
  cases failed with
  | none => exact hcons nodes h
  | some id =>
    obtain ⟨front, module, rest, hnodes, hfront, hfail⟩ := h
    exact ⟨k :: front, module, rest, by rw [hnodes, List.cons_append], hcons front hfront, hfail⟩

theorem firstFailing_assessed {assess : Walker → String → String → Except Halt (Bool × Walker)}
    {edges : List AssumptionEdge} (hgood : w.Good)
    (hassess : ∀ w' k, w.Beside w' → w'.Good → w'.Enters k →
      w'.Assessed k (assess w' k.1 k.2))
    (henters : ∀ before k after, targets edges = before ++ k :: after →
      (∀ u ∈ before, w.dependence.Sound u) → w.Enters k) :
    w.EdgesAssessed edges (firstFailing assess w edges) := by
  induction edges generalizing w with
  | nil => exact ⟨.refl w, hgood, fun _ hu => absurd hu List.not_mem_nil⟩
  | cons edge rest ih =>
    cases edge with
    | runtimeCheck => exact ih hgood hassess henters
    | obligation depId depMod =>
      have hfirst := hassess w (depMod, depId) (.refl w) hgood
        (henters [] (depMod, depId) (targets rest) rfl (fun _ hu => absurd hu List.not_mem_nil))
      show w.EdgesAssessed _ (assess w depMod depId >>= _)
      cases hrun : assess w depMod depId with
      | error halt =>
        rw [hrun] at hfirst
        cases halt with
        | cycle c => exact hfirst
        | depth => exact hfirst
      | ok result =>
        obtain ⟨sound, w₁⟩ := result
        rw [hrun] at hfirst
        obtain ⟨hbeside, hgood₁, hsettled, hsound⟩ := hfirst
        cases sound with
        | false =>
          have hns : ¬ w.dependence.Sound (depMod, depId) := fun h => by simpa using hsound.mpr h
          exact ⟨hbeside, hgood₁, [], depMod, targets rest, rfl,
            fun _ hu => absurd hu List.not_mem_nil, hsettled, hns⟩
        | true =>
          have hrest : w₁.EdgesAssessed rest (firstFailing assess w₁ rest) := by
            refine ih hgood₁ (fun w' k h => hassess w' k (hbeside.trans h)) ?_
            intro before k after hsplit hbefore
            rw [hbeside.dependence] at hbefore
            refine hbeside.enters (henters ((depMod, depId) :: before) k after ?_ ?_)
            · show (depMod, depId) :: targets rest = _
              rw [hsplit, List.cons_append]
            · intro u hu
              rcases List.mem_cons.mp hu with rfl | hu
              · exact hsound.mp rfl
              · exact hbefore u hu
          show w.EdgesAssessed _ (firstFailing assess w₁ rest)
          cases hwalk : firstFailing assess w₁ rest with
          | error halt =>
            rw [hwalk] at hrest
            cases halt with
            | cycle c =>
              show Dependence.Loop w.dependence.Walked c.path
              rw [← hbeside.dependence]
              exact hrest
            | depth => exact hrest
          | ok result =>
            obtain ⟨failed, w₂⟩ := result
            rw [hwalk] at hrest
            obtain ⟨hbeside₂, hgood₂, hleaves⟩ := hrest
            rw [hbeside.dependence] at hleaves
            exact ⟨hbeside.trans hbeside₂, hgood₂, hleaves.cons ⟨hsettled, hsound.mp rfl⟩⟩

theorem Good.path_le (h : w.Good) : w.onPath.length ≤ w.closed.length :=
  (h.nodup.subperm h.closed).length_le

theorem Good.push (h : w.Good) (hk : w.Enters k) (hpath : k ∉ w.onPath) (hclosed : k ∈ w.closed) :
    Good { w with onPath := w.onPath ++ [k] } where
  memo := h.memo
  chain := by
    refine List.isChain_append.mpr ⟨h.chain, List.isChain_singleton k, ?_⟩
    intro last hlast x hx
    rw [← Option.some.inj hx]
    exact hk last hlast
  nodup := by
    refine List.nodup_append.mpr ⟨h.nodup, List.nodup_singleton k, ?_⟩
    intro x hx y hy hxy
    rw [List.mem_singleton.mp hy] at hxy
    exact hpath (hxy ▸ hx)
  closed := by
    intro x hx
    rcases List.mem_append.mp hx with hx | hx
    · exact h.closed x hx
    · rw [List.mem_singleton.mp hx]
      exact hclosed

theorem Good.remember {b : Bool} (h : w.Good) (hsettled : w.dependence.Settled k)
    (hb : b = true ↔ w.dependence.Sound k) :
    Good { w with memo := (k, b) :: w.memo } where
  memo := by
    intro k' b' hlookup
    by_cases hk : k' = k
    · subst hk
      have hbb : b' = b := by simpa [List.lookup] using hlookup.symm
      subst hbb
      exact ⟨hsettled, hb⟩
    · have hold : w.memo.lookup k' = some b' := by
        rw [← hlookup]
        simp [List.lookup, beq_false_of_ne hk]
      exact h.memo k' b' hold
  chain := h.chain
  nodup := h.nodup
  closed := h.closed

theorem settled_of_open {g : Dependence (String × String)} (h : g.closed k = false) :
    g.Settled k ∧ ¬ g.Sound k := by
  constructor
  · refine .intro k fun u hu => ?_
    rw [hu.1] at h
    exact absurd h (by decide)
  · intro hs
    rw [hs.closed] at h
    exact absurd h (by decide)

theorem LeavesOff.node {g : Dependence (String × String)} {failed : Option String}
    (hclosed : g.closed k = true) (h : LeavesOff g (g.rests k) failed) :
    g.Settled k ∧ (failed.isNone = true ↔ g.Sound k) := by
  cases failed with
  | none =>
    obtain ⟨hsettled, hsound⟩ := Dependence.AllSettle.node hclosed h
    exact ⟨hsettled, ⟨fun _ => hsound, fun _ => rfl⟩⟩
  | some id =>
    obtain ⟨front, module, rest, hrests, hfront, hw, hns⟩ := h
    obtain ⟨hsettled, hnot⟩ := hfront.leaves_off hrests hw hns
    exact ⟨hsettled, ⟨fun h => absurd h (by simp), fun h => absurd h hnot⟩⟩

theorem Good.assessed_of_edges (hgood : w.Good) (hclosed : w.closed.contains k = true)
    {edges : Except Halt (Option String × Walker)}
    (hwalk : EdgesAssessed { w with onPath := w.onPath ++ [k] } (w.assumptionsOf k.1 k.2) edges) :
    w.Assessed k (edges >>= fun (failed, w₁) =>
      pure (failed.isNone,
        { w₁ with onPath := w₁.onPath.dropLast, memo := (k, failed.isNone) :: w₁.memo })) := by
  cases edges with
  | error halt =>
    cases halt with
    | cycle c => exact hwalk
    | depth => exact hwalk
  | ok result =>
    obtain ⟨failed, w₁⟩ := result
    obtain ⟨hbeside, hgood₁, hleaves⟩ := hwalk
    have hgraph : w₁.dependence = w.dependence := hbeside.dependence
    obtain ⟨hsettled, hsound⟩ := LeavesOff.node (g := w.dependence) (k := k) hclosed hleaves
    have hpath : w₁.onPath.dropLast = w.onPath := by
      rw [hbeside.onPath]
      exact List.dropLast_concat
    refine ⟨⟨hbeside.sets, hbeside.closed, hpath⟩, ?_, hsettled, hsound⟩
    have hmemo := hgood₁.remember (k := k) (b := failed.isNone) (hgraph ▸ hsettled)
      (hgraph ▸ hsound)
    refine ⟨hmemo.memo, ?_, ?_, ?_⟩
    · exact hpath ▸ (hgraph ▸ hgood.chain : w.onPath.IsChain w₁.dependence.Walked)
    · exact hpath ▸ hgood.nodup
    · exact hpath ▸ hbeside.closed ▸ hgood.closed

theorem assessSound_assessed (fuel : Nat) (hgood : w.Good)
    (hfuel : w.closed.length < fuel + w.onPath.length) (hk : w.Enters k) :
    w.Assessed k (assessSound fuel w k.1 k.2) := by
  induction fuel generalizing w k with
  | zero => exact absurd hgood.path_le (by omega)
  | succ fuel ih =>
    unfold assessSound
    cases hfind : w.onPath.findIdx? (· == k) with
    | some idx =>
      obtain ⟨hidx, hat, _⟩ := List.findIdx?_eq_some_iff_getElem.mp hfind
      have hsplit : w.onPath = w.onPath.take idx ++ k :: w.onPath.drop (idx + 1) := by
        have hkey : w.onPath[idx] = k := by simpa using hat
        rw [← hkey, ← List.drop_eq_getElem_cons hidx, List.take_append_drop]
      simp only [hfind]
      show Dependence.Loop w.dependence.Walked (w.onPath.drop idx ++ [k])
      have hdrop : w.onPath.drop idx = k :: w.onPath.drop (idx + 1) := by
        have hkey : w.onPath[idx] = k := by simpa using hat
        rw [List.drop_eq_getElem_cons hidx, hkey]
      rw [hdrop, List.cons_append]
      obtain ⟨last, hlast⟩ : ∃ last, w.onPath.getLast? = some last :=
        ⟨_, List.getLast?_eq_some_getLast (List.ne_nil_of_length_pos (by omega))⟩
      have hchain := hgood.chain
      rw [hsplit] at hchain
      have hlast' := hlast
      rw [hsplit] at hlast'
      exact Dependence.loop_of_return hchain hlast' (hk last hlast)
    | none =>
      have hpath : k ∉ w.onPath := by
        intro hmem
        have := List.findIdx?_eq_none_iff.mp hfind k hmem
        simp at this
      simp only [hfind]
      cases hmemo : w.memo.lookup k with
      | some cached =>
        exact ⟨.refl w, hgood, hgood.memo k cached hmemo⟩
      | none =>
        by_cases hclosed : w.closed.contains k = true
        · rw [if_pos hclosed]
          have hpush : Good { w with onPath := w.onPath ++ [k] } :=
            hgood.push hk hpath (by simpa using hclosed)
          have hwalk : EdgesAssessed { w with onPath := w.onPath ++ [k] } (w.assumptionsOf k.1 k.2)
              (firstFailing (assessSound fuel) { w with onPath := w.onPath ++ [k] }
                (w.assumptionsOf k.1 k.2)) := by
            refine firstFailing_assessed hpush ?_ ?_
            · intro w' k' hbeside hgood' henters
              refine ih hgood' ?_ henters
              rw [hbeside.closed, hbeside.onPath, List.length_append, List.length_singleton]
              show w.closed.length < _
              omega
            · intro before k' after hsplit hbefore last hlast
              have hlast' : k = last := by simpa using hlast
              rw [← hlast']
              exact ⟨hclosed, before, after, hsplit, hbefore⟩
          exact hgood.assessed_of_edges hclosed hwalk
        · rw [if_neg hclosed]
          obtain ⟨hsettled, hns⟩ := settled_of_open (g := w.dependence) (k := k)
            (by simpa [dependence] using hclosed)
          exact ⟨⟨rfl, rfl, rfl⟩, hgood.remember hsettled ⟨fun h => absurd h (by simp),
            fun h => absurd h hns⟩, hsettled, ⟨fun h => absurd h (by simp), fun h => absurd h hns⟩⟩

end Walker

end Closure

end Tyu

import Tyu.Image.Closure

/-!
# What the closure check reports

Without a cycle of walked edges the check returns the closed obligations that rest on one that is
not closed; with one it reports a cycle of closed obligations.
-/

namespace Tyu

open Lib Manifest Relation

namespace Closure

def entryKey (entry : String × Obligation) : String × String := (entry.1, entry.2.id)

def UnresolvedDependent.key (u : UnresolvedDependent) : String × String := (u.module, u.id)

def image (modules : List ImageModule) : Dependence (String × String) where
  closed k := (closedKeys modules).contains k
  rests k := targets ((((imageObligations modules).find? fun e => entryKey e == k).map
    fun e => e.2.assumptions).getD [])

structure Unique (modules : List ImageModule) : Prop where
  names : (modules.map fun m => m.name).Nodup
  ids : ∀ m ∈ modules, (m.obligations.map fun o => o.id).Nodup

/-! ## Lookups in an image with unique names -/

theorem lookup_of_mem {β : Type} {entries : List (String × β)} {k : String} {b : β}
    (hnodup : (entries.map Prod.fst).Nodup) (h : (k, b) ∈ entries) : entries.lookup k = some b := by
  obtain ⟨before, after, rfl⟩ := List.append_of_mem h
  refine List.lookup_eq_some_iff.mpr ⟨before, after, rfl, fun p hp => ?_⟩
  rw [List.map_append, List.map_cons] at hnodup
  have hne : p.1 ≠ k := fun heq => (List.nodup_append.mp hnodup).2.2 p.1
    (List.mem_map_of_mem hp) k List.mem_cons_self heq
  simpa using fun heq : k = p.1 => hne heq.symm

theorem find?_of_unique {β κ : Type} [BEq κ] [LawfulBEq κ] {f : β → κ} {xs : List β} {x : β}
    (hnodup : (xs.map f).Nodup) (h : x ∈ xs) : (xs.find? fun y => f y == f x) = some x := by
  obtain ⟨before, after, rfl⟩ := List.append_of_mem h
  refine List.find?_eq_some_iff_append.mpr ⟨by simp, before, after, rfl, fun y hy => ?_⟩
  rw [List.map_append, List.map_cons] at hnodup
  have hne : f y ≠ f x := (List.nodup_append.mp hnodup).2.2 (f y) (List.mem_map_of_mem hy) (f x)
    List.mem_cons_self
  simpa using hne

variable {modules : List ImageModule}

theorem mem_imageObligations {name : String} {o : Obligation} :
    (name, o) ∈ imageObligations modules ↔ ∃ m ∈ modules, m.name = name ∧ o ∈ m.obligations := by
  unfold imageObligations
  simp only [List.mem_flatMap, List.mem_map, Prod.mk.injEq]
  constructor
  · rintro ⟨m, hm, o', ho, rfl, rfl⟩
    exact ⟨m, hm, rfl, ho⟩
  · rintro ⟨m, hm, rfl, ho⟩
    exact ⟨m, hm, o, ho, rfl, rfl⟩

theorem Unique.keys (h : Unique modules) : ((imageObligations modules).map entryKey).Nodup := by
  obtain ⟨hnames, hids⟩ := h
  unfold imageObligations
  induction modules with
  | nil => exact List.nodup_nil
  | cons m modules ih =>
    obtain ⟨hm, hnames⟩ := List.nodup_cons.mp hnames
    rw [List.flatMap_cons, List.map_append]
    refine List.nodup_append.mpr ⟨?_, ih hnames fun m' hm' => hids m' (List.mem_cons_of_mem _ hm'), ?_⟩
    · have hown := hids m List.mem_cons_self
      rw [List.map_map]
      refine List.Nodup.of_map Prod.snd ?_
      rw [List.map_map]
      exact hown
    · rintro x hx y hy rfl
      obtain ⟨⟨name, o⟩, he, rfl⟩ := List.mem_map.mp hy
      obtain ⟨m', hm', rfl, _⟩ := mem_imageObligations.mp he
      obtain ⟨⟨name', o'⟩, he', heq⟩ := List.mem_map.mp hx
      obtain ⟨o'', _, ho''⟩ := List.mem_map.mp he'
      have hname : m.name = m'.name := by
        rw [← (Prod.mk.inj ho'').1] at heq
        exact (Prod.mk.inj heq).1
      have hmem : m'.name ∈ modules.map fun m => m.name := List.mem_map_of_mem hm'
      refine hm ?_
      show m.name ∈ _
      rw [hname]
      exact hmem

theorem mem_sets {name : String} {set : OblSet} :
    (name, set) ∈ (startWalker modules).sets ↔
      ∃ m ∈ modules, m.name = name ∧ m.set = some set := by
  unfold startWalker
  simp only [List.mem_reverse, List.mem_filterMap, Option.map_eq_some_iff, Prod.mk.injEq]
  constructor
  · rintro ⟨m, hm, set', hset, rfl, rfl⟩
    exact ⟨m, hm, rfl, hset⟩
  · rintro ⟨m, hm, rfl, hset⟩
    exact ⟨m, hm, set, hset, rfl, rfl⟩

theorem Unique.sets (h : Unique modules) : ((startWalker modules).sets.map Prod.fst).Nodup := by
  have hsub : ((modules.filterMap fun m => m.set.map fun set => (m.name, set)).map Prod.fst).Sublist
      (modules.map fun m => m.name) := by
    clear h
    induction modules with
    | nil => exact .slnil
    | cons m modules ih =>
      cases hset : m.set with
      | none =>
        rw [List.filterMap_cons_none (by rw [hset]; rfl)]
        exact ih.cons m.name
      | some set =>
        rw [List.filterMap_cons_some (b := (m.name, set)) (by rw [hset]; rfl)]
        exact ih.cons_cons m.name
  show ((List.reverse _).map Prod.fst).Nodup
  rw [List.map_reverse]
  exact List.nodup_reverse.mpr (h.names.sublist hsub)

theorem obligations_of_set {m : ImageModule} {set : OblSet} (h : m.set = some set) :
    m.obligations = set.obligations := by
  unfold ImageModule.obligations
  rw [h]
  rfl

theorem Unique.dependence (h : Unique modules) :
    (startWalker modules).dependence = image modules := by
  have hedges : ∀ k, targets ((startWalker modules).assumptionsOf k.1 k.2) =
      (image modules).rests k := by
    intro k
    show targets _ = targets _
    congr 1
    by_cases hk : ∃ e ∈ imageObligations modules, entryKey e = k
    · obtain ⟨⟨name, o⟩, he, rfl⟩ := hk
      obtain ⟨m, hm, rfl, ho⟩ := mem_imageObligations.mp he
      rw [find?_of_unique h.keys he]
      cases hset : m.set with
      | none =>
        rw [ImageModule.obligations, hset] at ho
        exact absurd ho List.not_mem_nil
      | some set =>
        have hids := h.ids m hm
        rw [obligations_of_set hset] at ho hids
        have hlookup : (startWalker modules).sets.lookup m.name = some set :=
          lookup_of_mem h.sets (mem_sets.mpr ⟨m, hm, rfl, hset⟩)
        have hfind : (set.obligations.find? fun o' => o'.id == o.id) = some o :=
          find?_of_unique hids ho
        show ((((startWalker modules).sets.lookup m.name).bind fun set =>
          set.obligations.find? fun o' => o'.id == o.id).map fun o => o.assumptions).getD [] = _
        rw [hlookup, Option.bind_some, hfind]
        rfl
    · have hnone : ((imageObligations modules).find? fun e => entryKey e == k) = none := by
        refine List.find?_eq_none.mpr fun e he heq => hk ⟨e, he, by simpa using heq⟩
      rw [hnone]
      unfold Walker.assumptionsOf
      cases hlookup : (startWalker modules).sets.lookup k.1 with
      | none => rfl
      | some set =>
        cases hfind : set.obligations.find? fun o => o.id == k.2 with
        | none => rw [Option.bind_some, hfind]; rfl
        | some o =>
          obtain ⟨before, after, hsets, _⟩ := List.lookup_eq_some_iff.mp hlookup
          have hmem : (k.1, set) ∈ (startWalker modules).sets := by
            rw [hsets]
            exact List.mem_append_right before List.mem_cons_self
          obtain ⟨m, hm, hname, hset⟩ := mem_sets.mp hmem
          have hid : o.id = k.2 := by simpa using List.find?_some hfind
          refine absurd ⟨(k.1, o), mem_imageObligations.mpr ⟨m, hm, hname, ?_⟩, ?_⟩ hk
          · rw [obligations_of_set hset]
            exact List.mem_of_find?_eq_some hfind
          · exact Prod.ext rfl hid
  show Dependence.mk _ _ = _
  rw [show image modules = ⟨(image modules).closed, (image modules).rests⟩ from rfl]
  congr 1
  exact funext hedges

theorem Unique.rests (h : Unique modules) {e : String × Obligation}
    (he : e ∈ imageObligations modules) :
    (image modules).rests (entryKey e) = targets e.2.assumptions := by
  show targets _ = _
  rw [find?_of_unique h.keys he]
  rfl

theorem closed_entry {k : String × String} (h : (image modules).closed k = true) :
    ∃ e ∈ imageObligations modules, entryKey e = k := by
  have hmem : k ∈ closedKeys modules := by simpa [image] using h
  unfold closedKeys at hmem
  obtain ⟨m, hm, hk⟩ := List.mem_flatMap.mp hmem
  obtain ⟨o, ho, rfl⟩ := List.mem_map.mp hk
  exact ⟨(m.name, o), mem_imageObligations.mpr ⟨m, hm, rfl, (List.mem_filter.mp ho).1⟩, rfl⟩

/-! ## The loop over the obligations -/

/-- The dependents a loop over some obligations forces open: a closed obligation is on the
list when the walk over its own edges leaves off. -/
inductive Forces (g : Dependence (String × String)) :
    List (String × Obligation) → List UnresolvedDependent → Prop where
  | nil : Forces g [] []
  | rests {done found} (e : String × Obligation) (before : Forces g done found)
      (settle : g.closed (entryKey e) = true → g.AllSettle (targets e.2.assumptions)) :
      Forces g (done ++ [e]) found
  | fails {done found} (e : String × Obligation) (dep : String) (before : Forces g done found)
      (closed : g.closed (entryKey e) = true)
      (leaves : Walker.LeavesOff g (targets e.2.assumptions) (some dep)) :
      Forces g (done ++ [e]) (found ++ [unresolvedOf e.1 e.2 dep])

def Swept (start : Walker) (done : List (String × Obligation)) : Except Halt Found → Prop
  | .ok f => start.Beside f.walker ∧ f.walker.Good ∧
      Forces start.dependence done f.unresolved
  | .error (.cycle c) => Dependence.Loop start.dependence.Walked c.path
  | .error .depth => False

theorem swept_checkObligation {start : Walker} {done : List (String × Obligation)} {f : Found}
    (e : String × Obligation) (h : Swept start done (.ok f)) (hpath : start.onPath = []) :
    Swept start (done ++ [e]) (checkObligation (start.closed.length + 1) f e) := by
  obtain ⟨hbeside, hgood, hforces⟩ := h
  have hclosed_eq : f.walker.closed.contains (e.1, e.2.id) =
      start.dependence.closed (entryKey e) := by
    rw [hbeside.closed]
    rfl
  unfold checkObligation
  dsimp only
  by_cases hempty : e.2.assumptions.isEmpty = true
  · rw [if_pos hempty]
    refine ⟨hbeside, hgood, hforces.rests e fun _ => ?_⟩
    rw [List.isEmpty_iff.mp hempty]
    exact fun _ hu => absurd hu List.not_mem_nil
  · rw [if_neg hempty]
    by_cases hclosed : start.dependence.closed (entryKey e) = true
    · rw [if_pos (hclosed_eq.trans hclosed)]
      have hwalk : f.walker.EdgesAssessed e.2.assumptions
          (f.walker.firstFailing (Walker.assessSound (start.closed.length + 1))
            e.2.assumptions) := by
        refine Walker.firstFailing_assessed hgood ?_ ?_
        · intro w' k hw' hgood' henters
          refine Walker.assessSound_assessed _ hgood' ?_ henters
          rw [hw'.closed, hbeside.closed]
          omega
        · intro _ k _ _ _ last hlast
          rw [hbeside.onPath, hpath] at hlast
          exact absurd hlast (by simp)
      cases hrun : f.walker.firstFailing (Walker.assessSound (start.closed.length + 1))
          e.2.assumptions with
      | error halt =>
        rw [hrun] at hwalk
        cases halt with
        | cycle c =>
          show Dependence.Loop start.dependence.Walked c.path
          rw [← hbeside.dependence]
          exact hwalk
        | depth => exact hwalk
      | ok result =>
        obtain ⟨failedDep, walker⟩ := result
        rw [hrun] at hwalk
        obtain ⟨hwalker, hgood', hleaves⟩ := hwalk
        rw [hbeside.dependence] at hleaves
        refine ⟨hbeside.trans hwalker, hgood', ?_⟩
        cases failedDep with
        | none =>
          show Forces _ _ (f.unresolved ++ [])
          rw [List.append_nil]
          exact hforces.rests e fun _ => hleaves
        | some dep => exact hforces.fails e dep hclosed hleaves
    · rw [if_neg (fun hc => hclosed (hclosed_eq.symm.trans hc))]
      exact ⟨hbeside, hgood, hforces.rests e fun hc => absurd hc hclosed⟩

theorem swept_foldlM {start : Walker} (hpath : start.onPath = [])
    (rest : List (String × Obligation)) {done : List (String × Obligation)} {f : Found}
    (h : Swept start done (.ok f)) :
    Swept start (done ++ rest) (rest.foldlM (checkObligation (start.closed.length + 1)) f) := by
  induction rest generalizing done f with
  | nil =>
    rw [List.append_nil]
    exact h
  | cons e rest ih =>
    have hstep := swept_checkObligation e h hpath
    rw [List.foldlM_cons]
    cases hrun : checkObligation (start.closed.length + 1) f e with
    | error halt =>
      rw [hrun] at hstep
      cases halt with
      | cycle c => exact hstep
      | depth => exact hstep
    | ok f' =>
      rw [hrun] at hstep
      have hrest := ih hstep
      rw [List.append_assoc] at hrest
      exact hrest

theorem swept_image (modules : List ImageModule) :
    Swept (startWalker modules) (imageObligations modules)
      ((imageObligations modules).foldlM
        (checkObligation ((startWalker modules).closed.length + 1)) ⟨startWalker modules, 0, []⟩) := by
  show Swept _ ([] ++ imageObligations modules) _
  refine swept_foldlM rfl _ ⟨.refl _, ⟨fun k b hk => ?_, .nil, .nil, ?_⟩, .nil⟩
  · exact absurd hk (by simp [startWalker])
  · exact fun k hk => absurd hk List.not_mem_nil

section Forced

variable {g : Dependence (String × String)} {done : List (String × Obligation)}
  {found : List UnresolvedDependent}

theorem Forces.sublist (h : Forces g done found) :
    (found.map UnresolvedDependent.key).Sublist (done.map entryKey) := by
  induction h with
  | nil => exact .slnil
  | rests e _ _ ih =>
    rw [List.map_append]
    exact ih.trans (List.sublist_append_left _ _)
  | fails e dep _ _ _ ih =>
    rw [List.map_append, List.map_append]
    exact ih.append (List.Sublist.refl _)

theorem Forces.settle (h : Forces g done []) {e : String × Obligation} (he : e ∈ done)
    (hclosed : g.closed (entryKey e) = true) : g.AllSettle (targets e.2.assumptions) := by
  generalize hfound : ([] : List UnresolvedDependent) = found at h
  induction h with
  | nil => exact absurd he List.not_mem_nil
  | rests e' _ hsettle ih =>
    rcases List.mem_append.mp he with he | he
    · exact ih he hfound
    · rw [List.mem_singleton.mp he] at hclosed ⊢
      exact hsettle hclosed
  | fails _ _ _ _ _ _ => exact absurd hfound.symm (by simp)

theorem Forces.settled (h : Forces g done found)
    (hrests : ∀ e ∈ done, g.rests (entryKey e) = targets e.2.assumptions)
    {e : String × Obligation} (he : e ∈ done) (hclosed : g.closed (entryKey e) = true) :
    g.Settled (entryKey e) := by
  induction h with
  | nil => exact absurd he List.not_mem_nil
  | rests e' _ hsettle ih =>
    have hrests' := hrests e' (List.mem_append_right _ List.mem_cons_self)
    rcases List.mem_append.mp he with he | he
    · exact ih (fun e hmem => hrests e (List.mem_append_left _ hmem)) he
    · rw [List.mem_singleton.mp he] at hclosed ⊢
      exact (Dependence.AllSettle.node hclosed (hrests' ▸ hsettle hclosed)).1
  | fails e' dep _ hclosed' hleaves ih =>
    have hrests' := hrests e' (List.mem_append_right _ List.mem_cons_self)
    rcases List.mem_append.mp he with he | he
    · exact ih (fun e hmem => hrests e (List.mem_append_left _ hmem)) he
    · rw [List.mem_singleton.mp he]
      exact (Walker.LeavesOff.node hclosed' (hrests' ▸ hleaves)).1

/-- Where each obligation rests on its own edges, the list has the closed obligations that
are not sound. -/
theorem Forces.mem_iff (h : Forces g done found)
    (hrests : ∀ e ∈ done, g.rests (entryKey e) = targets e.2.assumptions) (k : String × String) :
    k ∈ found.map UnresolvedDependent.key ↔
      ∃ e ∈ done, entryKey e = k ∧ g.closed k = true ∧ ¬ g.Sound k := by
  induction h with
  | nil =>
    constructor
    · exact fun hk => absurd hk List.not_mem_nil
    · rintro ⟨e, he, _⟩
      exact absurd he List.not_mem_nil
  | rests e' _ hsettle ih =>
    have hrests' := hrests e' (List.mem_append_right _ List.mem_cons_self)
    rw [ih fun e hmem => hrests e (List.mem_append_left _ hmem)]
    constructor
    · rintro ⟨e, he, hk⟩
      exact ⟨e, List.mem_append_left _ he, hk⟩
    · rintro ⟨e, he, rfl, hclosed, hns⟩
      rcases List.mem_append.mp he with he | he
      · exact ⟨e, he, rfl, hclosed, hns⟩
      · rw [List.mem_singleton.mp he] at hclosed hns
        exact absurd (Dependence.AllSettle.node hclosed (hrests' ▸ hsettle hclosed)).2 hns
  | fails e' dep _ hclosed' hleaves ih =>
    have hrests' := hrests e' (List.mem_append_right _ List.mem_cons_self)
    rw [List.map_append, List.mem_append, List.map_singleton, List.mem_singleton,
      ih fun e hmem => hrests e (List.mem_append_left _ hmem)]
    constructor
    · rintro (⟨e, he, hk⟩ | rfl)
      · exact ⟨e, List.mem_append_left _ he, hk⟩
      · refine ⟨e', List.mem_append_right _ List.mem_cons_self, rfl, hclosed', fun hs => ?_⟩
        have hsound := (Walker.LeavesOff.node hclosed' (hrests' ▸ hleaves)).2
        exact absurd (hsound.mpr hs) (by simp)
    · rintro ⟨e, he, rfl, hk⟩
      rcases List.mem_append.mp he with he | he
      · exact .inl ⟨e, he, rfl, hk⟩
      · rw [List.mem_singleton.mp he]
        exact .inr rfl

end Forced

/-! ## The report -/

/-- The report names exactly the closed obligations that reach one that is not closed, or the
check stops at a cycle of closed obligations. -/
def Reports (modules : List ImageModule) : Except Halt ImageClosure → Prop
  | .ok r => (∀ k, k ∈ r.unresolved.map UnresolvedDependent.key ↔
        (image modules).closed k = true ∧ (image modules).ReachesOpen k) ∧
      (r.unresolved.map UnresolvedDependent.key).Nodup
  | .error (.cycle c) => Dependence.Loop (image modules).ClosedEdge c.path
  | .error .depth => False

def ClosedCycle (modules : List ImageModule) : Prop :=
  ∃ k, TransGen (image modules).ClosedEdge k k

def WalkedCycle (modules : List ImageModule) : Prop := ∃ k, TransGen (image modules).Walked k k

/-- What the closure check is for: an exact report, and an error whenever the closed
obligations have a cycle. -/
def ClosureExact (modules : List ImageModule) : Prop :=
  Reports modules (checkImageClosureRecords modules) ∧
    (ClosedCycle modules → ∃ c, checkImageClosureRecords modules = .error (.cycle c))

def Walks (modules : List ImageModule) : Except Halt ImageClosure → Prop
  | .ok _ => ∀ k, (image modules).closed k = true → (image modules).Settled k
  | .error (.cycle c) => Dependence.Loop (image modules).Walked c.path
  | .error .depth => False

theorem reports_and_walks (h : Unique modules) :
    Reports modules (checkImageClosureRecords modules) ∧
      Walks modules (checkImageClosureRecords modules) := by
  have hswept := swept_image modules
  unfold checkImageClosureRecords
  dsimp only
  cases hrun : (imageObligations modules).foldlM
      (checkObligation ((startWalker modules).closed.length + 1)) ⟨startWalker modules, 0, []⟩ with
  | error halt =>
    rw [hrun] at hswept
    cases halt with
    | cycle c =>
      have hloop : Dependence.Loop (image modules).Walked c.path := by
        rw [← h.dependence]
        exact hswept
      exact ⟨hloop.closed, hloop⟩
    | depth => exact ⟨hswept, hswept⟩
  | ok f =>
    rw [hrun] at hswept
    obtain ⟨_, _, hforces⟩ := hswept
    rw [h.dependence] at hforces
    have hwalks : ∀ k, (image modules).closed k = true → (image modules).Settled k := by
      intro k hk
      obtain ⟨e, he, rfl⟩ := closed_entry hk
      exact hforces.settled (fun e he => h.rests he) he hk
    have hperm : ((f.unresolved.mergeSort UnresolvedDependent.le).map
        UnresolvedDependent.key).Perm (f.unresolved.map UnresolvedDependent.key) :=
      (List.mergeSort_perm _ _).map _
    refine ⟨⟨fun k => ?_, hperm.nodup_iff.mpr (h.keys.sublist hforces.sublist)⟩, hwalks⟩
    show k ∈ (f.unresolved.mergeSort UnresolvedDependent.le).map UnresolvedDependent.key ↔ _
    rw [hperm.mem_iff, hforces.mem_iff (fun e he => h.rests he) k]
    constructor
    · rintro ⟨e, _, rfl, hclosed, hns⟩
      exact ⟨hclosed, (hwalks _ hclosed).not_sound_iff.mp hns⟩
    · rintro ⟨hclosed, hopen⟩
      obtain ⟨e, he, rfl⟩ := closed_entry hclosed
      exact ⟨e, he, rfl, hclosed, (hwalks _ hclosed).not_sound_iff.mpr hopen⟩

theorem closed_of_none_forced {r : ImageClosure} (h : checkImageClosureRecords modules = .ok r)
    (hnone : r.unresolved = []) {e : String × Obligation} (he : e ∈ imageObligations modules)
    (hclosed : (image modules).closed (entryKey e) = true) {k : String × String}
    (hk : k ∈ targets e.2.assumptions) : (image modules).closed k = true := by
  have hswept := swept_image modules
  unfold checkImageClosureRecords at h
  obtain ⟨f, hrun, hr⟩ := bind_eq_ok.mp h
  rw [hrun] at hswept
  obtain ⟨_, _, hforces⟩ := hswept
  have hfound : f.unresolved = [] := by
    rw [← pure_eq_ok.mp hr] at hnone
    exact List.Perm.nil_eq (hnone ▸ (List.mergeSort_perm f.unresolved UnresolvedDependent.le)) |>.symm
  rw [hfound] at hforces
  exact (hforces.settle he hclosed k hk).2.closed

theorem stops_iff (h : Unique modules) :
    (∃ c, checkImageClosureRecords modules = .error (.cycle c)) ↔ WalkedCycle modules := by
  have hwalks := (reports_and_walks h).2
  constructor
  · rintro ⟨c, hc⟩
    rw [hc] at hwalks
    exact hwalks.cycle
  · rintro ⟨k, hk⟩
    cases hrun : checkImageClosureRecords modules with
    | error halt =>
      cases halt with
      | cycle c => exact ⟨c, rfl⟩
      | depth =>
        rw [hrun] at hwalks
        exact hwalks.elim
    | ok r =>
      rw [hrun] at hwalks
      have hclosed : (image modules).closed k = true := by
        obtain ⟨_, hfirst, _⟩ := TransGen.head'_iff.mp hk
        exact hfirst.1
      exact absurd hk (hwalks k hclosed).not_cycle

/-- The check meets its purpose unless the closed obligations have cycles and each of them
runs behind an edge that fails. -/
theorem closure_exact_iff {modules : List ImageModule} (h : Unique modules) :
    ClosureExact modules ↔ (ClosedCycle modules → WalkedCycle modules) := by
  have hreports := (reports_and_walks h).1
  constructor
  · rintro ⟨_, hstops⟩ hcycle
    exact (stops_iff h).mp (hstops hcycle)
  · intro hwalked
    exact ⟨hreports, fun hcycle => (stops_iff h).mpr (hwalked hcycle)⟩

/-- A precondition of the word `w` of module `M` that rests on those of other words. -/
def callObligation (w : String) (callees : List String) : Obligation where
  id := canonicalId "M" w .contractPre 0
  idHash := idHashOf (canonicalId "M" w .contractPre 0)
  kind := .contractPre
  site := ⟨w, 0, ⟨1, 1⟩⟩
  intent := ⟨"pre", w, true⟩
  formula := .inRange (.var "in.0") 0 10
  assumptions := callees.map fun c => .obligation (canonicalId "M" c .contractPre 0) "M"
  cycles := []
  provenance := .direct

/-- A module of preconditions, those of the words in `proved` discharged. -/
def callModule (obligations : List Obligation) (proved : List String) : ImageModule where
  name := "M"
  set := some {
    schema := OBL_SCHEMA, semantics := SEMANTICS_VERSION, stmt := "", module := "M", target := "",
    platform := "", modelSemantics := MODEL_UNMODELED, concurrency := Manifest.CONCURRENCY_UNMODELED,
    abiContractVersion := 1, facts := ⟨[], [], []⟩, obligations := obligations }
  records := proved.map fun w =>
    let id := canonicalId "M" w .contractPre 0
    { id, idHash := idHashOf id, status := .discharged, trust := .checked
      method := some .descriptor, surface := none, statementHash := none, authored := none
      proof := none, claimed := none, justification := none, witnessReason := none, note := none }

def plainCycle : List ImageModule :=
  [callModule [callObligation "a" ["b"], callObligation "b" ["a"]] ["a", "b"]]

def hiddenCycle : List ImageModule :=
  [callModule [callObligation "a" ["x", "b"], callObligation "b" ["y", "a"],
    callObligation "x" [], callObligation "y" []] ["a", "b"]]

theorem plainCycle_exact : ClosureExact plainCycle := by
  have hclosed : ∀ w ∈ ["a", "b"],
      (image plainCycle).closed ("M", canonicalId "M" w .contractPre 0) = true := by
    decide +kernel
  have hwalked : ∀ v ∈ ["a", "b"], ∀ w ∈ ["a", "b"], v ≠ w → (image plainCycle).Walked
      ("M", canonicalId "M" v .contractPre 0) ("M", canonicalId "M" w .contractPre 0) := by
    intro v hv w hw hne
    refine ⟨hclosed v hv, [], [], ?_, fun _ hu => absurd hu List.not_mem_nil⟩
    revert v w
    decide
  refine (closure_exact_iff ⟨by decide, by decide⟩).mpr fun _ => ?_
  exact ⟨("M", canonicalId "M" "a" .contractPre 0),
    .head (hwalked "a" (by decide) "b" (by decide) (by decide))
      (.single (hwalked "b" (by decide) "a" (by decide) (by decide)))⟩

/-- The cycle of closed obligations behind two failing edges goes unreported. -/
theorem hidden_cycle_passes : ¬ ClosureExact hiddenCycle := by
  rintro ⟨_, hstops⟩
  have hedge : ∀ v ∈ ["a", "b"], ∀ w ∈ ["a", "b"], v ≠ w → (image hiddenCycle).ClosedEdge
      ("M", canonicalId "M" v .contractPre 0) ("M", canonicalId "M" w .contractPre 0) := by
    unfold Dependence.ClosedEdge Dependence.Edge
    decide +kernel
  obtain ⟨c, hc⟩ := hstops ⟨("M", canonicalId "M" "a" .contractPre 0),
    .head (hedge "a" (by decide) "b" (by decide) (by decide))
      (.single (hedge "b" (by decide) "a" (by decide) (by decide)))⟩
  have hpasses : (checkImageClosureRecords hiddenCycle).isOk = true := by decide +kernel
  rw [hc] at hpasses
  exact absurd hpasses Bool.false_ne_true

end Closure

end Tyu

import Tyu.Build.Graph
import Tyu.Lib.Checked

/-!
# When the build order is right

The modules of a program are the files that imports lead to from the file of the root module.
-/

namespace Tyu.Graph

open Lib Lib.Wire Relation

/-- The files of a program, the file of its root module, and where imports are searched. -/
structure Tree where
  disk : Disk
  main : Path
  search : List Path

namespace Tree

variable (t : Tree)

/-- The file found for an import of `a`. -/
def found (a : Path) (name : Bytes) : Option Path :=
  resolveModuleFile t.disk name (dirOf a) t.search

def Imports (a b : Path) : Prop :=
  ∃ ast, t.disk.read a = some (.module ast) ∧ ∃ name ∈ ast.imports, t.found a name = some b

def Reachable (p : Path) : Prop := ReflTransGen t.Imports t.main p

def Declares (p : Path) (name : Bytes) : Prop :=
  ∃ ast, t.disk.read p = some (.module ast) ∧ ast.name = name

def Cyclic : Prop := ∃ p, t.Reachable p ∧ TransGen t.Imports p p

/-- Names and files agree: the file found for an import declares the imported name, and the
file that declares an imported name is the one found. -/
structure Named : Prop where
  found : ∀ a ast name b declared, t.Reachable a → t.disk.read a = some (.module ast) →
    name ∈ ast.imports → t.found a name = some b → t.Declares b declared → declared = name
  declared : ∀ a ast name b, t.Reachable a → t.disk.read a = some (.module ast) →
    name ∈ ast.imports → t.Reachable b → t.Declares b name → t.found a name = some b

/-- Every file can be read, and every import that is not a platform module is found. -/
def Complete : Prop :=
  ∀ p, t.Reachable p → ∃ ast, t.disk.read p = some (.module ast) ∧
    ∀ name ∈ ast.imports, (t.found p name).isSome ∨ platformPrefix.isPrefixOf name

/-- The list has every file once, each behind the files it imports, and the root last. -/
structure BuildOrder (order : List ModuleNode) : Prop where
  once : (order.map (·.path)).Nodup
  reached : ∀ p, p ∈ order.map (·.path) ↔ t.Reachable p
  after : ∀ before a rest, order.map (·.path) = before ++ a :: rest →
    ∀ b, t.Imports a b → b ∈ before
  last : (order.map (·.path)).getLast? = some t.main

def Answers (r : Except GraphError (List ModuleNode)) : Prop :=
  (∀ order, r = .ok order → t.BuildOrder order) ∧ (r = .error .circular ↔ t.Cyclic)

end Tree

/-- No two files declare one name: one of them is not the root, so it was found for an import
of that name, and so the other is found for it too. -/
theorem Tree.Named.distinct {t : Tree} (h : t.Named) {a b : Path} {name : Bytes}
    (ha : t.Reachable a) (hb : t.Reachable b) (hda : t.Declares a name)
    (hdb : t.Declares b name) : a = b := by
  have hunique : ∀ p q, t.Reachable p → t.Reachable q → t.Declares p name → t.Declares q name →
      q ≠ t.main → p = q := by
    intro p q hp hq hdp hdq hne
    rcases ReflTransGen.cases_tail hq with heq | ⟨c, hc, ast, hread, i, hi, hfound⟩
    · exact absurd heq hne
    · have hname : name = i := h.found c ast i q name hc hread hi hfound hdq
      have hother := h.declared c ast i p hc hread hi hp (hname ▸ hdp)
      exact Option.some.inj (hother.symm.trans hfound)
  by_cases hmain : b = t.main
  · by_cases ha' : a = t.main
    · exact ha'.trans hmain.symm
    · exact (hunique b a hb ha hdb hda ha').symm
  · exact hunique a b ha hb hda hdb hmain

theorem parent_candidate (dir : Path) (name : Bytes) {ext : Bytes} (hext : 2 ≤ ext.length)
    (c : Path) : (Path.parent (candidate dir name ext)).getD c = dirOf (candidate dir name ext) := by
  have hsome : (Path.parent (candidate dir name ext)).isSome := by
    have hne : candidate dir name ext ≠ [] := by simp [candidate]
    have hroot : candidate dir name ext ≠ [rootDir] := by
      intro h
      have hlast := congrArg List.getLast? h
      simp only [candidate, List.getLast?_append, List.getLast?_singleton, Option.some_or,
        Option.some.injEq] at hlast
      have hlen := congrArg List.length hlast
      rw [List.length_append] at hlen
      simp only [rootDir, List.length_singleton] at hlen
      omega
    rw [Path.parent, if_neg (not_or.mpr ⟨hne, hroot⟩)]
    rfl
  obtain ⟨q, hq⟩ := Option.isSome_iff_exists.mp hsome
  rw [dirOf, hq]
  rfl

variable {p q : Path} {ast : ModuleAst} {n m : Bytes}

theorem findIn_eq_some {disk : Disk} {name : Bytes} {dir : Path} (h : findIn disk name dir = some p)
    :
    p = candidate dir name modExt ∨ p = candidate dir name defExt := by
  unfold findIn at h
  split at h
  · exact .inl (Option.some.inj h).symm
  · split at h
    · exact .inr (Option.some.inj h).symm
    · exact nomatch h

theorem parent_resolve {disk : Disk} {name : Bytes} {c : Path} {search : List Path}
    (h : resolveModuleFile disk name c search = some p) (c' : Path) :
    (Path.parent p).getD c' = dirOf p := by
  obtain ⟨dir, -, hdir⟩ := List.exists_of_findSome?_eq_some h
  rcases findIn_eq_some hdir with rfl | rfl
  · exact parent_candidate dir name (by decide) c'
  · exact parent_candidate dir name (by decide) c'

/-! ## One file -/

section Follow

variable (disk : Disk) (search : List Path) (c : Path) (modName : Bytes)

def enqueued (d : Discovery) (name : Bytes) : Option (Path × Path) :=
  if d.knows name then none
  else (resolveModuleFile disk name c search).map fun p => (p, (Path.parent p).getD c)

def Misses (d : Discovery) (name : Bytes) : Prop :=
  d.knows name = false ∧ resolveModuleFile disk name c search = none ∧
    platformPrefix.isPrefixOf name = false

def Discovery.follow (d : Discovery) (names : List Bytes) : Discovery :=
  { d with
    deps := d.deps.map fun e => if e.1 = modName then (e.1, e.2 ++ names) else e
    pending := d.pending ++ names.filterMap (enqueued disk search c d) }

theorem followImport_cases (d : Discovery) (name : Bytes) :
    Misses disk search c d name ∧
        followImport disk search c modName d name = .error (.notFound name modName) ∨
      ¬ Misses disk search c d name ∧
        followImport disk search c modName d name =
          .ok (d.follow disk search c modName [name]) := by
  have hknows : (d.addEdge modName name).knows name = d.knows name := rfl
  unfold followImport Misses Discovery.follow
  simp only [hknows, List.filterMap_cons, List.filterMap_nil, enqueued]
  cases hk : d.knows name with
  | true => simp [Discovery.addEdge]
  | false =>
    cases hres : resolveModuleFile disk name c search with
    | some p => simp [Discovery.addEdge]
    | none =>
      cases hplat : platformPrefix.isPrefixOf name with
      | true => simp [Discovery.addEdge]
      | false => simp

theorem follow_follow (d : Discovery) (name : Bytes) (names : List Bytes) :
    (d.follow disk search c modName [name]).follow disk search c modName names =
      d.follow disk search c modName (name :: names) := by
  have henq : enqueued disk search c (d.follow disk search c modName [name]) =
      enqueued disk search c d := rfl
  unfold Discovery.follow at henq ⊢
  simp only [henq, List.map_map, List.append_assoc]
  congr 1
  · refine List.map_congr_left fun e _ => ?_
    by_cases he : e.1 = modName
    · simp [he]
    · simp [he]
  · rw [← List.filterMap_append]
    rfl

theorem foldlM_followImport (d : Discovery) (names : List Bytes) :
    (∃ name ∈ names, Misses disk search c d name ∧
        names.foldlM (followImport disk search c modName) d = .error (.notFound name modName)) ∨
      (∀ name ∈ names, ¬ Misses disk search c d name) ∧
        names.foldlM (followImport disk search c modName) d =
          .ok (d.follow disk search c modName names) := by
  induction names generalizing d with
  | nil =>
    refine .inr ⟨nofun, ?_⟩
    simp [Discovery.follow, pure, Except.pure]
  | cons name names ih =>
    rcases followImport_cases disk search c modName d name with ⟨hmiss, herr⟩ | ⟨hno, hok⟩
    · refine .inl ⟨name, List.mem_cons_self, hmiss, ?_⟩
      rw [List.foldlM_cons, herr]
      rfl
    · have hcons : (name :: names).foldlM (followImport disk search c modName) d =
          names.foldlM (followImport disk search c modName)
            (d.follow disk search c modName [name]) := by
        rw [List.foldlM_cons, hok]
        rfl
      rw [hcons, ← follow_follow disk search c modName d name names]
      rcases ih (d.follow disk search c modName [name]) with ⟨n, hn, hmiss, herr⟩ | ⟨hall, hrest⟩
      · exact .inl ⟨n, List.mem_cons_of_mem _ hn, hmiss, herr⟩
      · refine .inr ⟨fun n hn => ?_, hrest⟩
        rcases List.mem_cons.mp hn with rfl | hn
        · exact hno
        · exact hall n hn

end Follow

theorem visit_cases (disk : Disk) (search : List Path) (d : Discovery) (p c : Path) :
    (∃ ast, disk.read p = some (.module ast) ∧ ast.name ∈ d.deps.map (·.1) ∧
        visit disk search d p c = .ok d) ∨
      (∃ ast, disk.read p = some (.module ast) ∧ ast.name ∉ d.deps.map (·.1) ∧
        (∀ name ∈ ast.imports, ¬ Misses disk search c (d.addModule ast.name p) name) ∧
        visit disk search d p c =
          .ok ((d.addModule ast.name p).follow disk search c ast.name ast.imports)) ∨
      ∃ e, visit disk search d p c = .error e ∧ e ≠ .circular ∧
        ∀ ast, disk.read p = some (.module ast) → ∃ name ∈ ast.imports,
          Misses disk search c (d.addModule ast.name p) name := by
  unfold visit
  cases hread : disk.read p with
  | none => exact .inr (.inr ⟨_, rfl, nofun, nofun⟩)
  | some source =>
    cases source with
    | unreadable => exact .inr (.inr ⟨_, rfl, nofun, nofun⟩)
    | malformed code => exact .inr (.inr ⟨_, rfl, nofun, nofun⟩)
    | module ast =>
      have hknown : d.deps.any (·.1 = ast.name) = true ↔ ast.name ∈ d.deps.map (·.1) := by
        simp
      by_cases hmem : ast.name ∈ d.deps.map (·.1)
      · exact .inl ⟨ast, rfl, hmem, if_pos (hknown.mpr hmem)⟩
      · simp only [if_neg (mt hknown.mp hmem)]
        rcases foldlM_followImport disk search c ast.name (d.addModule ast.name p) ast.imports with
          ⟨name, hname, hmiss, herr⟩ | ⟨hall, hok⟩
        · refine .inr (.inr ⟨_, herr, nofun, ?_⟩)
          intro ast' heq
          cases heq
          exact ⟨name, hname, hmiss⟩
        · exact .inr (.inl ⟨ast, rfl, hmem, hall, hok⟩)

/-! ## The files met so far -/

/-- What holds while the imports are followed.  A file that an import leads to has been looked
at or is still to be. -/
structure Tree.Met (t : Tree) (d : Discovery) : Prop where
  keys : d.modPaths.map (·.1) = d.deps.map (·.1)
  nodup : (d.deps.map (·.1)).Nodup
  entry : ∀ n p, (n, p) ∈ d.modPaths → t.Reachable p ∧
    ∃ ast, t.disk.read p = some (.module ast) ∧ ast.name = n ∧ (n, ast.imports) ∈ d.deps
  pending : ∀ p c, (p, c) ∈ d.pending → t.Reachable p ∧ c = dirOf p
  root : t.main ∈ d.pending.map (·.1) ∨ t.main ∈ d.modPaths.map (·.2)
  followed : ∀ p, p ∈ d.modPaths.map (·.2) → ∀ q, t.Imports p q →
    q ∈ d.pending.map (·.1) ∨ q ∈ d.modPaths.map (·.2)
  complete : ∀ p, p ∈ d.modPaths.map (·.2) → ∀ ast, t.disk.read p = some (.module ast) →
    ∀ name ∈ ast.imports, (t.found p name).isSome ∨ platformPrefix.isPrefixOf name

variable {t : Tree} {d : Discovery}

theorem Tree.Met.knows_iff (h : t.Met d) (name : Bytes) :
    d.knows name = true ↔ name ∈ d.deps.map (·.1) := by
  rw [← h.keys]
  simp [Discovery.knows]

theorem knows_addModule (d : Discovery) (n : Bytes) (p : Path) (name : Bytes) :
    (d.addModule n p).knows name = true ↔ d.knows name = true ∨ name = n := by
  unfold Discovery.addModule Discovery.knows
  by_cases hn : d.modPaths.any (·.1 = n) = true
  · simp only [hn, if_true]
    constructor
    · exact .inl
    · rintro (hname | rfl)
      · exact hname
      · exact hn
  · simp only [hn, Bool.false_eq_true, if_false, List.any_append, Bool.or_eq_true, List.any_cons, List.any_nil,
      Bool.or_false, decide_eq_true_eq]
    rw [@eq_comm _ name n]

theorem follow_addModule (h : t.Met d) (p c : Path) (rest : List (Path × Path))
    (hnew : ast.name ∉ d.deps.map (·.1)) :
    ((({ d with pending := rest } : Discovery).addModule ast.name p).follow t.disk t.search c
        ast.name ast.imports) =
      ⟨d.deps ++ [(ast.name, ast.imports)], d.modPaths ++ [(ast.name, p)],
        rest ++ ast.imports.filterMap (enqueued t.disk t.search c
          (({ d with pending := rest } : Discovery).addModule ast.name p))⟩ := by
  have hknows : ({ d with pending := rest } : Discovery).knows ast.name = false := by
    rw [← Bool.not_eq_true]
    exact mt (h.knows_iff ast.name).mp hnew
  have hdeps : (d.deps ++ [(ast.name, [])]).map
      (fun e : Bytes × List Bytes => if e.1 = ast.name then (e.1, e.2 ++ ast.imports) else e) =
        d.deps ++ [(ast.name, ast.imports)] := by
    have hkeep : d.deps.map
        (fun e : Bytes × List Bytes => if e.1 = ast.name then (e.1, e.2 ++ ast.imports) else e) =
          d.deps := by
      refine (List.map_congr_left fun e he => ?_).trans (List.map_id d.deps)
      exact if_neg fun heq => hnew (List.mem_map.mpr ⟨e, he, heq⟩)
    rw [List.map_append, hkeep]
    simp
  unfold Discovery.follow
  simp only [Discovery.addModule, hknows, Bool.false_eq_true, if_false]
  rw [hdeps]

theorem Tree.Met.mem_of_known (hnamed : t.Named) (h : t.Met d) (hp : t.Reachable p)
    (hread : t.disk.read p = some (.module ast)) (hknown : ast.name ∈ d.deps.map (·.1)) :
    p ∈ d.modPaths.map (·.2) := by
  rw [← h.keys] at hknown
  obtain ⟨⟨n, q⟩, hq, hn⟩ := List.mem_map.mp hknown
  obtain ⟨hreach, ast', hread', hname, -⟩ := h.entry n q hq
  have heq : q = p := hnamed.distinct hreach hp ⟨ast', hread', hname⟩ ⟨ast, hread, hn.symm⟩
  exact heq ▸ List.mem_map_of_mem hq

theorem Tree.Met.found_of_known (hnamed : t.Named) (h : t.Met d) (hp : t.Reachable p)
    (hread : t.disk.read p = some (.module ast)) {name : Bytes} (hname : name ∈ ast.imports)
    (hknown : name ∈ d.deps.map (·.1) ∨ name = ast.name) :
    ∃ q, t.found p name = some q ∧ (q ∈ d.modPaths.map (·.2) ∨ q = p) := by
  rcases hknown with hknown | rfl
  · rw [← h.keys] at hknown
    obtain ⟨⟨n, q⟩, hq, rfl⟩ := List.mem_map.mp hknown
    obtain ⟨hreach, ast', hread', hdecl, -⟩ := h.entry n q hq
    exact ⟨q, hnamed.declared p ast n q hp hread hname hreach ⟨ast', hread', hdecl⟩,
      .inl (List.mem_map.mpr ⟨(n, q), hq, rfl⟩)⟩
  · exact ⟨p, hnamed.declared p ast ast.name p hp hread hname hp ⟨ast, hread, rfl⟩, .inr rfl⟩

theorem Tree.Met.found_of_not_misses (hnamed : t.Named) (h : t.Met d) (hp : t.Reachable p)
    (hread : t.disk.read p = some (.module ast)) {name : Bytes} (hname : name ∈ ast.imports)
    (hmiss : ¬ Misses t.disk t.search (dirOf p) (d.addModule ast.name p) name) :
    (t.found p name).isSome ∨ platformPrefix.isPrefixOf name := by
  cases hfound : t.found p name with
  | some f => exact .inl rfl
  | none =>
    refine .inr ?_
    by_contra hplat
    refine hmiss ⟨?_, hfound, Bool.not_eq_true _ ▸ hplat⟩
    rw [← Bool.not_eq_true, knows_addModule, h.knows_iff]
    intro hknown
    obtain ⟨f, hf, -⟩ := h.found_of_known hnamed hp hread hname hknown
    rw [hfound] at hf
    cases hf

theorem Tree.Met.rest (hnamed : t.Named) (h : t.Met d) {c : Path} {rest : List (Path × Path)}
    (hpending : d.pending = (p, c) :: rest) (hread : t.disk.read p = some (.module ast))
    (hknown : ast.name ∈ d.deps.map (·.1)) : t.Met { d with pending := rest } := by
  have hp : t.Reachable p := (h.pending p c (hpending ▸ List.mem_cons_self)).1
  have hmet : p ∈ d.modPaths.map (·.2) := h.mem_of_known hnamed hp hread hknown
  have hdrop : ∀ q, q ∈ d.pending.map (·.1) →
      q ∈ rest.map (·.1) ∨ q ∈ d.modPaths.map (·.2) := by
    intro q hq
    rw [hpending, List.map_cons] at hq
    rcases List.mem_cons.mp hq with rfl | hq
    · exact .inr hmet
    · exact .inl hq
  refine ⟨h.keys, h.nodup, h.entry, ?_, ?_, ?_, h.complete⟩
  · intro q c' hq
    exact h.pending q c' (hpending ▸ List.mem_cons_of_mem _ hq)
  · exact h.root.elim (hdrop t.main) .inr
  · intro q hq r himp
    exact (h.followed q hq r himp).elim (hdrop r) .inr

theorem Tree.Met.visited (hnamed : t.Named) (h : t.Met d) {c : Path} {rest : List (Path × Path)}
    (hpending : d.pending = (p, c) :: rest) (hread : t.disk.read p = some (.module ast))
    (hnew : ast.name ∉ d.deps.map (·.1)) (hall : ∀ name ∈ ast.imports, ¬ Misses t.disk t.search c
      (({ d with pending := rest } : Discovery).addModule ast.name p) name) :
    t.Met ((({ d with pending := rest } : Discovery).addModule ast.name p).follow t.disk t.search
      c ast.name ast.imports) := by
  obtain ⟨hp, rfl⟩ := h.pending p c (hpending ▸ List.mem_cons_self)
  rw [follow_addModule h p _ rest hnew]
  have hpaths : ∀ q, q ∈ (d.modPaths ++ [(ast.name, p)]).map (·.2) ↔
      q ∈ d.modPaths.map (·.2) ∨ q = p := by
    intro q
    simp
  have hdrop : ∀ q, q ∈ d.pending.map (·.1) → q ∈ rest.map (·.1) ∨ q = p := by
    intro q hq
    rw [hpending, List.map_cons] at hq
    exact (List.mem_cons.mp hq).symm
  -- an import of the new module is queued, or its name is known and so is its file
  have himport : ∀ q, t.Imports p q → q ∈ (ast.imports.filterMap (enqueued t.disk t.search
      (dirOf p) (({ d with pending := rest } : Discovery).addModule ast.name p))).map (·.1) ∨
        q ∈ (d.modPaths ++ [(ast.name, p)]).map (·.2) := by
    rintro q ⟨ast', hread', name, hname, hfound⟩
    cases hread.symm.trans hread'
    by_cases hknows :
        (({ d with pending := rest } : Discovery).addModule ast.name p).knows name = true
    · rw [knows_addModule] at hknows
      have hknown : name ∈ d.deps.map (·.1) ∨ name = ast.name :=
        hknows.imp_left (h.knows_iff name).mp
      obtain ⟨f, hf, hmem⟩ := h.found_of_known hnamed hp hread hname hknown
      cases hfound.symm.trans hf
      exact .inr ((hpaths q).mpr hmem)
    · refine .inl (List.mem_map.mpr ⟨(q, dirOf q), ?_, rfl⟩)
      refine List.mem_filterMap.mpr ⟨name, hname, ?_⟩
      unfold Tree.found at hfound
      rw [enqueued, if_neg hknows, hfound, Option.map_some, parent_resolve hfound]
  refine ⟨?_, ?_, ?_, ?_, ?_, ?_, ?_⟩
  · simp [h.keys]
  · rw [List.map_append]
    exact h.nodup.append (List.nodup_singleton _) (by simpa using hnew)
  · intro n q hq
    rcases List.mem_append.mp hq with hq | hq
    · obtain ⟨hreach, ast', hread', hdecl, hdeps⟩ := h.entry n q hq
      exact ⟨hreach, ast', hread', hdecl, List.mem_append_left _ hdeps⟩
    · obtain ⟨rfl, rfl⟩ := Prod.mk.inj (List.mem_singleton.mp hq)
      exact ⟨hp, ast, hread, rfl, List.mem_append_right _ (List.mem_singleton.mpr rfl)⟩
  · intro q c' hq
    rcases List.mem_append.mp hq with hq | hq
    · exact h.pending q c' (hpending ▸ List.mem_cons_of_mem _ hq)
    · obtain ⟨name, hname, henq⟩ := List.mem_filterMap.mp hq
      unfold enqueued at henq
      split at henq
      · exact nomatch henq
      · obtain ⟨f, hf, heq⟩ := Option.map_eq_some_iff.mp henq
        obtain ⟨rfl, rfl⟩ := Prod.mk.inj heq
        exact ⟨hp.tail ⟨ast, hread, name, hname, hf⟩, parent_resolve hf _⟩
  · rw [List.map_append, List.mem_append, hpaths]
    rcases h.root with hroot | hroot
    · exact (hdrop t.main hroot).imp .inl .inr
    · exact .inr (.inl hroot)
  · intro q hq r himp
    rw [List.map_append, List.mem_append]
    rcases (hpaths q).mp hq with hq | rfl
    · rcases h.followed q hq r himp with hr | hr
      · exact (hdrop r hr).imp .inl fun heq => (hpaths r).mpr (.inr heq)
      · exact .inr ((hpaths r).mpr (.inl hr))
    · exact (himport r himp).imp .inr id
  · intro q hq ast' hread' name hname
    rcases (hpaths q).mp hq with hq | rfl
    · exact h.complete q hq ast' hread' name hname
    · cases hread.symm.trans hread'
      exact h.found_of_not_misses hnamed hp hread hname (hall name hname)

def Discovery.unseen (disk : Disk) (d : Discovery) : Nat :=
  (disk.files.map fun f =>
    match f.2 with
    | .module ast => if ast.name ∈ d.deps.map (·.1) then 0 else ast.imports.length
    | _ => 0).sum

theorem sum_map_le_of_mem {α : Type} {f g : α → Nat} {k : Nat} {l : List α} {a : α}
    (ha : a ∈ l) (hle : ∀ b, f b ≤ g b) (hstep : f a + k ≤ g a) :
    (l.map f).sum + k ≤ (l.map g).sum := by
  induction l with
  | nil => exact absurd ha List.not_mem_nil
  | cons b l ih =>
    rw [List.map_cons, List.sum_cons, List.map_cons, List.sum_cons]
    have hb := hle b
    rcases List.mem_cons.mp ha with rfl | ha
    · have hrest : (l.map f).sum ≤ (l.map g).sum := List.sum_le_sum fun c _ => hle c
      omega
    · have hrest := ih ha
      omega

theorem unseen_new {disk : Disk} {d' : Discovery} (hread : disk.read p = some (.module ast))
    (hnew : ast.name ∉ d.deps.map (·.1)) (hdeps : d'.deps = d.deps ++ [(ast.name, ast.imports)]) :
    d'.unseen disk + ast.imports.length ≤ d.unseen disk := by
  obtain ⟨⟨q, source⟩, hfile, rfl⟩ := Option.map_eq_some_iff.mp hread
  refine sum_map_le_of_mem (List.mem_of_find?_eq_some hfile) ?_ ?_
  · rintro ⟨q', source'⟩
    cases source' with
    | unreadable => exact Nat.le_refl _
    | malformed code => exact Nat.le_refl _
    | module other =>
      simp only [hdeps, List.map_append, List.mem_append]
      by_cases hother : other.name ∈ d.deps.map (·.1)
      · simp [hother]
      · rw [if_neg hother]
        split
        · exact Nat.zero_le _
        · exact Nat.le_refl _
  · simp [hdeps, hnew]

theorem discover_run (hnamed : t.Named) {fuel : Nat} (h : t.Met d)
    (hfuel : d.pending.length + d.unseen t.disk < fuel) :
    (∃ d', discover t.disk t.search fuel d = some (.ok d') ∧ t.Met d' ∧ d'.pending = []) ∨
      ∃ e, discover t.disk t.search fuel d = some (.error e) ∧ e ≠ .circular ∧ ¬ t.Complete := by
  induction fuel generalizing d with
  | zero => omega
  | succ fuel ih =>
    unfold discover
    rcases hpending : d.pending with - | ⟨⟨p, c⟩, rest⟩
    · exact .inl ⟨d, rfl, h, hpending⟩
    · obtain ⟨hp, hc⟩ := h.pending p c (hpending ▸ List.mem_cons_self)
      have hlen : d.pending.length = rest.length + 1 := by rw [hpending]; rfl
      rcases visit_cases t.disk t.search { d with pending := rest } p c with
        ⟨ast, hread, hknown, hvisit⟩ | ⟨ast, hread, hnew, hall, hvisit⟩ |
        ⟨e, hvisit, hne, hmiss⟩
      · simp only [hvisit]
        refine ih (h.rest hnamed hpending hread hknown) ?_
        show rest.length + d.unseen t.disk < fuel
        omega
      · simp only [hvisit]
        refine ih (h.visited hnamed hpending hread hnew hall) ?_
        have hfollow := follow_addModule h p c rest hnew
        have hless := unseen_new hread hnew (congrArg Discovery.deps hfollow)
        have hmore := List.length_filterMap_le (enqueued t.disk t.search c
          (({ d with pending := rest } : Discovery).addModule ast.name p)) ast.imports
        have hqueued := congrArg (fun d => d.pending.length) hfollow
        have hsame : ({ d with pending := rest } : Discovery).unseen t.disk =
            d.unseen t.disk := rfl
        simp only [List.length_append] at hqueued
        omega
      · simp only [hvisit]
        refine .inr ⟨e, rfl, hne, fun hcomplete => ?_⟩
        obtain ⟨ast, hread, hall⟩ := hcomplete p hp
        obtain ⟨name, hname, hknows, hnone, hplat⟩ := hmiss ast hread
        rw [hc] at hnone
        rcases hall name hname with hsome | hplatform
        · rw [Tree.found, hnone] at hsome
          exact nomatch hsome
        · rw [hplat] at hplatform
          exact nomatch hplatform

/-! ## The graph of names -/

theorem lookup_iff {β : Type} {l : List (Bytes × β)} (hnodup : (l.map (·.1)).Nodup) {v : β} :
    (l.find? (·.1 = n)).map (·.2) = some v ↔ (n, v) ∈ l := by
  induction l with
  | nil => simp
  | cons e l ih =>
    obtain ⟨m, w⟩ := e
    rw [List.map_cons, List.nodup_cons] at hnodup
    rw [List.find?_cons, List.mem_cons]
    by_cases hm : m = n
    · have hout : (n, v) ∉ l := fun hin =>
        hnodup.1 (hm ▸ List.mem_map.mpr ⟨(n, v), hin, rfl⟩)
      simp [hm, hout, eq_comm]
    · have hne : (n, v) ≠ (m, w) := fun heq => hm (Prod.mk.inj heq).1.symm
      simp only [hm, decide_false, hne, false_or]
      exact ih hnodup.2

theorem Tree.Met.path_eq_some (h : t.Met d) : d.path n = some p ↔ (n, p) ∈ d.modPaths :=
  lookup_iff (h.keys ▸ h.nodup)

theorem Tree.Met.module (h : t.Met d) (hp : (n, p) ∈ d.modPaths) :
    ∃ ast, t.disk.read p = some (.module ast) ∧ ast.name = n ∧ d.imports n = ast.imports := by
  obtain ⟨-, ast, hread, hname, hdeps⟩ := h.entry n p hp
  refine ⟨ast, hread, hname, ?_⟩
  rw [Discovery.imports, (lookup_iff h.nodup).mpr hdeps]
  rfl

theorem Tree.Met.mem_nodes (h : t.Met d) : n ∈ d.graph.nodes ↔ ∃ p, (n, p) ∈ d.modPaths := by
  show n ∈ d.deps.map (·.1) ↔ _
  rw [← h.keys, List.mem_map]
  constructor
  · rintro ⟨⟨m, p⟩, hp, rfl⟩
    exact ⟨p, hp⟩
  · rintro ⟨p, hp⟩
    exact ⟨(n, p), hp, rfl⟩

theorem Tree.Met.name_unique (h : t.Met d) (hn : (n, p) ∈ d.modPaths) (hm : (m, p) ∈ d.modPaths) :
    n = m := by
  obtain ⟨ast, hread, hname, -⟩ := h.module hn
  obtain ⟨ast', hread', hname', -⟩ := h.module hm
  cases hread.symm.trans hread'
  exact hname.symm.trans hname'

theorem Tree.Met.mem_iff (h : t.Met d) (hdone : d.pending = []) (p : Path) :
    t.Reachable p ↔ ∃ n, (n, p) ∈ d.modPaths := by
  have hleft : ∀ q, q ∈ d.pending.map (·.1) ∨ q ∈ d.modPaths.map (·.2) →
      q ∈ d.modPaths.map (·.2) := by
    rw [hdone]
    exact fun q hq => hq.resolve_left List.not_mem_nil
  constructor
  · intro hp
    have hmem : p ∈ d.modPaths.map (·.2) := by
      induction hp with
      | refl => exact hleft _ h.root
      | tail _ himp ih => exact hleft _ (h.followed _ ih _ himp)
    obtain ⟨⟨n, q⟩, hq, rfl⟩ := List.mem_map.mp hmem
    exact ⟨n, hq⟩
  · rintro ⟨n, hp⟩
    exact (h.entry n p hp).1

theorem Tree.Met.edge_iff (hnamed : t.Named) (h : t.Met d) (hp : (n, p) ∈ d.modPaths)
    (hq : (m, q) ∈ d.modPaths) : d.graph.Edge n m ↔ t.Imports p q := by
  obtain ⟨ast, hread, hname, himports⟩ := h.module hp
  obtain ⟨ast', hread', hname', -⟩ := h.module hq
  have hreach := (h.entry n p hp).1
  constructor
  · rintro ⟨-, -, hedge⟩
    have hin : m ∈ ast.imports := himports ▸ hedge
    exact ⟨ast, hread, m, hin,
      hnamed.declared p ast m q hreach hread hin (h.entry m q hq).1 ⟨ast', hread', hname'⟩⟩
  · rintro ⟨ast₂, hread₂, i, hi, hfound⟩
    cases hread.symm.trans hread₂
    have hm := hnamed.found p ast i q m hreach hread hi hfound ⟨ast', hread', hname'⟩
    refine ⟨h.mem_nodes.mpr ⟨p, hp⟩, h.mem_nodes.mpr ⟨q, hq⟩, ?_⟩
    show m ∈ d.imports n
    rw [himports, hm]
    exact hi

theorem Tree.Met.edge_of_path (hnamed : t.Named) (h : t.Met d) (hdone : d.pending = [])
    (hpath : TransGen t.Imports p q) (hp : (n, p) ∈ d.modPaths) (hq : (m, q) ∈ d.modPaths) :
    TransGen d.graph.Edge n m := by
  induction hpath generalizing m with
  | single himp => exact .single ((h.edge_iff hnamed hp hq).mpr himp)
  | @tail r q hpr himp ih =>
    have hr : t.Reachable r := (h.entry n p hp).1.trans hpr.to_reflTransGen
    obtain ⟨k, hk⟩ := (h.mem_iff hdone r).mp hr
    exact (ih hk).tail ((h.edge_iff hnamed hk hq).mpr himp)

theorem Tree.Met.path_of_edge (hnamed : t.Named) (h : t.Met d) (hpath : TransGen d.graph.Edge n m)
    (hp : (n, p) ∈ d.modPaths) (hq : (m, q) ∈ d.modPaths) : TransGen t.Imports p q := by
  induction hpath generalizing q with
  | single hedge => exact .single ((h.edge_iff hnamed hp hq).mp hedge)
  | tail _ hedge ih =>
    obtain ⟨r, hr⟩ := h.mem_nodes.mp hedge.1
    exact (ih hr).tail ((h.edge_iff hnamed hr hq).mp hedge)

theorem Tree.Met.acyclic_iff (hnamed : t.Named) (h : t.Met d) (hdone : d.pending = []) :
    (∀ n, ¬ TransGen d.graph.Edge n n) ↔ ¬ t.Cyclic := by
  constructor
  · rintro hnames ⟨p, hp, hcycle⟩
    obtain ⟨n, hn⟩ := (h.mem_iff hdone p).mp hp
    exact hnames n (h.edge_of_path hnamed hdone hcycle hn hn)
  · intro hfiles n hcycle
    have hn : n ∈ d.graph.nodes := by
      cases hcycle with
      | single hedge => exact hedge.1
      | tail _ hedge => exact hedge.2.1
    obtain ⟨p, hp⟩ := h.mem_nodes.mp hn
    exact hfiles ⟨p, (h.entry n p hp).1, h.path_of_edge hnamed hcycle hp hp⟩

/-! ## The order -/

def Discovery.file (d : Discovery) (n : Bytes) : Path := (d.path n).getD []

theorem Tree.Met.file (h : t.Met d) (hn : n ∈ d.graph.nodes) : (n, d.file n) ∈ d.modPaths := by
  obtain ⟨p, hp⟩ := h.mem_nodes.mp hn
  rw [Discovery.file, h.path_eq_some.mpr hp]
  exact hp

theorem Tree.Met.paths (h : t.Met d) {l : List Bytes} (hl : ∀ n ∈ l, n ∈ d.graph.nodes) :
    (l.filterMap (d.node t.main)).map (·.path) = l.map d.file := by
  induction l with
  | nil => rfl
  | cons n l ih =>
    have hpath : d.path n = some (d.file n) :=
      h.path_eq_some.mpr (h.file (hl n List.mem_cons_self))
    have hnode : d.node t.main n = some ⟨n, d.file n, d.file n ≠ t.main,
        (d.imports n).filterMap d.path⟩ := by
      rw [Discovery.node, hpath]
      rfl
    rw [List.filterMap_cons, hnode, List.map_cons, List.map_cons,
      ih fun m hm => hl m (List.mem_cons_of_mem _ hm)]

theorem Tree.Met.buildOrder (hnamed : t.Named) (h : t.Met d) (hdone : d.pending = [])
    {l : List Bytes} (hsorts : d.graph.Sorts l) (hall : ∀ n ∈ d.graph.nodes, n ∈ l) :
    t.BuildOrder (l.filterMap (d.node t.main)) := by
  have hfile : ∀ n ∈ l, (n, d.file n) ∈ d.modPaths := fun n hn => h.file (hsorts.subset n hn)
  have hlisted : ∀ n p, (n, p) ∈ d.modPaths → n ∈ l ∧ d.file n = p := by
    intro n p hp
    refine ⟨hall n (h.mem_nodes.mpr ⟨p, hp⟩), ?_⟩
    rw [Discovery.file, h.path_eq_some.mpr hp]
    rfl
  constructor
  · rw [h.paths hsorts.subset]
    refine (List.nodup_map_iff_inj_on hsorts.nodup).mpr fun n hn m hm heq => ?_
    exact h.name_unique (hfile n hn) (heq ▸ hfile m hm)
  · intro p
    rw [h.paths hsorts.subset, h.mem_iff hdone, List.mem_map]
    constructor
    · rintro ⟨n, hn, rfl⟩
      exact ⟨n, hfile n hn⟩
    · rintro ⟨n, hp⟩
      obtain ⟨hn, heq⟩ := hlisted n p hp
      exact ⟨n, hn, heq⟩
  · intro before a rest heq b himp
    rw [h.paths hsorts.subset] at heq
    obtain ⟨names, others, hl, rfl, hothers⟩ := List.map_eq_append_iff.mp heq
    obtain ⟨n, names', rfl, rfl, -⟩ := List.map_eq_cons_iff.mp hothers
    have hn : n ∈ l := hl ▸ List.mem_append_right _ List.mem_cons_self
    have hb : t.Reachable b := (h.entry n _ (hfile n hn)).1.tail himp
    obtain ⟨m, hm⟩ := (h.mem_iff hdone b).mp hb
    obtain ⟨-, rfl⟩ := hlisted m b hm
    have hedge := (h.edge_iff hnamed (hfile n hn) hm).mpr himp
    exact List.mem_map_of_mem (hsorts.ordered names n names' hl m hedge.2.2 hedge.2.1)
  · obtain ⟨root, hroot⟩ := (h.mem_iff hdone t.main).mp .refl
    obtain ⟨hin, hmain⟩ := hlisted root t.main hroot
    have hlast : l.getLast? = some root := by
      refine hsorts.last hin fun n hn => ?_
      rcases reflTransGen_iff_eq_or_transGen.mp (h.entry n _ (hfile n hn)).1 with heq | hpath
      · have hsame : n = root := h.name_unique (hfile n hn) (heq ▸ hroot)
        rw [hsame]
      · exact (h.edge_of_path hnamed hdone hpath hroot (hfile n hn)).to_reflTransGen
    rw [h.paths hsorts.subset, List.getLast?_map, hlast, ← hmain]
    rfl

theorem Tree.Met.order_answers (hnamed : t.Named) (h : t.Met d) (hdone : d.pending = [])
    (degrees edges : KeyOrder) :
    ∃ r, d.order t.main degrees edges = some r ∧ t.Answers r := by
  obtain ⟨l, hsort, hsorts⟩ := d.graph.sort_sorts (degrees.perm d.graph.nodes)
    (edges.perm d.graph.nodes) h.nodup
  have hlen : d.graph.nodes.length = d.deps.length := List.length_map _
  have hiff : l.length = d.deps.length ↔ ¬ t.Cyclic :=
    hlen ▸ (hsorts.length_eq_iff h.nodup).trans (h.acyclic_iff hnamed hdone)
  unfold Discovery.order
  rw [hsort]
  by_cases heq : l.length = d.deps.length
  · refine ⟨.ok (l.filterMap (d.node t.main)), if_neg (not_not.mpr heq), ?_, ?_⟩
    · rintro _ ⟨⟩
      have hacyclic := (hsorts.length_eq_iff h.nodup).mp (heq.trans hlen.symm)
      exact h.buildOrder hnamed hdone hsorts fun n hn => hsorts.complete hacyclic hn
    · exact ⟨nofun, fun hcyclic => absurd hcyclic (hiff.mp heq)⟩
  · refine ⟨.error .circular, if_pos heq, nofun, fun _ => ?_, fun _ => rfl⟩
    by_contra hno
    exact heq (hiff.mpr hno)

theorem met_start (t : Tree) : t.Met ⟨[], [], [(t.main, dirOf t.main)]⟩ := by
  refine ⟨rfl, .nil, nofun, ?_, .inl (List.mem_singleton.mpr rfl), nofun, nofun⟩
  intro p c hp
  obtain ⟨rfl, rfl⟩ := Prod.mk.inj (List.mem_singleton.mp hp)
  exact ⟨.refl, rfl⟩

theorem Tree.Met.complete_of_done (h : t.Met d) (hdone : d.pending = []) : t.Complete := by
  intro p hp
  obtain ⟨n, hn⟩ := (h.mem_iff hdone p).mp hp
  obtain ⟨ast, hread, -⟩ := h.module hn
  exact ⟨ast, hread, h.complete p (List.mem_map.mpr ⟨(n, p), hn, rfl⟩) ast hread⟩

/-- `/A.mod` -/
def rootFile : Path := [rootDir, [0x41, 0x2E, 0x6D, 0x6F, 0x64]]

/-- `/B.mod` -/
def importedFile : Path := [rootDir, [0x42, 0x2E, 0x6D, 0x6F, 0x64]]

/-- `A` imports `B`, and the file found for that declares `name`. -/
def twoFiles (name : Bytes) : Disk :=
  ⟨[(rootFile, .module ⟨[0x41], [[0x42]]⟩), (importedFile, .module ⟨name, []⟩)]⟩

def asGiven : KeyOrder := ⟨id, fun _ => .refl _⟩

theorem twoFiles_imports (name : Bytes) (p : Path) :
    (⟨twoFiles name, rootFile, searchDirs rootFile [] none⟩ : Tree).Imports rootFile p ↔
      p = importedFile := by
  have hfound : (⟨twoFiles name, rootFile, searchDirs rootFile [] none⟩ : Tree).found rootFile
      [0x42] = some importedFile := rfl
  constructor
  · rintro ⟨ast, hread, i, hi, hp⟩
    cases hread
    rw [List.mem_singleton.mp hi, hfound] at hp
    exact (Option.some.inj hp).symm
  · rintro rfl
    exact ⟨_, rfl, [0x42], List.mem_singleton.mpr rfl, hfound⟩

theorem twoFiles_reachable (name : Bytes)
    (h : (⟨twoFiles name, rootFile, searchDirs rootFile [] none⟩ : Tree).Reachable p) :
    p = rootFile ∨ p = importedFile := by
  induction h with
  | refl => exact .inl rfl
  | tail _ himp ih =>
    rcases ih with rfl | rfl
    · exact .inr ((twoFiles_imports name _).mp himp)
    · obtain ⟨ast, hread, i, hi, -⟩ := himp
      cases hread
      exact absurd hi List.not_mem_nil

end Tyu.Graph

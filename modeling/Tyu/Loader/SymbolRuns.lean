import Tyu.Loader.Exports
import Mathlib.Data.List.Forall2
import Mathlib.Data.List.Induction

/-! # Names -/

namespace Tyu

open Lib Lib.Wire Loader

variable {σ : Type}

abbrev NameTable := List (Bytes × UInt64)

def NameTable.resolve (table : NameTable) (name : Bytes) : Option UInt64 :=
  (table.find? fun p => p.1 = name).map (·.2)

structure SymEntry.StandsFor (e : SymEntry) (p : Bytes × UInt64) : Prop where
  hash : e.hash = fnv1aU64 p.1
  name : e.name ≠ [] → e.name = p.1
  addr : e.addr = p.2

def SymMap.Binds (map : SymMap) (table : NameTable) : Prop :=
  List.Forall₂ SymEntry.StandsFor map.items table

def NameTable.Alone (table : NameTable) (name : Bytes) : Prop :=
  ∀ p ∈ table, fnv1aU64 p.1 = fnv1aU64 name → p.1 = name

theorem SymMap.Binds.resolves {map : SymMap} {table : NameTable} (h : map.Binds table)
    {name : Bytes} (halone : table.Alone name) :
    (map.lookupByHash (fnv1aU64 name)).map (·.addr) = table.resolve name := by
  unfold SymMap.Binds at h
  unfold SymMap.lookupByHash NameTable.resolve
  revert h halone
  generalize map.items = items
  intro h halone
  induction h with
  | nil => rfl
  | @cons e p items table hep hrest ih =>
    have hrestAlone : NameTable.Alone table name :=
      fun q hq => halone q (List.mem_cons_of_mem _ hq)
    by_cases hname : p.1 = name
    · have hhash : e.hash = fnv1aU64 name := by rw [hep.hash, hname]
      rw [List.find?_cons_of_pos (by simpa using hhash), List.find?_cons_of_pos (by simpa using hname)]
      exact congrArg some hep.addr
    · have hhash : e.hash ≠ fnv1aU64 name := by
        intro heq
        rw [hep.hash] at heq
        exact hname (halone p List.mem_cons_self heq)
      rw [List.find?_cons_of_neg (by simpa using hhash), List.find?_cons_of_neg (by simpa using hname)]
      exact ih hrestAlone

theorem SymMap.Binds.named {map : SymMap} {table : NameTable} (h : map.Binds table)
    {e : SymEntry} (he : e ∈ map.items) (hname : e.name ≠ []) : e.hash = fnv1aU64 e.name := by
  unfold SymMap.Binds at h
  revert h he
  generalize map.items = items
  intro h he
  induction h with
  | nil => cases he
  | @cons e' p items table hep hrest ih =>
    rcases List.mem_cons.mp he with rfl | he
    · rw [hep.hash, hep.name hname]
    · exact ih he

/-- What happens to a loader: a table of the runtime's symbols, the registration of a name, or
a load on a platform. -/
inductive Event (σ : Type) where
  | symtab (bytes : Bytes) (names : List Bytes)
  | register (name : Bytes) (addr : UInt64)
  | load (c : Container) (platform : σ)

def exportNames (w : PtrWidth) (c : Container) : List Bytes :=
  match c.modinfo w with
  | some modinfo => (exportsOf w modinfo).map (·.name)
  | none => []

def Event.names (b : Build σ) : Event σ → List Bytes
  | .symtab _ names => names
  | .register name _ => [name]
  | .load c _ => exportNames b.width c

def Event.apply (b : Build σ) (ev : Event σ) (s : Loader σ) : Loader σ :=
  match ev with
  | .symtab bytes _ => { s with map := (s.map.registerSymtabBytes bytes).2 }
  | .register name addr =>
    match s.map.register name addr with
    | .ok map => { s with map }
    | .error _ => s
  | .load c platform => (loadModule b c { s with platform }).2

/-- The new entries of the map, under the names that they are registered for. -/
def NameTable.record (table : NameTable) (names : List Bytes) (before after : SymMap) : NameTable :=
  table ++ names.zip ((after.items.drop before.length).map (·.addr))

def run (b : Build σ) (events : List (Event σ)) (s : Loader σ) : Loader σ × NameTable :=
  events.foldl (fun st ev =>
    let s' := ev.apply b st.1
    (s', st.2.record (ev.names b) st.1.map s'.map)) (s, [])

/-- A module records the hashes of its exports' names, and the runtime's table has the hashes
of its names. -/
def Event.Honest (b : Build σ) : Event σ → Prop
  | .symtab bytes names =>
    ∀ entries, SymMap.symtab bytes = some entries → entries.map (·.1) = names.map fnv1aU64
  | .register _ _ => True
  | .load c _ =>
    ∀ modinfo, c.modinfo b.width = some modinfo →
      ∀ exp ∈ exportsOf b.width modinfo, exp.symHash = fnv1aU64 exp.name

/-! ## One event -/

/-- The map grows by entries that stand for names, in the order of the names. -/
def SymMap.GrowsBy (map map' : SymMap) (names : List Bytes) : Prop :=
  ∃ added, map'.items = map.items ++ added ∧
    List.Forall₂ SymEntry.StandsFor added (names.zip (added.map (·.addr)))

theorem SymMap.growsBy_refl (map : SymMap) (names : List Bytes) : map.GrowsBy map names := by
  refine ⟨[], (List.append_nil _).symm, ?_⟩
  rw [List.map_nil, List.zip_nil_right]
  exact .nil

theorem SymMap.Binds.record {map map' : SymMap} {table : NameTable} {names : List Bytes}
    (h : map.Binds table) (hgrows : map.GrowsBy map' names) :
    map'.Binds (table.record names map map') := by
  obtain ⟨added, hitems, hadded⟩ := hgrows
  have hdrop : map'.items.drop map.length = added := by
    rw [hitems]
    exact List.drop_left' rfl
  unfold SymMap.Binds NameTable.record
  rw [hdrop, hitems]
  exact List.rel_append h hadded

theorem growsBy_registerEntries {map : SymMap} {entries : List (UInt64 × UInt64)}
    {names : List Bytes} (hnames : entries.map (·.1) = names.map fnv1aU64) :
    map.GrowsBy (map.registerEntries entries).2 names := by
  induction entries generalizing map names with
  | nil => exact SymMap.growsBy_refl map names
  | cons entry entries ih =>
    obtain ⟨hash, addr⟩ := entry
    cases names with
    | nil => cases hnames
    | cons name names =>
      rw [List.map_cons, List.map_cons, List.cons.injEq] at hnames
      unfold SymMap.registerEntries
      cases hregister : map.registerRuntimeHash hash addr with
      | error e => exact SymMap.growsBy_refl map _
      | ok map' =>
        have hitems := SymMap.items_registerWithHash hregister
        have hrest : map'.GrowsBy (map'.registerEntries entries).2 names := ih hnames.2
        obtain ⟨added, hadded, hstands⟩ := hrest
        refine ⟨{ hash, name := [], addr } :: added, ?_, ?_⟩
        · show (map'.registerEntries entries).2.items = _
          rw [hadded, hitems, List.append_assoc, List.singleton_append]
        · exact .cons ⟨hnames.1, fun hne => absurd rfl hne, rfl⟩ hstands

theorem items_settle {b : Build σ} {c : Container} {s₀ s s' : Loader σ} {m : Admitted} {r : Ready}
    (hadmitted : AdmittedBy b c s₀ m) (h : settle b m r s = (.ok (), s')) :
    s'.map.items = s.map.items ++ (exportsOf b.width m.modinfo).map
      (ParsedExport.entry · (moduleFnAddr b r.codeBase)) := by
  unfold settle at h
  rcases registerExports_admitted hadmitted r.codeBase s with
    ⟨-, s₁, hrun, hitems, -⟩ | ⟨-, e, s₁, hrun⟩
  · rw [Stoppable.bind_of_ok hrun] at h
    obtain ⟨trust, _, htrust, h⟩ := Stoppable.bind_eq_ok.mp h
    obtain ⟨-, rfl⟩ := Load.ask_eq_ok.mp htrust
    obtain ⟨_, _, hbounds, h⟩ := Stoppable.bind_eq_ok.mp h
    obtain ⟨-, rfl⟩ := Stoppable.ofExcept_eq_ok.mp hbounds
    obtain ⟨_, _, hsharing, h⟩ := Stoppable.bind_eq_ok.mp h
    obtain ⟨-, rfl⟩ := Stoppable.ofExcept_eq_ok.mp hsharing
    unfold Load.insert at h
    cases hinsert : s₁.loaded.insert m.moduleId with
    | ok loaded =>
      rw [hinsert] at h
      cases h
      exact hitems
    | error e =>
      rw [hinsert] at h
      cases h
  · rw [Stoppable.bind_of_error hrun] at h
    cases h

/-- The map after a load: the one from before, and after it the exports of a module that was
loaded. -/
theorem items_loadModule (b : Build σ) (c : Container) (s : Loader σ) :
    (loadModule b c s).2.map = s.map ∨
      ∃ modinfo addr, c.modinfo b.width = some modinfo ∧
        (loadModule b c s).2.map.items =
          s.map.items ++ (exportsOf b.width modinfo).map (ParsedExport.entry · addr) := by
  rcases hload : loadModule b c s with ⟨stop | loaded, s'⟩
  · exact .inl (restored_loadModule b c s stop s' hload).map
  · right
    unfold loadModule at hload
    obtain ⟨m, s₁, hadm, hguarded⟩ := Stoppable.bind_eq_ok.mp hload
    have hinstall := Stoppable.guarded_eq_ok.mp (Stoppable.guarded_eq_ok.mp hguarded)
    unfold install at hinstall
    obtain ⟨r, s₂, hplace, hrest⟩ := Stoppable.bind_eq_ok.mp hinstall
    obtain ⟨initAddr, s₃, hrun, hrest⟩ := Stoppable.bind_eq_ok.mp hrest
    obtain ⟨_, s₄, hsettle, hpure⟩ := Stoppable.bind_eq_ok.mp hrest
    obtain ⟨-, rfl⟩ := Stoppable.pure_eq_ok.mp hpure
    have hadmitted := admittedBy_of_ok hadm
    have hmap : s₃.map = s.map := by
      rw [((restored_runInit b _ _ _).of_ok hrun).map, ((reserves_place b c m).of_ok hplace).map,
        ((quiet_admission b c).of_ok hadm).map]
    refine ⟨m.modinfo, moduleFnAddr b r.codeBase, hadmitted.modinfo, ?_⟩
    show s₄.map.items = _
    rw [items_settle hadmitted hsettle, hmap]

theorem standsFor_exports {es : List ParsedExport} (addr : UInt64)
    (h : ∀ exp ∈ es, exp.symHash = fnv1aU64 exp.name) :
    List.Forall₂ SymEntry.StandsFor (es.map (ParsedExport.entry · addr))
      ((es.map (·.name)).zip ((es.map (ParsedExport.entry · addr)).map (·.addr))) := by
  induction es with
  | nil => exact .nil
  | cons exp es ih =>
    exact .cons ⟨h exp List.mem_cons_self, fun _ => rfl, rfl⟩
      (ih fun e he => h e (List.mem_cons_of_mem _ he))

theorem growsBy_apply {b : Build σ} {ev : Event σ} (h : ev.Honest b) (s : Loader σ) :
    s.map.GrowsBy (ev.apply b s).map (ev.names b) := by
  cases ev with
  | symtab bytes names =>
    show s.map.GrowsBy (s.map.registerSymtabBytes bytes).2 names
    unfold SymMap.registerSymtabBytes
    cases hsymtab : SymMap.symtab bytes with
    | none => exact SymMap.growsBy_refl s.map names
    | some entries => exact growsBy_registerEntries (h entries hsymtab)
  | register name addr =>
    unfold Event.apply Event.names
    cases hregister : s.map.register name addr with
    | error e =>
      simp only [hregister]
      exact SymMap.growsBy_refl s.map _
    | ok map =>
      simp only [hregister]
      refine ⟨_, SymMap.items_registerWithHash hregister, ?_⟩
      exact .cons ⟨rfl, fun _ => rfl, rfl⟩ .nil
  | load c platform =>
    show s.map.GrowsBy (loadModule b c { s with platform }).2.map (exportNames b.width c)
    rcases items_loadModule b c { s with platform } with hsame | ⟨modinfo, addr, hmodinfo, hitems⟩
    · rw [hsame]
      exact SymMap.growsBy_refl s.map _
    · refine ⟨_, hitems, ?_⟩
      unfold exportNames
      rw [hmodinfo]
      exact standsFor_exports addr (h modinfo hmodinfo)

theorem run_append (b : Build σ) (events : List (Event σ)) (ev : Event σ) (s : Loader σ) :
    run b (events ++ [ev]) s =
      (ev.apply b (run b events s).1, (run b events s).2.record (ev.names b)
        (run b events s).1.map (ev.apply b (run b events s).1).map) := by
  unfold run
  rw [List.foldl_append]
  rfl

theorem binds_run {b : Build σ} {events : List (Event σ)} {s : Loader σ}
    (hstart : s.map.items = []) (h : ∀ ev ∈ events, ev.Honest b) :
    (run b events s).1.map.Binds (run b events s).2 := by
  induction events using List.reverseRecOn with
  | nil =>
    unfold SymMap.Binds
    show List.Forall₂ _ s.map.items []
    rw [hstart]
    exact .nil
  | append_singleton events ev ih =>
    have hbinds := ih fun e he => h e (List.mem_append_left _ he)
    have hhonest := h ev (List.mem_append_right _ (List.mem_singleton.mpr rfl))
    rw [run_append]
    exact hbinds.record (growsBy_apply hhonest _)

def honestModule : Container := (smallModule [(fnv1aU64 [0x66], [0x66])] []).get (by decide +kernel)

def honestEvents : List (Event Unit) :=
  [.symtab (put32 1 ++ put32 0 ++ put64 (fnv1aU64 [0x67]) ++ put64 0x500) [[0x67]],
    .load honestModule (), .load honestModule ()]

theorem honestEvents_honest : ∀ ev ∈ honestEvents, ev.Honest ramBuild := by
  have hload : ∀ modinfo, honestModule.modinfo .w64 = some modinfo →
      ∀ exp ∈ exportsOf .w64 modinfo, exp.symHash = fnv1aU64 exp.name := by
    have hall : (honestModule.modinfo .w64).all fun modinfo =>
        (exportsOf .w64 modinfo).all fun exp => exp.symHash = fnv1aU64 exp.name := by
      decide +kernel
    intro modinfo hmodinfo exp hexp
    rw [hmodinfo] at hall
    exact of_decide_eq_true (List.all_eq_true.mp hall exp hexp)
  intro ev hev
  simp only [honestEvents, List.mem_cons, List.not_mem_nil, or_false] at hev
  rcases hev with rfl | rfl | rfl
  · intro entries hentries
    have hsymtab : SymMap.symtab (put32 1 ++ put32 0 ++ put64 (fnv1aU64 [0x67]) ++ put64 0x500) =
        some [(fnv1aU64 [0x67], 0x500)] := by decide
    rw [hsymtab] at hentries
    cases hentries
    rfl
  · exact hload
  · exact hload

def lyingModule : Container := (smallModule [(fnv1aU64 [0x79], [0x78])] []).get (by decide +kernel)

end Tyu

import Mathlib.Data.List.TakeWhile
import Tyu.Loader.Device
import Tyu.Loader.Releases
import Tyu.Loader.SymbolRuns

/-!
# The tables of the loader, and the boot of an image
-/

namespace Tyu

open Lib Lib.Wire Loader

variable {σ : Type} {b : Build σ} {s s' : Loader σ}

/-- No two symbols have one hash or one name, and no module is listed twice. -/
structure Loader.Apart (s : Loader σ) : Prop where
  hashes : (s.map.items.map (·.hash)).Nodup
  names : s.map.items.Pairwise fun e e' => e'.name ≠ [] → e.name ≠ e'.name
  loaded : s.loaded.items.Nodup

theorem Loader.Apart.of_same (h : s.Apart) (hmap : s'.map = s.map)
    (hloaded : s'.loaded = s.loaded) : s'.Apart := by
  refine ⟨?_, ?_, ?_⟩
  · rw [hmap]
    exact h.hashes
  · rw [hmap]
    exact h.names
  · rw [hloaded]
    exact h.loaded

/-- Symbols and modules have been added behind those of before, if any. -/
structure Loader.Advances (s s' : Loader σ) : Prop where
  map : s.map.Extends s'.map
  loaded : s.loaded.Extends s'.loaded
  apart : s.Apart → s'.Apart

theorem Loader.Advances.of_same (hmap : s'.map = s.map) (hloaded : s'.loaded = s.loaded) :
    s.Advances s' := by
  refine ⟨?_, ?_, fun h => h.of_same hmap hloaded⟩
  · rw [hmap]
    exact .refl _
  · rw [hloaded]
    exact .refl _

theorem Loader.Advances.trans {m : Loader σ} (h : s.Advances m) (h' : m.Advances s') :
    s.Advances s' :=
  ⟨h.map.trans h'.map, h.loaded.trans h'.loaded, fun hs => h'.apart (h.apart hs)⟩

instance : Frame (Advances (σ := σ)) where
  quiet := fun hq => .of_same hq.map hq.loaded
  trans := fun _ _ _ => Advances.trans

theorem advances_registered {hash addr : UInt64} {name : Bytes} {map : SymMap}
    (hok : s.map.registerWithHash hash name addr = .ok map) : s.Advances { s with map } := by
  have hitems := SymMap.items_registerWithHash hok
  have hfresh := (SymMap.registerWithHash_eq_ok.mp hok).1
  refine ⟨SymMap.extends_registerWithHash hok, .refl _, fun h => ⟨?_, ?_, h.loaded⟩⟩
  · show (map.items.map (·.hash)).Nodup
    rw [hitems, List.map_append, List.map_singleton, ← List.concat_eq_append, List.nodup_concat]
    refine ⟨fun hmem => ?_, h.hashes⟩
    obtain ⟨e, he, heq⟩ := List.mem_map.mp hmem
    exact (hfresh e he).1 heq
  · show map.items.Pairwise _
    rw [hitems, List.pairwise_append]
    refine ⟨h.names, List.pairwise_singleton _ _, fun e he e' he' => ?_⟩
    rw [List.mem_singleton.mp he']
    exact (hfresh e he).2

theorem advances_register (hash : UInt64) (name : Bytes) (addr : UInt64) :
    (Load.register hash name addr).Moves (Advances (σ := σ)) := by
  intro s
  unfold Load.register
  cases hregister : s.map.registerWithHash hash name addr with
  | ok map => exact advances_registered hregister
  | error e => exact .of_same rfl rfl

theorem advances_insert (id : UInt64) : (Load.insert id).Moves (Advances (σ := σ)) := by
  intro s
  unfold Load.insert LoadedSet.insert
  cases hold : s.loaded.contains id with
  | true => exact .of_same rfl rfl
  | false =>
    cases happend : s.loaded.append id with
    | none => exact .of_same rfl rfl
    | some loaded =>
      refine ⟨.refl _, Journal.extends_append happend, fun h => ⟨h.hashes, h.names, ?_⟩⟩
      show loaded.items.Nodup
      rw [(Journal.append_eq_some.mp happend).2, ← List.concat_eq_append, List.nodup_concat]
      refine ⟨fun hmem => ?_, h.loaded⟩
      rw [LoadedSet.contains, List.contains_iff_mem.mpr hmem] at hold
      cases hold

theorem advances_settle (b : Build σ) (m : Admitted) (r : Ready) :
    (settle b m r).Moves Advances := by
  have hexports : (registerExports b m.modinfo r.codeBase).Moves Advances := by
    unfold registerExports
    refine Load.moves_ite (Load.moves_pure _) ?_
    refine Load.moves_bind (Load.moves_ofExcept _) fun mi => ?_
    refine Load.moves_forM (fun index => ?_) _
    unfold registerExport
    refine Load.moves_bind (Load.moves_ofExcept _) fun exp => ?_
    exact Load.moves_ite (Load.moves_pure _) (advances_register _ _ _)
  unfold settle
  refine Load.moves_bind hexports fun _ => ?_
  refine Load.moves_bind (Load.moves_ask _) fun trust => ?_
  refine Load.moves_bind (Load.moves_ofExcept _) fun _ => ?_
  refine Load.moves_bind (Load.moves_ofExcept _) fun _ => ?_
  exact advances_insert m.moduleId

theorem loadModule_stages {c : Container} {lm : LoadedModule}
    (h : loadModule b c s = (.ok lm, s')) : ∃ m r s₁ s₂ s₃ initAddr,
      admission b c s = (.ok m, s₁) ∧ place b c m s₁ = (.ok r, s₂) ∧
      runInitIfPresent b m.modinfo r.codeBase r.code s₂ = (.ok initAddr, s₃) ∧
      settle b m r s₃ = (.ok (), s') := by
  unfold loadModule at h
  obtain ⟨m, s₁, hadm, h⟩ := Stoppable.bind_eq_ok.mp h
  rw [Stoppable.guarded_eq_ok, Stoppable.guarded_eq_ok] at h
  unfold install at h
  obtain ⟨r, s₂, hplace, h⟩ := Stoppable.bind_eq_ok.mp h
  obtain ⟨initAddr, s₃, hinit, h⟩ := Stoppable.bind_eq_ok.mp h
  obtain ⟨_, s₄, hsettle, h⟩ := Stoppable.bind_eq_ok.mp h
  obtain ⟨-, rfl⟩ := Stoppable.pure_eq_ok.mp h
  exact ⟨m, r, s₁, s₂, s₃, initAddr, hadm, hplace, hinit, hsettle⟩

theorem advances_loadModule (b : Build σ) (c : Container) :
    (loadModule b c).Moves Advances := by
  intro s
  rcases hload : loadModule b c s with ⟨stop | lm, s'⟩
  · have hback := restored_loadModule b c s stop s' hload
    exact .of_same hback.map hback.loaded
  · obtain ⟨m, r, s₁, s₂, s₃, _, hadm, hplace, hinit, hsettle⟩ := loadModule_stages hload
    have hquiet := (quiet_admission b c).of_ok hadm
    have hreserves := (reserves_place b c m).of_ok hplace
    have hrun := (restored_runInit b _ _ _).of_ok hinit
    have hbefore : s.Advances s₃ := by
      refine .of_same ?_ ?_
      · rw [hrun.map, hreserves.map, hquiet.map]
      · rw [hrun.loaded, hreserves.loaded, hquiet.loaded]
    exact hbefore.trans ((advances_settle b m r).of_ok hsettle)

theorem loaded_settle {m : Admitted} {r : Ready} (h : settle b m r s = (.ok (), s')) :
    s'.loaded.items = s.loaded.items ++ [m.moduleId] := by
  unfold settle at h
  obtain ⟨_, s₁, hexports, h⟩ := Stoppable.bind_eq_ok.mp h
  obtain ⟨trust, _, htrust, h⟩ := Stoppable.bind_eq_ok.mp h
  obtain ⟨-, rfl⟩ := Load.ask_eq_ok.mp htrust
  obtain ⟨_, _, hbounds, h⟩ := Stoppable.bind_eq_ok.mp h
  obtain ⟨-, rfl⟩ := Stoppable.ofExcept_eq_ok.mp hbounds
  obtain ⟨_, _, hsharing, h⟩ := Stoppable.bind_eq_ok.mp h
  obtain ⟨-, rfl⟩ := Stoppable.ofExcept_eq_ok.mp hsharing
  have hsame := ((grows_registerExports b _ _).of_ok hexports).loaded
  unfold Load.insert LoadedSet.insert at h
  rw [hsame] at h
  cases hold : s.loaded.contains m.moduleId with
  | true => simp [hold] at h
  | false =>
    cases happend : s.loaded.append m.moduleId with
    | none => simp [hold, happend, expect] at h
    | some loaded =>
      simp only [hold, happend, expect] at h
      cases h
      exact (Journal.append_eq_some.mp happend).2

/-- A module that is loaded is listed under the hash of its name. -/
theorem loaded_loadModule {c : Container} {lm : LoadedModule}
    (h : loadModule b c s = (.ok lm, s')) : ∃ modinfo mi, c.modinfo b.width = some modinfo ∧
      (ModInfo.decode b.width modinfo).run = some (some mi) ∧
      s'.loaded.items = s.loaded.items ++ [fnv1aU64 mi.moduleName] := by
  obtain ⟨m, r, s₁, s₂, s₃, _, hadm, hplace, hinit, hsettle⟩ := loadModule_stages h
  have hadmitted := admittedBy_of_ok hadm
  obtain ⟨mi, hmi, hid⟩ := hadmitted.decoded
  refine ⟨m.modinfo, mi, hadmitted.modinfo, hmi, ?_⟩
  rw [loaded_settle hsettle, hid, ((restored_runInit b _ _ _).of_ok hinit).loaded,
    ((reserves_place b c m).of_ok hplace).loaded, ((quiet_admission b c).of_ok hadm).loaded]

/-! ## Runs of the loader -/

def Loader.Empty (s : Loader σ) : Prop :=
  s.map.items = [] ∧ s.loaded.items = [] ∧ s.registry.items = []

/-- Registrations, loads that succeed or fail on any platform, and releases of apertures. -/
def loaderSystem (b : Build σ) : System (Loader σ) where
  init := Loader.Empty
  step s s' := (∃ ev : Event σ, s' = ev.apply b s) ∨
    ∃ owner, s' = { s with registry := s.registry.releaseOwner owner }

theorem advances_registerEntries (entries : List (UInt64 × UInt64)) (s : Loader σ) :
    s.Advances { s with map := (s.map.registerEntries entries).2 } := by
  induction entries generalizing s with
  | nil => exact .of_same rfl rfl
  | cons entry rest ih =>
    obtain ⟨hash, addr⟩ := entry
    unfold SymMap.registerEntries
    cases hregister : s.map.registerRuntimeHash hash addr with
    | ok map => exact (advances_registered hregister).trans (ih { s with map })
    | error e => exact .of_same rfl rfl

theorem advances_apply (b : Build σ) (ev : Event σ) (s : Loader σ) :
    s.Advances (ev.apply b s) ∧ ((s.registry.items.map Prod.fst).Nodup →
      ((ev.apply b s).registry.items.map Prod.fst).Nodup) := by
  cases ev with
  | symtab bytes names =>
    refine ⟨?_, id⟩
    show s.Advances { s with map := (s.map.registerSymtabBytes bytes).2 }
    unfold SymMap.registerSymtabBytes
    cases SymMap.symtab bytes with
    | none => exact .of_same rfl rfl
    | some entries => exact advances_registerEntries entries s
  | register name addr =>
    unfold Event.apply
    cases hregister : s.map.register name addr with
    | ok map =>
      simp only [hregister]
      exact ⟨advances_registered hregister, id⟩
    | error e =>
      simp only [hregister]
      exact ⟨.of_same rfl rfl, id⟩
  | load c platform =>
    have hload := advances_loadModule b c { s with platform }
    refine ⟨⟨hload.map, hload.loaded, fun h => hload.apart (h.of_same rfl rfl)⟩, fun h => ?_⟩
    show ((loadModule b c { s with platform }).2.registry.items.map Prod.fst).Nodup
    rcases hrun : loadModule b c { s with platform } with ⟨stop | lm, s'⟩
    · rw [(restored_loadModule b c _ stop s' hrun).registry]
      exact h
    · exact (adds_loadModule hrun).2.2 h

theorem Loader.Empty.apart (h : s.Empty) : s.Apart := by
  refine ⟨?_, ?_, ?_⟩
  · simp [h.1]
  · simp [h.1]
  · simp [h.2.1]

theorem Loader.Apart.lookup (h : s.Apart) {hash : UInt64} {e : SymEntry} :
    s.map.lookupByHash hash = some e ↔ e ∈ s.map.items ∧ e.hash = hash := by
  unfold SymMap.lookupByHash
  constructor
  · intro hfind
    exact ⟨List.mem_of_find?_eq_some hfind, by simpa using List.find?_some hfind⟩
  · rintro ⟨hmem, rfl⟩
    cases hfind : s.map.items.find? fun e' => e'.hash = e.hash with
    | none => exact absurd (List.find?_eq_none.mp hfind e hmem) (by simp)
    | some e' =>
      have hhash : e'.hash = e.hash := by simpa using List.find?_some hfind
      rw [List.inj_on_of_nodup_map h.hashes (List.mem_of_find?_eq_some hfind) hmem hhash]

theorem registry_nodup_release (owner : UInt64) (h : (s.registry.items.map Prod.fst).Nodup) :
    ((s.registry.releaseOwner owner).items.map Prod.fst).Nodup := by
  have hperm := (ApertureRegistry.releaseOwner_perm s.registry owner).map Prod.fst
  exact hperm.nodup_iff.mpr (h.sublist (List.filter_sublist.map Prod.fst))

/-- **Bindings last.**  Whatever happens after it, a hash keeps its symbol and its address, and
a module that was loaded stays listed. -/
theorem bindings_last (h : Relation.ReflTransGen (loaderSystem b).step s s') :
    (∀ hash e, s.map.lookupByHash hash = some e → s'.map.lookupByHash hash = some e) ∧
      ∀ id, s.loaded.contains id = true → s'.loaded.contains id = true := by
  have hall : s.map.Extends s'.map ∧ s.loaded.Extends s'.loaded := by
    induction h with
    | refl => exact ⟨.refl _, .refl _⟩
    | @tail m _ _ hstep ih =>
      rcases hstep with ⟨ev, rfl⟩ | ⟨owner, rfl⟩
      · have hev := (advances_apply b ev m).1
        exact ⟨ih.1.trans hev.map, ih.2.trans hev.loaded⟩
      · exact ih
  obtain ⟨⟨more, hmore⟩, mods, hmods⟩ := hall
  refine ⟨fun hash e he => ?_, fun id hid => ?_⟩
  · unfold SymMap.lookupByHash at he ⊢
    rw [← hmore, List.find?_append, he]
    rfl
  · rw [LoadedSet.contains, List.contains_iff_mem] at hid ⊢
    rw [← hmods]
    exact List.mem_append_left _ hid

def registeredState : Loader Unit := Event.apply ramBuild (.register [0x67] 0x500) .start

theorem registered_stays :
    (Event.apply ramBuild (.load honestModule ()) registeredState).map.lookupByHash
      (fnv1aU64 [0x67]) = some ⟨fnv1aU64 [0x67], [0x67], 0x500⟩ :=
  (bindings_last (.single (.inl ⟨.load honestModule (), rfl⟩))).1 _ _ (by decide +kernel)

/-! ## The boot of an image -/

def MAIN_HASH : UInt64 := 0x1f5962a2ce9803c8

def MODPACK_MAX_MODULES : Nat := 64

/-- Where a module cannot reach the code of a symbol, `maybeVeneer` makes a jump to it. -/
def registerFirmwareSymtab (maybeVeneer : UInt64 → UInt64 → σ → Except UInt32 UInt64 × σ) :
    List (UInt64 × UInt64) → Load σ PUnit
  | [] => pure ⟨⟩
  | (hash, addr) :: rest => do
    let registered ← Load.operate (maybeVeneer hash addr)
    Load.register hash [] registered
    registerFirmwareSymtab maybeVeneer rest

def parseModpack (w : PtrWidth) (count : Nat) : List Bytes → Except Stop (List Container)
  | [] => .ok []
  | blob :: rest => do
    require (count < MODPACK_MAX_MODULES) (.error .badContainer)
    let c ← (Container.parse w blob).mapError fun _ => .error .badContainer
    return c :: (← parseModpack w (count + 1) rest)

def loadContainers (b : Build σ) : List Container → Load σ PUnit
  | [] => pure ⟨⟩
  | c :: rest => do
    let _ ← loadModule b c
    loadContainers b rest

/-- An error ends in a trap, one in the symbol table in that of a bad container. -/
def langLoadAndRun (b : Build σ) (maybeVeneer : UInt64 → UInt64 → σ → Except UInt32 UInt64 × σ)
    (symtab modpack : Bytes) : Load σ UInt64 := do
  let entries ← Stoppable.ofExcept <| expect (SymMap.symtab symtab) (.error .badContainer)
  fun s => match registerFirmwareSymtab maybeVeneer entries s with
    | (.error (.error _), s) => (.error (.error .badContainer), s)
    | outcome => outcome
  let blobs ← Load.orPanic (Device.modpackBlobs b.width modpack)
  let containers ← Stoppable.ofExcept (parseModpack b.width 0 blobs)
  Load.check (containers ≠ []) .badContainer
  loadContainers b containers
  let s ← Stoppable.get
  let main ← Stoppable.ofExcept <|
    expect (s.map.lookupByHash MAIN_HASH) (.error .symbolUnresolved)
  Load.call b main.addr
  pure main.addr

def Container.ListedAs (w : PtrWidth) (c : Container) (id : UInt64) : Prop :=
  ∃ modinfo mi, c.modinfo w = some modinfo ∧ (ModInfo.decode w modinfo).run = some (some mi) ∧
    id = fnv1aU64 mi.moduleName

def ListedAs (w : PtrWidth) (lmod : Bytes) (id : UInt64) : Prop :=
  ∃ c, Container.parse w lmod = .ok c ∧ c.ListedAs w id

theorem moves_registerFirmwareSymtab {R : Loader σ → Loader σ → Prop} [Frame R]
    (hregister : ∀ hash name addr, (Load.register hash name addr).Moves R)
    (maybeVeneer : UInt64 → UInt64 → σ → Except UInt32 UInt64 × σ)
    (entries : List (UInt64 × UInt64)) : (registerFirmwareSymtab maybeVeneer entries).Moves R := by
  induction entries with
  | nil => exact Load.moves_pure _
  | cons entry rest ih =>
    obtain ⟨hash, addr⟩ := entry
    refine Load.moves_bind (Load.moves_operate _) fun registered => ?_
    exact Load.moves_bind (hregister _ _ _) fun _ => ih

theorem loadContainers_eq_ok {cs : List Container} (h : loadContainers b cs s = (.ok ⟨⟩, s')) :
    s.Advances s' ∧ ∃ ids, s'.loaded.items = s.loaded.items ++ ids ∧
      List.Forall₂ (Container.ListedAs b.width) cs ids := by
  induction cs generalizing s with
  | nil =>
    cases h
    exact ⟨.of_same rfl rfl, [], (List.append_nil _).symm, .nil⟩
  | cons c rest ih =>
    obtain ⟨lm, m, hload, h⟩ := Stoppable.bind_eq_ok.mp h
    obtain ⟨hadv, ids, hids, hall⟩ := ih h
    obtain ⟨modinfo, mi, hmodinfo, hmi, hloaded⟩ := loaded_loadModule hload
    refine ⟨((advances_loadModule b c).of_ok hload).trans hadv, fnv1aU64 mi.moduleName :: ids, ?_,
      .cons ⟨modinfo, mi, hmodinfo, hmi, rfl⟩ hall⟩
    rw [hids, hloaded, List.append_assoc]
    rfl

theorem parseModpack_eq_ok {w : PtrWidth} {count : Nat} {blobs : List Bytes}
    {cs : List Container} (h : parseModpack w count blobs = .ok cs) {ids : List UInt64}
    (hids : List.Forall₂ (Container.ListedAs w) cs ids) :
    List.Forall₂ (ListedAs w) blobs ids := by
  induction blobs generalizing count cs ids with
  | nil =>
    cases h
    cases hids
    exact .nil
  | cons blob rest ih =>
    obtain ⟨_, -, h⟩ := bind_eq_ok.mp h
    obtain ⟨c, hc, h⟩ := bind_eq_ok.mp h
    obtain ⟨cs, hcs, h⟩ := bind_eq_ok.mp h
    cases h
    cases hids with
    | cons hid hids =>
      cases hparse : Container.parse w blob with
      | ok c' =>
        rw [hparse] at hc
        cases hc
        exact .cons ⟨c, hparse, hid⟩ (ih hcs hids)
      | error e =>
        rw [hparse] at hc
        cases hc

/-- **A boot runs the whole pack.**  From empty tables, the program is called only after every
module of the pack has been loaded, in the order of the pack; then the program is the one
symbol with the hash of main, and nothing is called after it. -/
theorem boot_loads_whole_pack {maybeVeneer : UInt64 → UInt64 → σ → Except UInt32 UInt64 × σ}
    {gas : Bool} {lmods : List Bytes} {symtab modpack : Bytes} {addr : UInt64} (hempty : s.Empty)
    (hpack : Device.assembleModpack gas lmods = some modpack)
    (hsize : 2 * modpack.length ≤ b.width.size) (hfull : ∀ lmod ∈ lmods, lmod ≠ [])
    (h : langLoadAndRun b maybeVeneer symtab modpack s = (.ok addr, s')) :
    List.Forall₂ (ListedAs b.width) lmods s'.loaded.items ∧ s'.loaded.items.Nodup ∧
      s'.calls.getLast? = some addr ∧
      ∃ main ∈ s'.map.items, main.addr = addr ∧
        ∀ e ∈ s'.map.items, e.hash = MAIN_HASH ↔ e = main := by
  unfold langLoadAndRun at h
  obtain ⟨entries, _, hentries, h⟩ := Stoppable.bind_eq_ok.mp h
  obtain ⟨-, rfl⟩ := Stoppable.ofExcept_eq_ok.mp hentries
  obtain ⟨_, s₁, hsymtab, h⟩ := Stoppable.bind_eq_ok.mp h
  obtain ⟨blobs, _, hblobs, h⟩ := Stoppable.bind_eq_ok.mp h
  obtain ⟨hread, rfl⟩ := Load.orPanic_eq_ok.mp hblobs
  obtain ⟨cs, _, hparse, h⟩ := Stoppable.bind_eq_ok.mp h
  obtain ⟨hcs, rfl⟩ := Stoppable.ofExcept_eq_ok.mp hparse
  obtain ⟨_, _, hsome, h⟩ := Stoppable.bind_eq_ok.mp h
  obtain ⟨-, rfl⟩ := Load.check_eq_ok.mp hsome
  obtain ⟨_, s₂, hload, h⟩ := Stoppable.bind_eq_ok.mp h
  obtain ⟨_, _, hget, h⟩ := Stoppable.bind_eq_ok.mp h
  obtain ⟨rfl, rfl⟩ := Stoppable.get_eq_ok.mp hget
  obtain ⟨main, _, hmain, h⟩ := Stoppable.bind_eq_ok.mp h
  obtain ⟨hlookup, rfl⟩ := Stoppable.ofExcept_eq_ok.mp hmain
  cases h
  have hsym : s.Advances s₁ ∧ s₁.loaded = s.loaded := by
    rcases hreg : registerFirmwareSymtab maybeVeneer entries s with ⟨(_ | _) | _, _⟩
    · simp [hreg] at hsymtab
    · simp [hreg] at hsymtab
    · simp only [hreg] at hsymtab
      cases hsymtab
      exact ⟨(moves_registerFirmwareSymtab advances_register _ _).of_ok hreg,
        ((moves_registerFirmwareSymtab grows_register _ _).of_ok hreg).loaded⟩
  obtain ⟨hadv, ids, hids, hall⟩ := loadContainers_eq_ok hload
  have hblobs : blobs = lmods := by
    rw [Device.modpackBlobs_assemble hpack hsize] at hread
    rw [← Option.some.inj hread, List.takeWhile_eq_self_iff]
    exact fun lmod hl => decide_eq_true (hfull lmod hl)
  have hapart := (hsym.1.trans hadv).apart hempty.apart
  rw [hsym.2, hempty.2.1, List.nil_append] at hids
  replace hlookup := expect_eq_ok.mp hlookup
  have hone := hapart.lookup.mp hlookup
  refine ⟨?_, hapart.loaded, List.getLast?_concat, main, hone.1, rfl, fun e he => ?_⟩
  · rw [← hblobs]
    show List.Forall₂ _ blobs s₂.loaded.items
    rw [hids]
    exact parseModpack_eq_ok hcs hall
  · constructor
    · intro hhash
      exact Option.some.inj ((hapart.lookup.mpr ⟨he, hhash⟩).symm.trans hlookup)
    · rintro rfl
      exact hone.2

def mainModule : Container := (smallModule [(MAIN_HASH, [0x66])] []).get (by decide +kernel)

def mainPack : Bytes :=
  (Device.assembleModpack true [mainModule.bytes]).get (by decide +kernel)

def bootOutcome : Except Stop UInt64 × Loader Unit :=
  langLoadAndRun ramBuild (fun _ addr s => (.ok addr, s)) (put64 0) mainPack .start

theorem mainPack_boots :
    List.Forall₂ (ListedAs .w64) [mainModule.bytes] bootOutcome.2.loaded.items ∧
      bootOutcome.2.calls.getLast? = some 0x1000 := by
  have hresult : bootOutcome.1 = .ok 0x1000 := by decide +kernel
  have hsize : 2 * mainPack.length ≤ PtrWidth.w64.size := by decide +kernel
  have hfull : ∀ lmod ∈ [mainModule.bytes], lmod ≠ [] := by decide +kernel
  have hboot : bootOutcome = (.ok 0x1000, bootOutcome.2) := by
    rw [← hresult, Prod.mk.eta]
  have hpack : Device.assembleModpack true [mainModule.bytes] = some mainPack :=
    (Option.some_get _).symm
  have hall := boot_loads_whole_pack (s := Loader.start) ⟨rfl, rfl, rfl⟩ hpack hsize hfull hboot
  exact ⟨hall.1, hall.2.2.1⟩

end Tyu

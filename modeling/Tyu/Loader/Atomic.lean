import Tyu.Loader.ContainerRoundTrip
import Tyu.Loader.Load

/-! # Failed loads -/

namespace Tyu

open Lib Lib.Wire Loader

variable {σ : Type}

/-! ## Stages that only use the platform -/

theorem quiet_prepareDecryption (b : Build σ) (hdr : LmodHeader) (raw modinfo : Bytes) :
    (prepareDecryption b hdr raw modinfo).Moves Quiet := by
  unfold prepareDecryption
  refine Load.moves_ite (Load.moves_pure _) ?_
  refine Load.moves_bind (Load.moves_ask _) fun trust => ?_
  refine Load.moves_bind (Load.moves_check _ _) fun _ => ?_
  refine Load.moves_bind (Load.moves_check _ _) fun _ => ?_
  refine Load.moves_bind (Load.moves_ofExcept _) fun eh => ?_
  refine Load.moves_bind (Load.moves_ask _) fun found => ?_
  refine Load.moves_bind (Load.moves_ofExcept _) fun cek => ?_
  refine Load.moves_bind (Load.moves_orPanic _) fun header => ?_
  refine Load.moves_bind (Load.moves_ofExcept _) fun reloc => ?_
  refine Load.moves_bind (Load.moves_orPanic _) fun encHeader => ?_
  refine Load.moves_bind (Load.moves_check _ _) fun _ => ?_
  refine Load.moves_bind (Load.moves_operate _) fun scratch => ?_
  refine Load.moves_bind (Load.moves_ofExcept _) fun aad => ?_
  exact Load.moves_pure _

theorem quiet_rejectEncrypted (hdr : LmodHeader) :
    (rejectEncryptedWithoutFeature hdr).Moves (Quiet (σ := σ)) :=
  Load.moves_bind (Load.moves_check _ _) fun _ => Load.moves_pure _

theorem quiet_prepareForBuild (b : Build σ) (hdr : LmodHeader) (raw modinfo : Bytes) :
    (prepareForBuild b hdr raw modinfo).Moves Quiet := by
  unfold prepareForBuild
  exact Load.moves_ite (quiet_prepareDecryption b hdr raw modinfo) (quiet_rejectEncrypted hdr)

theorem quiet_admission (b : Build σ) (c : Container) : (admission b c).Moves Quiet := by
  unfold admission
  refine Load.moves_bind (Load.moves_ask _) fun expected => ?_
  refine Load.moves_bind (Load.moves_check _ _) fun _ => ?_
  refine Load.moves_bind (Load.moves_orPanic _) fun modinfo => ?_
  refine Load.moves_bind (Load.moves_ofExcept _) fun mi => ?_
  refine Load.moves_bind Load.moves_get fun s => ?_
  refine Load.moves_bind (Load.moves_check _ _) fun _ => ?_
  refine Load.moves_bind (Load.moves_ask _) fun trust => ?_
  refine Load.moves_bind (Load.moves_check _ _) fun _ => ?_
  refine Load.moves_bind (Load.moves_ask _) fun platform => ?_
  refine Load.moves_bind (Load.moves_ofExcept _) fun _ => ?_
  refine Load.moves_bind (quiet_prepareForBuild b _ _ modinfo) fun decrypt => ?_
  refine Load.moves_bind (Load.moves_ask _) fun platform => ?_
  refine Load.moves_bind (Load.moves_ofExcept _) fun _ => ?_
  refine Load.moves_bind (Load.moves_ofExcept _) fun _ => ?_
  exact Load.moves_pure _

theorem quiet_allocSection (op : Nat → σ → Except UInt32 Region × σ) (len : Nat) :
    (allocSection op len).Moves Quiet := by
  unfold allocSection
  exact Load.moves_ite (Load.moves_bind (Load.moves_operate _) fun _ => Load.moves_pure _)
    (Load.moves_pure _)

theorem quiet_copyCode (b : Build σ) (c : Container) (lens : PlacedLens) (code : Region) :
    (copyCode b c lens code).Moves Quiet := by
  unfold copyCode
  exact Load.moves_ite (Load.moves_bind (Load.moves_orPanic _) fun _ => Load.moves_orPanic _)
    (Load.moves_pure _)

theorem quiet_copyRodata (b : Build σ) (c : Container) (rodata : Option Region) :
    (copyRodata b c rodata).Moves Quiet := by
  cases rodata with
  | none => exact Load.moves_pure _
  | some ro =>
    refine Load.moves_bind (Load.moves_orPanic _) fun _ => ?_
    exact Load.moves_bind (Load.moves_orPanic _) fun _ => Load.moves_pure _

theorem quiet_copyData (b : Build σ) (c : Container) (lens : PlacedLens) (data : Option Region) :
    (copyData b c lens data).Moves Quiet := by
  cases data with
  | none => exact Load.moves_pure _
  | some rw =>
    refine Load.moves_ite ?_ (Load.moves_pure _)
    refine Load.moves_bind (Load.moves_orPanic _) fun _ => ?_
    exact Load.moves_bind (Load.moves_orPanic _) fun _ => Load.moves_pure _

theorem quiet_placeSections (b : Build σ) (c : Container) (lens : PlacedLens) :
    (placeSections b c lens).Moves Quiet := by
  unfold placeSections
  refine Load.moves_bind (Load.moves_operate _) fun code => ?_
  refine Load.moves_bind (quiet_allocSection _ _) fun rodata => ?_
  refine Load.moves_bind (quiet_allocSection _ _) fun data => ?_
  refine Load.moves_bind (quiet_copyCode b c lens code) fun code => ?_
  refine Load.moves_bind (quiet_copyRodata b c rodata) fun rodata => ?_
  refine Load.moves_bind (quiet_copyData b c lens data) fun data => ?_
  exact Load.moves_pure _

theorem quiet_decryptSections (b : Build σ) (sections : PlacedSections) (lens : PlacedLens)
    (decrypt : Option DecryptionContext) :
    (decryptSections b sections lens decrypt).Moves Quiet := by
  unfold decryptSections
  cases decrypt with
  | none => exact Load.moves_pure _
  | some ctx =>
    refine Load.moves_bind (Load.moves_check _ _) fun _ => ?_
    refine Load.moves_ite (Load.moves_pure _) ?_
    refine Load.moves_bind (Load.moves_operate _) fun scratch => ?_
    refine Load.moves_bind (Load.moves_orPanic _) fun code => ?_
    refine Load.moves_bind (Load.moves_ofExcept _) fun ⟨payload, cursor⟩ => ?_
    refine Load.moves_bind (Load.moves_ofExcept _) fun rodata => ?_
    refine Load.moves_bind (Load.moves_ofExcept _) fun ⟨payload, cursor⟩ => ?_
    refine Load.moves_bind (Load.moves_ofExcept _) fun data => ?_
    refine Load.moves_bind (Load.moves_ofExcept _) fun ⟨payload, cursor⟩ => ?_
    refine Load.moves_bind (Load.moves_check _ _) fun _ => ?_
    refine Load.moves_bind (Load.moves_ofExcept _) fun plain => ?_
    refine Load.moves_bind (Load.moves_orPanic _) fun code => ?_
    refine Load.moves_bind (Load.moves_ofExcept _) fun rodata => ?_
    refine Load.moves_bind (Load.moves_ofExcept _) fun data => ?_
    exact Load.moves_pure _

theorem quiet_decryptForBuild (b : Build σ) (sections : PlacedSections) (lens : PlacedLens)
    (decrypt : Option DecryptionContext) :
    (decryptForBuild b sections lens decrypt).Moves Quiet := by
  unfold decryptForBuild
  exact Load.moves_ite (quiet_decryptSections b sections lens decrypt) (Load.moves_pure _)

theorem Quiet.moves {α : Type} {R : Loader σ → Loader σ → Prop} [Frame R] {x : Load σ α}
    (h : x.Moves Quiet) : x.Moves R := fun s => Frame.quiet (h s)

theorem reserves_place (b : Build σ) (c : Container) (m : Admitted) :
    (place b c m).Moves Reserves := by
  unfold place
  refine Load.moves_bind (Load.moves_ask _) fun platform => ?_
  refine Load.moves_bind (reserves_bindApertures _ _ _ _ _) fun bases => ?_
  refine Load.moves_bind (Load.moves_check _ _) fun _ => ?_
  refine Load.moves_bind (Quiet.moves (quiet_placeSections b c _)) fun sections => ?_
  refine Load.moves_bind (Quiet.moves (quiet_decryptForBuild b sections _ _)) fun sections => ?_
  refine Load.moves_bind Load.moves_get fun s => ?_
  refine Load.moves_bind (Load.moves_ofExcept _) fun codeBytes => ?_
  refine Load.moves_bind (Load.moves_operate _) fun code => ?_
  exact Load.moves_pure _

structure Loader.Restored (s s' : Loader σ) : Prop where
  map : s'.map = s.map
  loaded : s'.loaded = s.loaded
  registry : s'.registry = s.registry

theorem Loader.Restored.trans (s m s' : Loader σ) (h : s.Restored m) (h' : m.Restored s') :
    s.Restored s' :=
  ⟨h'.map.trans h.map, h'.loaded.trans h.loaded, h'.registry.trans h.registry⟩

instance : Frame (Restored (σ := σ)) where
  quiet := fun h => ⟨h.map, h.loaded, h.registry⟩
  trans := Restored.trans

theorem Loader.Restored.grows {s s' : Loader σ} (h : s.Restored s') : s.Grows s' := by
  refine ⟨?_, h.loaded, ?_⟩
  · rw [h.map]
    exact .refl _
  · rw [h.registry]
    exact .refl _

theorem restored_call (b : Build σ) (addr : UInt64) : (Load.call b addr).Moves Restored :=
  fun _ => ⟨rfl, rfl, rfl⟩

theorem restored_runInit (b : Build σ) (modinfo : Bytes) (codeBase : UInt64) (code : Region) :
    (runInitIfPresent b modinfo codeBase code).Moves Restored := by
  unfold runInitIfPresent
  refine Load.moves_bind (Load.moves_ofExcept _) fun initAddr => ?_
  refine Load.moves_ite (Load.moves_pure _) ?_
  refine Load.moves_bind (Load.moves_check _ _) fun _ => ?_
  refine Load.moves_bind (Load.moves_ofExcept _) fun initPtr => ?_
  exact Load.moves_bind (restored_call b initPtr) fun _ => Load.moves_pure _

theorem grows_register (hash : UInt64) (name : Bytes) (addr : UInt64) :
    (Load.register hash name addr).Moves (Grows (σ := σ)) := by
  intro s
  unfold Load.register
  cases hregister : s.map.registerWithHash hash name addr with
  | ok map => exact ⟨SymMap.extends_registerWithHash hregister, rfl, .refl _⟩
  | error e => exact .refl s

theorem grows_registerExport (b : Build σ) (modinfo : Bytes) (codeBase : UInt64)
    (index : UInt32) : (registerExport b modinfo codeBase index).Moves Grows := by
  unfold registerExport
  refine Load.moves_bind (Load.moves_ofExcept _) fun exp => ?_
  refine Load.moves_ite (Load.moves_pure _) ?_
  exact grows_register _ _ _

theorem grows_registerExports (b : Build σ) (modinfo : Bytes) (codeBase : UInt64) :
    (registerExports b modinfo codeBase).Moves Grows := by
  unfold registerExports
  refine Load.moves_ite (Load.moves_pure _) ?_
  refine Load.moves_bind (Load.moves_ofExcept _) fun mi => ?_
  exact Load.moves_forM (grows_registerExport b modinfo codeBase) _

theorem grows_insert_fails (id : UInt64) : (Load.insert id).Fails (Grows (σ := σ)) := by
  intro s e s' h
  unfold Load.insert at h
  cases hinsert : s.loaded.insert id with
  | ok loaded =>
    rw [hinsert] at h
    cases h
  | error err =>
    rw [hinsert] at h
    cases h
    exact .refl s

theorem grows_settle_fails (b : Build σ) (m : Admitted) (r : Ready) :
    (settle b m r).Fails Grows := by
  unfold settle
  refine Stoppable.fails_bind Grows.trans (grows_registerExports b _ _) fun _ => ?_
  refine Stoppable.fails_bind Grows.trans (Load.moves_ask _) fun trust => ?_
  refine Stoppable.fails_bind Grows.trans (Load.moves_ofExcept _) fun _ => ?_
  refine Stoppable.fails_bind Grows.trans (Load.moves_ofExcept _) fun _ => ?_
  exact grows_insert_fails m.moduleId

theorem grows_install_fails (b : Build σ) (c : Container) (m : Admitted) :
    (install b c m).Fails Grows := by
  unfold install
  refine Stoppable.fails_bind Grows.trans ?_ fun r => ?_
  · exact fun s => (reserves_place b c m s).grows
  · refine Stoppable.fails_bind Grows.trans (fun s => (restored_runInit b _ _ _ s).grows)
      fun initAddr => ?_
    intro s e s' h
    rcases Stoppable.bind_eq_error.mp h with hsettle | ⟨_, mid, _, hpure⟩
    · exact grows_settle_fails b m r s e s' hsettle
    · cases hpure

theorem restored_guards (b : Build σ) (c : Container) (m : Admitted) :
    (Stoppable.guarded rollbackMap <| Stoppable.guarded rollbackRegistry <|
      install b c m).Fails Restored := by
  have hinner : (Stoppable.guarded rollbackRegistry <| install b c m).Fails
      fun s s' => s.Grows s' ∧ s'.registry = s.registry := by
    refine Stoppable.fails_guarded (grows_install_fails b c m) fun s s' h => ?_
    have hregistry : (rollbackRegistry s s').registry = s.registry :=
      Journal.truncate_of_extends h.registry
    refine ⟨⟨h.map, h.loaded, ?_⟩, hregistry⟩
    rw [hregistry]
    exact .refl _
  refine Stoppable.fails_guarded hinner fun s s' h => ?_
  exact ⟨Journal.truncate_of_extends h.1.map, h.1.loaded, h.2⟩

theorem restored_loadModule (b : Build σ) (c : Container) : (loadModule b c).Fails Restored := by
  unfold loadModule
  refine Stoppable.fails_bind Restored.trans ?_ fun m => restored_guards b c m
  intro s
  have hquiet := quiet_admission b c s
  exact ⟨hquiet.map, hquiet.loaded, hquiet.registry⟩

/-- A load that reports an error leaves the symbol map, the set of loaded modules and the
registry of apertures as they were. -/
theorem failed_load_changes_nothing (b : Build σ) (c : Container) (s : Loader σ) {e : LoadError}
    {s' : Loader σ} (h : loadModule b c s = (.error (.error e), s')) :
    s'.map = s.map ∧ s'.loaded = s.loaded ∧ s'.registry = s.registry := by
  have hrestored := restored_loadModule b c s _ s' h
  exact ⟨hrestored.map, hrestored.loaded, hrestored.registry⟩

/-- A target at the lowest trust level, with a fixed address for each kind of region. -/
def ramBuild : Build Unit where
  ops := {
    allocExec := fun n _ => (.ok { base := 0x1000, bytes := List.replicate n 0 }, ())
    allocRo := fun n _ => (.ok { base := 0x2000, bytes := List.replicate n 0 }, ())
    allocRw := fun n _ => (.ok { base := 0x3000, bytes := List.replicate n 0 }, ())
    makeExec := fun r _ => (.ok r, ())
    verifySig := fun _ _ _ => false
    expectedAbiHash := fun _ => 0
    dsRemainingSlots := fun _ => 0xFFFFFFFF
    platformHash := fun _ => none
    apertureTable := fun _ => []
    trustLevel := fun _ => .zero
    verifyPolicy := fun _ => .off
    placementPolicy := fun _ => .copyToRam
    unwrapCek := fun _ _ _ => none
    call := fun _ s => s }
  width := .w64
  arm := false
  encryption := false
  verifyManifest := false
  sha256 := fun _ => []
  decryptPayload := fun _ _ _ _ _ => none

def Loader.start : Loader Unit :=
  { platform := (), map := .empty, loaded := .empty, registry := .empty, calls := [] }

def smallModule (exports : List (UInt64 × Bytes)) (sharing : List UInt8) : Option Container := do
  let modinfo ← ModInfo.encodeInto 1024 [0x6d]
    (exports.map fun (symHash, name) =>
      { symHash, name, effects := 0, requiresCaps := 0, stackBound := 0 })
    [] 0 0 (sharing.map fun c => { resHash := 1, sharingClass := c, lockPrim := 0 }) 0 []
  let k : Contents :=
    { abiHash := 0, envelope := [], modinfo, code := [0xc3], rodata := [], data := [], bssLen := 0
      relocs := [] }
  let hdr ← computeLayout .wraps k.abiHash k.lens
  (Container.parse .w64 (k.assemble hdr)).toOption

def sharedModule : Container :=
  (smallModule [(1, MOD_INIT_NAME), (2, [0x66])] [1]).get (by decide +kernel)

def sharedModuleState : Loader Unit := (loadModule ramBuild sharedModule .start).2

theorem sharedModule_rejected : loadModule ramBuild sharedModule .start =
    (.error (.error .resourceSharingMismatch), sharedModuleState) := by
  have hresult : (loadModule ramBuild sharedModule .start).1 =
    .error (.error .resourceSharingMismatch) := by decide +kernel
  rw [← hresult, sharedModuleState, Prod.mk.eta]

/-- The load fails after the export is registered, and the map is empty again. -/
theorem sharedModule_changes_nothing :
    sharedModuleState.map = Loader.start.map ∧ sharedModuleState.loaded = Loader.start.loaded ∧
      sharedModuleState.registry = Loader.start.registry :=
  failed_load_changes_nothing ramBuild sharedModule .start sharedModule_rejected

end Tyu

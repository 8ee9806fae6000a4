import Tyu.Loader.Exports

/-! # The initialiser and the checks behind it -/

namespace Tyu

open Lib Lib.Wire Loader

variable {σ : Type}

def Loader.called (b : Build σ) (addr : UInt64) (s : Loader σ) : Loader σ :=
  { s with platform := b.ops.call addr s.platform, calls := s.calls ++ [addr] }

def initPtr (b : Build σ) (modinfo : Bytes) (codeBase : UInt64) (code : Region) :
    Option UInt64 :=
  match lookupModInit b modinfo codeBase with
  | .ok initAddr =>
    if initAddr = 0 ∨ ¬ codeBase ≤ initAddr then none
    else code.entry (initAddr - codeBase).toNat
  | .error _ => none

variable {b : Build σ} {w : PtrWidth} {mi : ModInfo} {s : Loader σ} {c : Container} {m : Admitted}

theorem runInit_of_some {modinfo : Bytes} {codeBase ptr : UInt64} {code : Region}
    (h : initPtr b modinfo codeBase code = some ptr) (s : Loader σ) :
    ∃ initAddr, runInitIfPresent b modinfo codeBase code s = (.ok initAddr, s.called b ptr) := by
  unfold initPtr at h
  cases hlookup : lookupModInit b modinfo codeBase with
  | error stop =>
    rw [hlookup] at h
    cases h
  | ok initAddr =>
    simp only [hlookup] at h
    split at h
    · cases h
    · rename_i hcond
      obtain ⟨hne, hle⟩ := not_or.mp hcond
      refine ⟨initAddr, ?_⟩
      unfold runInitIfPresent
      rw [Stoppable.bind_of_ok (Stoppable.ofExcept_eq_ok.mpr ⟨hlookup, rfl⟩), if_neg hne,
        Stoppable.bind_of_ok (Load.check_eq_ok (u := ()).mpr ⟨not_not.mp hle, rfl⟩),
        Stoppable.bind_of_ok (Stoppable.ofExcept_eq_ok.mpr ⟨expect_eq_ok.mpr h, rfl⟩)]
      rfl

theorem runInit_of_none {modinfo : Bytes} {codeBase : UInt64} {code : Region}
    (h : initPtr b modinfo codeBase code = none) (s : Loader σ) :
    (runInitIfPresent b modinfo codeBase code s).2 = s := by
  unfold initPtr at h
  unfold runInitIfPresent
  cases hlookup : lookupModInit b modinfo codeBase with
  | error stop => rfl
  | ok initAddr =>
    simp only [hlookup] at h
    rw [Stoppable.bind_of_ok (Stoppable.ofExcept_eq_ok.mpr ⟨rfl, rfl⟩)]
    by_cases hzero : initAddr = 0
    · rw [if_pos hzero]
      rfl
    rw [if_neg hzero]
    by_cases hle : codeBase ≤ initAddr
    · rw [if_neg (not_or.mpr ⟨hzero, not_not_intro hle⟩)] at h
      rw [Stoppable.bind_of_ok (Load.check_eq_ok (u := ()).mpr ⟨hle, rfl⟩), h]
      rfl
    · have hcheck : Load.check (codeBase ≤ initAddr) .badContainer s =
          (.error (.error .badContainer), s) := by
        unfold Load.check require
        rw [if_neg hle]
        rfl
      rw [Stoppable.bind_of_error hcheck]

/-! ## The checks behind the call -/

def Decides (x : Except Stop PUnit) : Prop := x = .ok ⟨⟩ ∨ ∃ e, x = .error (.error e)

theorem decides_require (c : Prop) [Decidable c] (e : LoadError) :
    Decides (require c (.error e)) := by
  unfold require
  split
  · exact .inl rfl
  · exact .inr ⟨e, rfl⟩

theorem decides_bind {x : Except Stop PUnit} {f : PUnit → Except Stop PUnit} (hx : Decides x)
    (hf : Decides (f ⟨⟩)) : Decides (x >>= f) := by
  rcases hx with rfl | ⟨e, rfl⟩
  · exact hf
  · exact .inr ⟨e, rfl⟩

theorem decides_forM {τ : Type} {f : τ → Except Stop PUnit} {ts : List τ}
    (hf : ∀ t ∈ ts, Decides (f t)) : Decides (ts.forM f) := by
  induction ts with
  | nil => exact .inl rfl
  | cons t ts ih =>
    exact decides_bind (hf t List.mem_cons_self) (ih fun u hu => hf u (List.mem_cons_of_mem _ hu))

theorem decides_checkStackBound {modinfo : Bytes} {i : UInt32} {exp : ParsedExport} (peak : UInt32)
    (hexp : (readExport w modinfo i).run = some (some exp)) (hstamped : exp.name ≠ MOD_INIT_NAME →
      ∃ stamped, readWordMetaStackBound w modinfo exp.valueOff = .ok stamped) :
    Decides (checkStackBound w modinfo peak i) := by
  have hread : readExportOrFail w modinfo i = .ok exp := Read.orError_eq_ok.mpr hexp
  unfold checkStackBound
  rw [hread]
  show Decides (if exp.name = MOD_INIT_NAME then pure ⟨⟩ else _)
  by_cases hinit : exp.name = MOD_INIT_NAME
  · rw [if_pos hinit]
    exact .inl rfl
  · obtain ⟨stamped, hok⟩ := hstamped hinit
    rw [if_neg hinit, hok]
    exact decides_bind (decides_require _ _) (decides_bind (decides_require _ _)
      (decides_require _ _))

theorem decides_verifyTrustTwo {modinfo : Bytes} {remaining : UInt32} (trust : TrustLevel)
    (code : Bytes) (hdecode : (ModInfo.decode w modinfo).run = some (some mi))
    (h : validateModinfoForLoad w modinfo remaining = .ok ⟨⟩) :
    Decides (verifyTrustTwoStackBounds w trust code modinfo) := by
  unfold verifyTrustTwoStackBounds
  split
  · exact .inl rfl
  · split
    · exact .inl rfl
    · have hmi : (ModInfo.decode w modinfo).orError .badContainer = .ok mi :=
        Read.orError_eq_ok.mpr hdecode
      rw [hmi]
      refine decides_forM fun i hi => ?_
      obtain ⟨exp, hexp, hstamped⟩ := readable_of_valid hdecode h hi
      exact decides_checkStackBound (rederived code) hexp hstamped

theorem decides_checkSharingFrom {modinfo : Bytes}
    (hdecode : (ModInfo.decode w modinfo).run = some (some mi)) (n : Nat) (index : UInt32) :
    Decides (checkSharingFrom w modinfo n index) := by
  induction n generalizing index with
  | zero => exact .inl rfl
  | succ n ih =>
    have htotal := total_readResMeta hdecode index
    unfold checkSharingFrom
    split
    · rename_i hnone
      exact absurd hnone htotal
    · exact .inl rfl
    · exact decides_bind (decides_require _ _) (ih _)

theorem decides_checkResourceSharing {modinfo : Bytes}
    (hdecode : (ModInfo.decode w modinfo).run = some (some mi)) :
    Decides (checkResourceSharing w modinfo) := by
  unfold checkResourceSharing
  split
  · exact .inl rfl
  · exact decides_checkSharingFrom hdecode _ _

/-- The exports fit the map, the bounds hold of the code, no resource is shared, and there is
room in the set. -/
structure Passes (b : Build σ) (m : Admitted) (r : Ready) (s : Loader σ) : Prop where
  exports : s.map.Accepts (exportsOf b.width m.modinfo)
  bounds : verifyTrustTwoStackBounds b.width (b.ops.trustLevel s.platform) r.code.bytes
    m.modinfo = .ok ⟨⟩
  sharing : checkResourceSharing b.width m.modinfo = .ok ()
  room : s.loaded.length < LOADED_CAP

theorem insert_outcome {id : UInt64} (h : s.loaded.contains id = false) :
    LoadOutcome (Load.insert id) s (s.loaded.length < LOADED_CAP) fun _ => True := by
  have hinsert : s.loaded.insert id = expect (s.loaded.append id) .moduleAlreadyLoaded := by
    unfold LoadedSet.insert
    rw [h, if_neg Bool.false_ne_true]
  unfold Load.insert LoadOutcome
  dsimp only
  rw [hinsert]
  cases happend : s.loaded.append id with
  | some loaded => exact .inl ⟨(Journal.append_eq_some.mp happend).1, _, rfl, trivial⟩
  | none => exact .inr ⟨Nat.not_lt.mpr (Journal.append_eq_none.mp happend), _, _, rfl⟩

theorem settle_outcome {s₀ : Loader σ} (hadmitted : AdmittedBy b c s₀ m) (r : Ready)
    (hloaded : s.loaded = s₀.loaded) :
    LoadOutcome (settle b m r) s (Passes b m r s) fun _ => True := by
  obtain ⟨mi, hdecode, -⟩ := hadmitted.decoded
  obtain ⟨remaining, hvalid⟩ := hadmitted.valid
  unfold settle LoadOutcome
  rcases registerExports_admitted hadmitted r.codeBase s with
    ⟨haccepts, s₁, hrun, -, hframe⟩ | ⟨hrefused, e, s₁, hrun⟩
  · rw [Stoppable.bind_of_ok hrun, Stoppable.bind_of_ok (Load.ask_eq_ok.mpr ⟨rfl, rfl⟩)]
    have hplatform : s₁.platform = s.platform := by rw [hframe]
    have hloaded₁ : s₁.loaded = s.loaded := by rw [hframe]
    rw [hplatform]
    rcases decides_verifyTrustTwo (b.ops.trustLevel s.platform) r.code.bytes hdecode hvalid with
      hbounds | ⟨e, hbounds⟩
    · rw [Stoppable.bind_of_ok (Stoppable.ofExcept_eq_ok.mpr ⟨hbounds, rfl⟩)]
      rcases decides_checkResourceSharing hdecode with hsharing | ⟨e, hsharing⟩
      · rw [Stoppable.bind_of_ok (Stoppable.ofExcept_eq_ok.mpr ⟨hsharing, rfl⟩)]
        have hunknown : s₁.loaded.contains m.moduleId = false := by
          rw [hloaded₁, hloaded]
          exact hadmitted.unknown
        rcases insert_outcome hunknown with ⟨hroom, hdone⟩ | ⟨hfull, hfail⟩
        · rw [hloaded₁] at hroom
          exact .inl ⟨⟨haccepts, hbounds, hsharing, hroom⟩, hdone⟩
        · rw [hloaded₁] at hfull
          exact .inr ⟨fun hpasses => hfull hpasses.room, hfail⟩
      · refine .inr ⟨fun hpasses => ?_, e, s₁, Stoppable.bind_of_error ?_⟩
        · rw [hpasses.sharing] at hsharing
          cases hsharing
        · exact Stoppable.ofExcept_eq_error.mpr ⟨hsharing, rfl⟩
    · refine .inr ⟨fun hpasses => ?_, e, s₁, Stoppable.bind_of_error ?_⟩
      · rw [hpasses.bounds] at hbounds
        cases hbounds
      · exact Stoppable.ofExcept_eq_error.mpr ⟨hbounds, rfl⟩
  · exact .inr ⟨fun hpasses => hrefused hpasses.exports, e, s₁, Stoppable.bind_of_error hrun⟩

def Loader.SameCalls (s s' : Loader σ) : Prop := s'.calls = s.calls

instance : Frame (SameCalls (σ := σ)) where
  quiet := Quiet.calls
  trans := fun _ _ _ h h' => Eq.trans h' h

theorem sameCalls_register (hash : UInt64) (name : Bytes) (addr : UInt64) :
    (Load.register hash name addr).Moves (SameCalls (σ := σ)) := by
  intro s
  unfold Load.register
  cases s.map.registerWithHash hash name addr with
  | ok map => rfl
  | error e => rfl

theorem sameCalls_insert (id : UInt64) : (Load.insert id).Moves (SameCalls (σ := σ)) := by
  intro s
  unfold Load.insert
  cases s.loaded.insert id with
  | ok loaded => rfl
  | error e => rfl

theorem sameCalls_settle (b : Build σ) (m : Admitted) (r : Ready) :
    (settle b m r).Moves SameCalls := by
  unfold settle registerExports
  refine Load.moves_bind ?_ fun _ => ?_
  · refine Load.moves_ite (Load.moves_pure _) (Load.moves_bind (Load.moves_ofExcept _) fun mi => ?_)
    refine Load.moves_forM (fun i => ?_) _
    unfold registerExport
    refine Load.moves_bind (Load.moves_ofExcept _) fun exp => ?_
    exact Load.moves_ite (Load.moves_pure _) (sameCalls_register _ _ _)
  · refine Load.moves_bind (Load.moves_ask _) fun trust => ?_
    refine Load.moves_bind (Load.moves_ofExcept _) fun _ => ?_
    refine Load.moves_bind (Load.moves_ofExcept _) fun _ => ?_
    exact sameCalls_insert m.moduleId

theorem guarded_calls {α : Type} {x : Load σ α} {s' : Loader σ} {stop : Stop} :
    (Stoppable.guarded rollbackMap <| Stoppable.guarded rollbackRegistry x) s =
        (.error stop, s') → ∃ mid, x s = (.error stop, mid) ∧ s'.calls = mid.calls := by
  intro h
  obtain ⟨_, hinner, rfl⟩ := Stoppable.guarded_eq_error.mp h
  obtain ⟨mid, hx, rfl⟩ := Stoppable.guarded_eq_error.mp hinner
  exact ⟨mid, hx, rfl⟩

/-! ## The whole -/

def RejectedUnrun (b : Build σ) (c : Container) (s : Loader σ) : Prop :=
  ∀ e s', loadModule b c s = (.error (.error e), s') → s'.calls = s.calls

def InitAccepted (b : Build σ) (c : Container) (s : Loader σ) : Prop :=
  ∀ m s₁ r s₂ ptr, admission b c s = (.ok m, s₁) → place b c m s₁ = (.ok r, s₂) →
    initPtr b m.modinfo r.codeBase r.code = some ptr → Passes b m r (s₂.called b ptr)

/-- A module that gets to its initialiser and fails a check behind it is rejected after it
has run. -/
theorem rejected_after_run {s₁ s₂ : Loader σ} {r : Ready} {ptr : UInt64}
    (hadm : admission b c s = (.ok m, s₁)) (hplace : place b c m s₁ = (.ok r, s₂))
    (hptr : initPtr b m.modinfo r.codeBase r.code = some ptr)
    (hfails : ¬ Passes b m r (s₂.called b ptr)) :
    ∃ e s', loadModule b c s = (.error (.error e), s') ∧ s'.calls = s.calls ++ [ptr] := by
  have hquiet := (quiet_admission b c).of_ok hadm
  have hreserves := (reserves_place b c m).of_ok hplace
  have hloaded : (s₂.called b ptr).loaded = s.loaded := hreserves.loaded.trans hquiet.loaded
  obtain ⟨initAddr, hrun⟩ := runInit_of_some hptr s₂
  rcases settle_outcome (admittedBy_of_ok hadm) r hloaded with ⟨hpasses, -⟩ | ⟨-, e, mid, hsettle⟩
  · exact absurd hpasses hfails
  have hcalls : mid.calls = s.calls ++ [ptr] := by
    have hsame := (sameCalls_settle b m r).fails _ _ _ hsettle
    have hcalled : (s₂.called b ptr).calls = s₂.calls ++ [ptr] := rfl
    rw [show mid.calls = (s₂.called b ptr).calls from hsame, hcalled, hreserves.calls, hquiet.calls]
  have hinstall : install b c m s₁ = (.error (.error e), mid) := by
    unfold install
    rw [Stoppable.bind_of_ok hplace, Stoppable.bind_of_ok hrun, Stoppable.bind_of_error hsettle]
  refine ⟨e, rollbackMap s₁ (rollbackRegistry s₁ mid), ?_, hcalls⟩
  unfold loadModule
  rw [Stoppable.bind_of_ok hadm]
  exact Stoppable.guarded_eq_error.mpr
    ⟨_, Stoppable.guarded_eq_error.mpr ⟨mid, hinstall, rfl⟩, rfl⟩

theorem install_calls {s₁ mid : Loader σ} {e : LoadError} (hadm : admission b c s = (.ok m, s₁))
    (haccepted : InitAccepted b c s) (h : install b c m s₁ = (.error (.error e), mid)) :
    mid.calls = s₁.calls := by
  unfold install at h
  rcases Stoppable.bind_eq_error.mp h with hplace | ⟨r, s₂, hplace, h⟩
  · exact ((reserves_place b c m).fails _ _ _ hplace).calls
  have hreserves := (reserves_place b c m).of_ok hplace
  cases hptr : initPtr b m.modinfo r.codeBase r.code with
  | none =>
    have hsame := runInit_of_none hptr s₂
    rcases Stoppable.bind_eq_error.mp h with hrun | ⟨initAddr, s₃, hrun, h⟩
    · rw [hrun] at hsame
      rw [show mid = s₂ from hsame]
      exact hreserves.calls
    · rw [hrun] at hsame
      rw [show s₃ = s₂ from hsame] at h
      rcases Stoppable.bind_eq_error.mp h with hsettle | ⟨_, _, _, hpure⟩
      · have hcalls := (sameCalls_settle b m r).fails _ _ _ hsettle
        exact Eq.trans hcalls hreserves.calls
      · cases hpure
  | some ptr =>
    have hquiet := (quiet_admission b c).of_ok hadm
    have hloaded : (s₂.called b ptr).loaded = s.loaded := hreserves.loaded.trans hquiet.loaded
    obtain ⟨initAddr, hrun⟩ := runInit_of_some hptr s₂
    rw [Stoppable.bind_of_ok hrun] at h
    rcases settle_outcome (admittedBy_of_ok hadm) r hloaded with ⟨-, s₃, hok, -⟩ | ⟨hfails, -⟩
    · rw [Stoppable.bind_of_ok hok] at h
      cases h
    · exact absurd (haccepted m s₁ r s₂ ptr hadm hplace hptr) hfails

end Tyu

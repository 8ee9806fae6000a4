import Tyu.Loader.Atomic

/-! # Exports -/

namespace Tyu

open Lib Lib.Wire Loader

variable {σ : Type}

def exportsAt (w : PtrWidth) (modinfo : Bytes) (is : List UInt32) : List ParsedExport :=
  is.filterMap fun i =>
    match (readExport w modinfo i).run with
    | some (some exp) => if exp.name = MOD_INIT_NAME then none else some exp
    | _ => none

def exportsOf (w : PtrWidth) (modinfo : Bytes) : List ParsedExport :=
  match (ModInfo.decode w modinfo).run with
  | some (some mi) => exportsAt w modinfo (indices mi.exportCount)
  | _ => []

def ParsedExport.entry (exp : ParsedExport) (addr : UInt64) : SymEntry :=
  { hash := exp.symHash, name := exp.name, addr }

structure SymMap.Accepts (map : SymMap) (es : List ParsedExport) : Prop where
  fresh : ∀ e ∈ es, map.Fresh e.symHash e.name
  apart : es.Pairwise fun e e' => e.symHash ≠ e'.symHash ∧ (e'.name ≠ [] → e.name ≠ e'.name)
  room : map.length + es.length ≤ SYMBOL_CAP

theorem exportsAt_cons {w : PtrWidth} {modinfo : Bytes} {i : UInt32} {is : List UInt32}
    {exp : ParsedExport} (h : (readExport w modinfo i).run = some (some exp)) :
    exportsAt w modinfo (i :: is) =
      if exp.name = MOD_INIT_NAME then exportsAt w modinfo is
      else exp :: exportsAt w modinfo is := by
  unfold exportsAt
  rw [List.filterMap_cons, h]
  by_cases hinit : exp.name = MOD_INIT_NAME
  · simp only [if_pos hinit]
  · simp only [if_neg hinit]

namespace SymMap

theorem accepts_nil {map : SymMap} : map.Accepts [] where
  fresh := fun _ he => nomatch he
  apart := .nil
  room := map.bounded

theorem accepts_cons {map : SymMap} {e : ParsedExport} {es : List ParsedExport} {addr : UInt64} :
    map.Accepts (e :: es) ↔
      ∃ map', map.registerWithHash e.symHash e.name addr = .ok map' ∧ map'.Accepts es := by
  constructor
  · intro h
    have hroom := h.room
    rw [List.length_cons] at hroom
    have hlt : map.length < SYMBOL_CAP := by omega
    cases happend : map.append (e.entry addr) with
    | none =>
      have hfull := Journal.append_eq_none.mp happend
      omega
    | some map' =>
      have hitems := (Journal.append_eq_some.mp happend).2
      have hregister : map.registerWithHash e.symHash e.name addr = .ok map' :=
        registerWithHash_eq_ok.mpr ⟨h.fresh e List.mem_cons_self, happend⟩
      have hapart := List.pairwise_cons.mp h.apart
      refine ⟨map', hregister, ?_, hapart.2, ?_⟩
      · intro e' he' old hold
        rw [hitems, List.mem_append, List.mem_singleton] at hold
        rcases hold with hold | rfl
        · exact h.fresh e' (List.mem_cons_of_mem _ he') old hold
        · exact hapart.1 e' he'
      · have hlen : map'.length = map.length + 1 := by
          show map'.items.length = map.items.length + 1
          rw [hitems, List.length_append, List.length_singleton]
        omega
  · intro ⟨map', hregister, h⟩
    obtain ⟨hfresh, happend⟩ := registerWithHash_eq_ok.mp hregister
    obtain ⟨hlt, hitems⟩ := Journal.append_eq_some.mp happend
    have hlast : e.entry addr ∈ map'.items := by
      rw [hitems]
      exact List.mem_append_right _ (List.mem_singleton.mpr rfl)
    refine ⟨?_, ?_, ?_⟩
    · intro e' he'
      rcases List.mem_cons.mp he' with rfl | he'
      · exact hfresh
      · intro old hold
        refine h.fresh e' he' old ?_
        rw [hitems]
        exact List.mem_append_left _ hold
    · exact List.pairwise_cons.mpr ⟨fun e' he' => h.fresh e' he' _ hlast, h.apart⟩
    · have hlen : map'.length = map.length + 1 := by
        show map'.items.length = map.items.length + 1
        rw [hitems, List.length_append, List.length_singleton]
      have hroom := h.room
      rw [List.length_cons]
      omega

end SymMap

def Readable (w : PtrWidth) (modinfo : Bytes) (is : List UInt32) : Prop :=
  ∀ i ∈ is, ∃ exp, (readExport w modinfo i).run = some (some exp)

/-- How a stage ends from a state: it does its work, or it reports an error. -/
def LoadOutcome (x : Load σ PUnit) (s : Loader σ) (accepts : Prop) (after : Loader σ → Prop) : Prop :=
  (accepts ∧ ∃ s', x s = (.ok ⟨⟩, s') ∧ after s') ∨
    (¬ accepts ∧ ∃ e s', x s = (.error (.error e), s'))

theorem registerExport_of_read {b : Build σ} {modinfo : Bytes} {i : UInt32} {exp : ParsedExport}
    (codeBase : UInt64) (h : (readExport b.width modinfo i).run = some (some exp))
    (s : Loader σ) :
    registerExport b modinfo codeBase i s =
      if exp.name = MOD_INIT_NAME then (.ok ⟨⟩, s)
      else Load.register exp.symHash exp.name (moduleFnAddr b codeBase) s := by
  have hread : readExportOrFail b.width modinfo i = .ok exp := Read.orError_eq_ok.mpr h
  unfold registerExport
  rw [Stoppable.bind_of_ok (Stoppable.ofExcept_eq_ok.mpr ⟨hread, rfl⟩)]
  by_cases hinit : exp.name = MOD_INIT_NAME
  · rw [if_pos hinit, if_pos hinit]
    rfl
  · rw [if_neg hinit, if_neg hinit]

theorem registerExports_outcome {b : Build σ} {modinfo : Bytes} (codeBase : UInt64)
    {is : List UInt32} (hread : Readable b.width modinfo is) (s : Loader σ) :
    LoadOutcome (is.forM (registerExport b modinfo codeBase)) s
      (s.map.Accepts (exportsAt b.width modinfo is)) fun s' =>
        s'.map.items = s.map.items ++
          (exportsAt b.width modinfo is).map (ParsedExport.entry · (moduleFnAddr b codeBase)) ∧
        s' = { s with map := s'.map } := by
  induction is generalizing s with
  | nil => exact .inl ⟨SymMap.accepts_nil, s, rfl, (List.append_nil _).symm, rfl⟩
  | cons i is ih =>
    obtain ⟨exp, hexp⟩ := hread i List.mem_cons_self
    have hrest : Readable b.width modinfo is := fun j hj => hread j (List.mem_cons_of_mem _ hj)
    have hfirst := registerExport_of_read codeBase hexp s
    rw [exportsAt_cons hexp]
    by_cases hinit : exp.name = MOD_INIT_NAME
    · rw [if_pos hinit] at hfirst ⊢
      have hstep : (i :: is).forM (registerExport b modinfo codeBase) s =
          is.forM (registerExport b modinfo codeBase) s := Stoppable.bind_of_ok hfirst
      unfold LoadOutcome
      rw [hstep]
      exact ih hrest s
    · rw [if_neg hinit] at hfirst ⊢
      unfold Load.register at hfirst
      cases hregister : s.map.registerWithHash exp.symHash exp.name (moduleFnAddr b codeBase) with
      | error e =>
        rw [hregister] at hfirst
        refine .inr ⟨fun haccepts => ?_, _, s, Stoppable.bind_eq_error.mpr (.inl hfirst)⟩
        obtain ⟨map', hok, -⟩ := SymMap.accepts_cons.mp haccepts
        rw [hregister] at hok
        cases hok
      | ok map =>
        rw [hregister] at hfirst
        have hstep : (i :: is).forM (registerExport b modinfo codeBase) s =
            is.forM (registerExport b modinfo codeBase) { s with map } :=
          Stoppable.bind_of_ok hfirst
        have haccepts : s.map.Accepts (exp :: exportsAt b.width modinfo is) ↔
            map.Accepts (exportsAt b.width modinfo is) := by
          constructor
          · intro h
            obtain ⟨map', hok, hmap'⟩ := SymMap.accepts_cons.mp h
            rw [hregister] at hok
            cases hok
            exact hmap'
          · exact fun h => SymMap.accepts_cons.mpr ⟨map, hregister, h⟩
        unfold LoadOutcome
        rw [hstep, haccepts]
        rcases ih hrest { s with map } with ⟨hyes, s', hrun, hitems, hframe⟩ | ⟨hno, hrun⟩
        · refine .inl ⟨hyes, s', hrun, ?_, hframe⟩
          rw [hitems, SymMap.items_registerWithHash hregister, List.map_cons, List.append_assoc]
          rfl
        · exact .inr ⟨hno, hrun⟩

/-! ## What admission has checked -/

structure AdmittedBy (b : Build σ) (c : Container) (s : Loader σ) (m : Admitted) : Prop where
  modinfo : c.modinfo b.width = some m.modinfo
  unknown : s.loaded.contains m.moduleId = false
  decoded : ∃ mi, (ModInfo.decode b.width m.modinfo).run = some (some mi) ∧
    m.moduleId = fnv1aU64 mi.moduleName
  valid : ∃ remaining, validateModinfoForLoad b.width m.modinfo remaining = .ok ⟨⟩

theorem admittedBy_of_ok {b : Build σ} {c : Container} {s s' : Loader σ} {m : Admitted}
    (h : admission b c s = (.ok m, s')) : AdmittedBy b c s m := by
  unfold admission at h
  obtain ⟨expected, _, hexpected, h⟩ := Stoppable.bind_eq_ok.mp h
  obtain ⟨-, rfl⟩ := Load.ask_eq_ok.mp hexpected
  obtain ⟨_, _, hcheck, h⟩ := Stoppable.bind_eq_ok.mp h
  obtain ⟨-, rfl⟩ := Load.check_eq_ok.mp hcheck
  obtain ⟨modinfo, _, hmodinfo, h⟩ := Stoppable.bind_eq_ok.mp h
  obtain ⟨hsection, rfl⟩ := Load.orPanic_eq_ok.mp hmodinfo
  obtain ⟨mi, _, hdecode, h⟩ := Stoppable.bind_eq_ok.mp h
  obtain ⟨hmi, rfl⟩ := Stoppable.ofExcept_eq_ok.mp hdecode
  obtain ⟨_, _, hget, h⟩ := Stoppable.bind_eq_ok.mp h
  obtain ⟨rfl, rfl⟩ := Stoppable.get_eq_ok.mp hget
  obtain ⟨_, _, hset, h⟩ := Stoppable.bind_eq_ok.mp h
  obtain ⟨hunknown, rfl⟩ := Load.check_eq_ok.mp hset
  obtain ⟨trust, _, htrust, h⟩ := Stoppable.bind_eq_ok.mp h
  obtain ⟨-, rfl⟩ := Load.ask_eq_ok.mp htrust
  obtain ⟨_, _, hcheck, h⟩ := Stoppable.bind_eq_ok.mp h
  obtain ⟨-, rfl⟩ := Load.check_eq_ok.mp hcheck
  obtain ⟨platform, _, hplatform, h⟩ := Stoppable.bind_eq_ok.mp h
  obtain ⟨-, rfl⟩ := Load.ask_eq_ok.mp hplatform
  obtain ⟨_, _, hsig, h⟩ := Stoppable.bind_eq_ok.mp h
  obtain ⟨-, rfl⟩ := Stoppable.ofExcept_eq_ok.mp hsig
  obtain ⟨decrypt, m₁, -, h⟩ := Stoppable.bind_eq_ok.mp h
  obtain ⟨platform, _, hplatform, h⟩ := Stoppable.bind_eq_ok.mp h
  obtain ⟨-, rfl⟩ := Load.ask_eq_ok.mp hplatform
  obtain ⟨_, _, hinfo, h⟩ := Stoppable.bind_eq_ok.mp h
  obtain ⟨hvalid, rfl⟩ := Stoppable.ofExcept_eq_ok.mp hinfo
  obtain ⟨_, _, hrecord, h⟩ := Stoppable.bind_eq_ok.mp h
  obtain ⟨-, rfl⟩ := Stoppable.ofExcept_eq_ok.mp hrecord
  obtain ⟨rfl, -⟩ := Stoppable.pure_eq_ok.mp h
  exact ⟨hsection, hunknown, ⟨mi, Read.orError_eq_ok.mp hmi, rfl⟩, _, hvalid⟩

theorem isEmpty_of_decode {w : PtrWidth} {modinfo : Bytes} {mi : ModInfo}
    (h : (ModInfo.decode w modinfo).run = some (some mi)) : modinfo.isEmpty = false := by
  cases modinfo with
  | nil => cases h
  | cons x xs => rfl

theorem readable_of_valid {w : PtrWidth} {modinfo : Bytes} {mi : ModInfo} {remaining : UInt32}
    (hdecode : (ModInfo.decode w modinfo).run = some (some mi))
    (h : validateModinfoForLoad w modinfo remaining = .ok ⟨⟩) {i : UInt32}
    (hi : i ∈ indices mi.exportCount) :
    ∃ exp, (readExport w modinfo i).run = some (some exp) ∧
      (exp.name ≠ MOD_INIT_NAME →
        ∃ stamped, readWordMetaStackBound w modinfo exp.valueOff = .ok stamped) := by
  have hempty : ¬ modinfo.isEmpty = true := by
    rw [isEmpty_of_decode hdecode]
    exact Bool.false_ne_true
  unfold validateModinfoForLoad at h
  rw [if_neg hempty] at h
  obtain ⟨mi₁, -, h⟩ := bind_eq_ok.mp h
  obtain ⟨_, -, h⟩ := bind_eq_ok.mp h
  unfold enforceStackBoundBudget at h
  rw [if_neg hempty] at h
  obtain ⟨mi₂, hmi₂, h⟩ := bind_eq_ok.mp h
  have hsame := Read.orError_eq_ok.mp hmi₂
  rw [hdecode] at hsame
  cases hsame
  have hone := forM_eq_ok.mp h i hi
  unfold enforceStackBound at hone
  obtain ⟨exp, hexp, hone⟩ := bind_eq_ok.mp hone
  refine ⟨exp, Read.orError_eq_ok.mp hexp, fun hinit => ?_⟩
  rw [if_neg hinit] at hone
  obtain ⟨stamped, hstamped, -⟩ := bind_eq_ok.mp hone
  exact ⟨stamped, hstamped⟩

theorem registerExports_admitted {b : Build σ} {c : Container} {s₀ : Loader σ} {m : Admitted}
    (hadmitted : AdmittedBy b c s₀ m) (codeBase : UInt64) (s : Loader σ) :
    LoadOutcome (registerExports b m.modinfo codeBase) s
      (s.map.Accepts (exportsOf b.width m.modinfo)) fun s' =>
        s'.map.items = s.map.items ++
          (exportsOf b.width m.modinfo).map (ParsedExport.entry · (moduleFnAddr b codeBase)) ∧
        s' = { s with map := s'.map } := by
  obtain ⟨mi, hdecode, -⟩ := hadmitted.decoded
  obtain ⟨remaining, hvalid⟩ := hadmitted.valid
  have hmi : (ModInfo.decode b.width m.modinfo).orError .badContainer = .ok mi :=
    Read.orError_eq_ok.mpr hdecode
  have hexports : exportsOf b.width m.modinfo =
      exportsAt b.width m.modinfo (indices mi.exportCount) := by
    unfold exportsOf
    rw [hdecode]
  have hread : Readable b.width m.modinfo (indices mi.exportCount) := by
    intro i hi
    obtain ⟨exp, hexp, -⟩ := readable_of_valid hdecode hvalid hi
    exact ⟨exp, hexp⟩
  have hregister : registerExports b m.modinfo codeBase s =
      (indices mi.exportCount).forM (registerExport b m.modinfo codeBase) s := by
    unfold registerExports
    rw [isEmpty_of_decode hdecode, if_neg Bool.false_ne_true]
    exact Stoppable.bind_of_ok (Stoppable.ofExcept_eq_ok.mpr ⟨hmi, rfl⟩)
  unfold LoadOutcome
  rw [hregister, hexports]
  exact registerExports_outcome codeBase hread s

end Tyu

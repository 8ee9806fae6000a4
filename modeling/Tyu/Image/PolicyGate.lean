import Tyu.Image.ClosureExact
import Tyu.Image.Report

/-!
# The policy gate

What an accepted report says of the image, and how its accounting and its lists belong together.
-/

namespace Tyu

open Lib Manifest Relation
open Obl (Kind)

namespace Report

/-! ## Counting -/

def ofKind (k : Kind) (os : List Obligation) : Nat := os.countP fun o => o.kind == k

def resolving (echo : Option Echo) (k : Kind) (status : VerdictStatus) (os : List Obligation) :
    Nat :=
  os.countP fun o => o.kind == k && resolvedStatus o echo == status

def tally (echo : Option Echo) (os : List Obligation) (k : Kind) : ClassAccounting where
  kind := k.asStr
  total := UInt32.ofNat (ofKind k os)
  discharged := UInt32.ofNat (resolving echo k .discharged os)
  assumed := UInt32.ofNat (resolving echo k .assumed os)
  opened := UInt32.ofNat (resolving echo k .opened os)

theorem saturatingSucc_ofNat {n : Nat} (h : n + 1 < 2 ^ 32) :
    Closure.saturatingSucc (UInt32.ofNat n) = UInt32.ofNat (n + 1) := by
  unfold Closure.saturatingSucc
  have hne : UInt32.ofNat n ≠ 0xFFFFFFFF := by
    intro heq
    have hnat := congrArg UInt32.toNat heq
    rw [UInt32.toNat_ofNat_of_lt' (show n < 2 ^ 32 by omega)] at hnat
    have hlit : (4294967295 : UInt32).toNat = 4294967295 := rfl
    omega
  rw [if_neg hne]
  exact (UInt32.ofNat_add n 1).symm

theorem ofKind_le (k : Kind) (os : List Obligation) : ofKind k os ≤ os.length := List.countP_le_length

theorem ofKind_eq (echo : Option Echo) (k : Kind) (os : List Obligation) :
    ofKind k os = resolving echo k .discharged os + resolving echo k .assumed os +
      resolving echo k .opened os := by
  unfold ofKind resolving
  induction os with
  | nil => rfl
  | cons o os ih =>
    simp only [List.countP_cons, ih]
    by_cases hk : (o.kind == k) = true
    · cases resolvedStatus o echo <;> simp [hk] <;> omega
    · simp [hk]

variable {os : List Obligation} {o : Obligation} {k : String × String} {m : LoadedModule}
  {modules : List LoadedModule} {c : Closure.ImageClosure}

theorem tally_count (echo : Option Echo) (o : Obligation) (h : os.length + 1 < 2 ^ 32) :
    (tally echo os o.kind).count (resolvedStatus o echo) = tally echo (os ++ [o]) o.kind := by
  have hle := ofKind_le o.kind os
  have htotal : ofKind o.kind (os ++ [o]) = ofKind o.kind os + 1 := by
    simp [ofKind, List.countP_append]
  have hstatus : ∀ status, resolving echo o.kind status (os ++ [o]) =
      resolving echo o.kind status os + if resolvedStatus o echo = status then 1 else 0 := by
    intro status
    by_cases hs : resolvedStatus o echo = status <;> simp [resolving, List.countP_append, hs]
  unfold ClassAccounting.count tally
  rw [htotal, hstatus, hstatus, hstatus, saturatingSucc_ofNat (by omega)]
  cases resolvedStatus o echo <;> simp [UInt32.ofNat_add]

theorem tally_other (echo : Option Echo) (os : List Obligation) {k : Kind} (h : o.kind ≠ k) :
    tally echo (os ++ [o]) k = tally echo os k := by
  simp [tally, ofKind, resolving, List.countP_append, h]

theorem count_classes {echo : Option Echo} {a : Accounting}
    (h : a.classes = KIND_ORDER.map (tally echo os)) (hlen : os.length + 1 < 2 ^ 32) :
    (a.count echo o).classes = KIND_ORDER.map (tally echo (os ++ [o])) := by
  have hshort : ¬ a.classes.length ≤ kindIdx o.kind := by
    rw [h, List.length_map]
    cases o.kind <;> decide
  have hclasses : (a.count echo o).classes =
      a.classes.modify (kindIdx o.kind) fun c => c.count (resolvedStatus o echo) := by
    unfold Accounting.count
    rw [if_neg hshort]
    cases resolvedRecord o echo with
    | some rec => rfl
    | none =>
      dsimp only
      split <;> rfl
  rw [hclasses, h]
  have hcount := tally_count echo o hlen
  have hother : ∀ k, o.kind ≠ k → tally echo (os ++ [o]) k = tally echo os k :=
    fun _ => tally_other echo os
  cases hk : o.kind <;> rw [hk] at hcount hother <;>
    simp [KIND_ORDER, kindIdx, hcount, hother, List.modify_cons]

theorem foldl_count_classes {echo : Option Echo} (rest : List Obligation) {a : Accounting}
    (h : a.classes = KIND_ORDER.map (tally echo os)) (hlen : os.length + rest.length < 2 ^ 32) :
    (rest.foldl (Accounting.count echo) a).classes = KIND_ORDER.map (tally echo (os ++ rest)) := by
  induction rest generalizing a os with
  | nil => rw [List.append_nil]; exact h
  | cons o rest ih =>
    rw [List.length_cons] at hlen
    have hstep := count_classes (o := o) h (by omega)
    have hrest := ih hstep (by rw [List.length_append, List.length_singleton]; omega)
    rw [List.append_assoc] at hrest
    exact hrest

theorem classesFor_classes (h : m.obligations.length < 2 ^ 32) :
    (classesFor m).classes = KIND_ORDER.map (tally m.echo m.obligations) := by
  have hlen : ([] : List Obligation).length + m.obligations.length < 2 ^ 32 := by
    rw [List.length_nil]
    omega
  have hstart : (⟨KIND_ORDER.map fun k => .zero k.asStr, {}, {}, {}⟩ : Accounting).classes =
      KIND_ORDER.map (tally m.echo []) := rfl
  exact foldl_count_classes m.obligations hstart hlen

/-! ## What the gate promises -/

def RestsOn (modules : List LoadedModule) (a b : String × String) : Prop :=
  ∃ m ∈ modules, ∃ o ∈ m.obligations, a = (m.name, o.id) ∧ b ∈ Closure.targets o.assumptions

def Closed (modules : List LoadedModule) (k : String × String) : Prop :=
  ∃ m ∈ modules, ∃ o ∈ m.obligations, k = (m.name, o.id) ∧
    Closure.recordClosed ((m.echo.map fun e => e.verdicts.records).getD []) o = true

/-- Some obligation that is not closed, or missing, is reached from this one. -/
def ReachesOpen (modules : List LoadedModule) (k : String × String) : Prop :=
  ∃ k', ReflTransGen (RestsOn modules) k k' ∧ ¬ Closed modules k'

/-- The accounting of every module adds up, and its open count is the number of obligations
that resolve open. -/
def Adds (modules : List LoadedModule) (r : VerifyReport) : Prop :=
  List.Forall₂ (fun m a => a.name = m.name ∧ ∀ k, ∃ c, a.classes[kindIdx k]? = some c ∧
      c.kind = k.asStr ∧
      c.total.toNat = c.discharged.toNat + c.assumed.toNat + c.opened.toNat ∧
      c.opened.toNat = resolving m.echo k .opened m.obligations)
    modules r.modules

def OpenObligation.key (o : OpenObligation) : String × String := (o.module, o.id)

def OpenKeys (modules : List LoadedModule) : List (String × String) :=
  modules.flatMap fun m =>
    (m.obligations.filter fun o => resolvedStatus o m.echo == .opened).map fun o => (m.name, o.id)

theorem mem_closureObligations {e : String × Obligation} :
    e ∈ Closure.imageObligations (closureModules modules) ↔
      ∃ m ∈ modules, m.name = e.1 ∧ e.2 ∈ m.obligations := by
  obtain ⟨name, o⟩ := e
  rw [Closure.mem_imageObligations]
  unfold closureModules
  constructor
  · rintro ⟨m', hm', hname, ho⟩
    obtain ⟨m, hm, rfl⟩ := List.mem_map.mp hm'
    exact ⟨m, hm, hname, ho⟩
  · rintro ⟨m, hm, hname, ho⟩
    exact ⟨_, List.mem_map_of_mem hm, hname, ho⟩

theorem closed_iff :
    (Closure.image (closureModules modules)).closed k = true ↔ Closed modules k := by
  show (Closure.closedKeys (closureModules modules)).contains k = true ↔ _
  rw [List.contains_iff_mem]
  unfold Closure.closedKeys closureModules Closed
  rw [List.flatMap_map]
  simp only [List.mem_flatMap, List.mem_map, List.mem_filter]
  constructor
  · rintro ⟨m, hm, o, ⟨ho, hrec⟩, rfl⟩
    exact ⟨m, hm, o, ho, rfl, hrec⟩
  · rintro ⟨m, hm, o, ho, rfl, hrec⟩
    exact ⟨m, hm, o, ⟨ho, hrec⟩, rfl⟩

theorem compose_eq_ok {s : BuildSettings} {r : VerifyReport} (h : compose s modules = .ok r) :
    ∃ c, Closure.checkImageClosureRecords (closureModules modules) = .ok c ∧
      r.modules = modules.map moduleAccounting ∧ r.opened.Perm (openList modules c) := by
  unfold compose at h
  cases hc : Closure.checkImageClosureRecords (closureModules modules) with
  | error halt =>
    cases halt <;> simp only [hc] at h <;> exact absurd h throw_ne_ok
  | ok c =>
    simp only [hc] at h
    have hr := pure_eq_ok.mp h
    refine ⟨c, rfl, ?_, ?_⟩
    · rw [← hr]
    · rw [← hr]
      exact List.mergeSort_perm _ _

theorem enforcePolicy_noOpen {r : VerifyReport} (h : enforcePolicy r .noOpen = .ok ()) :
    r.opened = [] := by
  unfold enforcePolicy at h
  rw [if_neg (by decide)] at h
  by_contra hne
  have hfalse : r.opened.isEmpty = false := by simpa using hne
  simp [hfalse] at h

theorem none_open (h : openList modules c = []) (hm : m ∈ modules) (ho : o ∈ m.obligations) :
    resolvedStatus o m.echo ≠ .opened := by
  intro hopen
  have hmem : openOf m o ∈ openList modules c := by
    refine List.mem_append_left _ (List.mem_flatMap.mpr ⟨m, hm, List.mem_map_of_mem ?_⟩)
    exact List.mem_filter.mpr ⟨ho, by simp [hopen]⟩
  rw [h] at hmem
  exact absurd hmem List.not_mem_nil

theorem closed_of_reach (hc : Closure.checkImageClosureRecords (closureModules modules) = .ok c)
    (hnone : c.unresolved = []) {a b : String × String} (ha : Closed modules a)
    (hreach : ReflTransGen (RestsOn modules) a b) : Closed modules b := by
  induction hreach with
  | refl => exact ha
  | tail _ hstep ih =>
    obtain ⟨m, hm, o, ho, rfl, hb⟩ := hstep
    have he : (m.name, o) ∈ Closure.imageObligations (closureModules modules) :=
      mem_closureObligations.mpr ⟨m, hm, rfl, ho⟩
    exact closed_iff.mp (Closure.closed_of_none_forced hc hnone he (closed_iff.mpr ih) hb)

def Unique (modules : List LoadedModule) : Prop := Closure.Unique (closureModules modules)

theorem Unique.entry (h : Unique modules) {m' : LoadedModule} {o' : Obligation} (hm : m ∈ modules)
    (ho : o ∈ m.obligations) (hm' : m' ∈ modules) (ho' : o' ∈ m'.obligations)
    (hkey : (m.name, o.id) = (m'.name, o'.id)) : m = m' ∧ o = o' := by
  have he := mem_closureObligations (e := (m.name, o)).mpr ⟨m, hm, rfl, ho⟩
  have he' := mem_closureObligations (e := (m'.name, o')).mpr ⟨m', hm', rfl, ho'⟩
  have hentry : (m.name, o) = (m'.name, o') := List.inj_on_of_nodup_map h.keys he he' hkey
  have hnames : (modules.map fun m => m.name).Nodup := by
    have := h.names
    unfold closureModules at this
    rwa [List.map_map] at this
  exact ⟨List.inj_on_of_nodup_map hnames hm hm' (Prod.mk.inj hkey).1, (Prod.mk.inj hentry).2⟩

theorem Unique.edge_iff (h : Unique modules) {a b : String × String} :
    (Closure.image (closureModules modules)).Edge a b ↔ RestsOn modules a b := by
  show b ∈ (Closure.image (closureModules modules)).rests a ↔ _
  constructor
  · intro hb
    cases hfind : (Closure.imageObligations (closureModules modules)).find?
        fun e => Closure.entryKey e == a with
    | none =>
      have hnil : (Closure.image (closureModules modules)).rests a = [] := by
        show Closure.targets _ = []
        rw [hfind]
        rfl
      rw [hnil] at hb
      exact absurd hb List.not_mem_nil
    | some e =>
      have he := List.mem_of_find?_eq_some hfind
      have hkey : Closure.entryKey e = a := by simpa using List.find?_some hfind
      rw [← hkey, Closure.Unique.rests h he] at hb
      obtain ⟨m, hm, hname, ho⟩ := mem_closureObligations.mp he
      refine ⟨m, hm, e.2, ho, ?_, hb⟩
      rw [← hkey, hname]
      rfl
  · rintro ⟨m, hm, o, ho, rfl, hb⟩
    have he := mem_closureObligations (e := (m.name, o)).mpr ⟨m, hm, rfl, ho⟩
    have hrests := Closure.Unique.rests h he
    show b ∈ (Closure.image (closureModules modules)).rests (Closure.entryKey (m.name, o))
    rw [hrests]
    exact hb

theorem Unique.reachesOpen_iff (h : Unique modules) :
    (Closure.image (closureModules modules)).ReachesOpen k ↔ ReachesOpen modules k := by
  have hedge : (Closure.image (closureModules modules)).Edge = RestsOn modules := by
    funext a b
    exact propext h.edge_iff
  unfold Dependence.ReachesOpen ReachesOpen
  rw [hedge]
  refine exists_congr fun k' => and_congr_right fun _ => ?_
  rw [← closed_iff, Bool.not_eq_true]

theorem not_opened_of_closed
    (h : Closure.recordClosed ((m.echo.map fun e => e.verdicts.records).getD []) o = true) :
    resolvedStatus o m.echo ≠ .opened := by
  unfold resolvedStatus
  unfold Closure.recordClosed at h
  cases hecho : m.echo with
  | none =>
    rw [hecho] at h
    exact absurd h (by simp [Closure.recordOf])
  | some e =>
    rw [hecho] at h
    unfold lookup
    simp only [Option.map_some, Option.getD_some] at h
    cases hrec : Closure.recordOf e.verdicts.records o with
    | none =>
      rw [hrec] at h
      exact absurd h (by simp)
    | some r =>
      rw [hrec] at h
      have hstatus : r.status = .discharged := by
        simp only [Option.map_some, Option.getD_some, Bool.and_eq_true, beq_iff_eq] at h
        exact h.1
      simp [hrec, hstatus]

theorem openList_keys (modules : List LoadedModule) (c : Closure.ImageClosure) :
    (openList modules c).map OpenObligation.key =
      OpenKeys modules ++ c.unresolved.map Closure.UnresolvedDependent.key := by
  unfold openList OpenKeys collectOpen
  rw [List.map_append, List.map_flatMap, List.map_map]
  congr 1
  refine List.flatMap_congr fun m _ => ?_
  rw [List.map_map]
  rfl

theorem mem_openKeys :
    k ∈ OpenKeys modules ↔ ∃ m ∈ modules, ∃ o ∈ m.obligations,
      k = (m.name, o.id) ∧ resolvedStatus o m.echo = .opened := by
  unfold OpenKeys
  simp only [List.mem_flatMap, List.mem_map, List.mem_filter, beq_iff_eq]
  constructor
  · rintro ⟨m, hm, o, ⟨ho, hopen⟩, rfl⟩
    exact ⟨m, hm, o, ho, rfl, hopen⟩
  · rintro ⟨m, hm, o, ho, rfl, hopen⟩
    exact ⟨m, hm, o, ⟨ho, hopen⟩, rfl⟩

theorem Unique.openKeys (h : Unique modules) : (OpenKeys modules).Nodup := by
  refine h.keys.sublist ?_
  unfold OpenKeys Closure.imageObligations closureModules
  rw [List.flatMap_map, List.map_flatMap]
  clear h
  induction modules with
  | nil => exact .slnil
  | cons m modules ih =>
    rw [List.flatMap_cons, List.flatMap_cons]
    refine List.Sublist.append ?_ ih
    rw [List.map_map]
    exact List.filter_sublist.map _

theorem openList_nodup (h : Unique modules)
    (hc : Closure.checkImageClosureRecords (closureModules modules) = .ok c) :
    ((openList modules c).map OpenObligation.key).Nodup := by
  have hreports := (Closure.reports_and_walks h).1
  rw [hc] at hreports
  rw [openList_keys]
  refine List.nodup_append.mpr ⟨h.openKeys, hreports.2, ?_⟩
  rintro k hk k' hk' rfl
  obtain ⟨m, hm, o, ho, hkey, hopen⟩ := mem_openKeys.mp hk
  obtain ⟨m', hm', o', ho', hkey', hclosed⟩ := closed_iff.mp ((hreports.1 k).mp hk').1
  obtain ⟨rfl, rfl⟩ := h.entry hm ho hm' ho' (hkey.symm.trans hkey')
  exact not_opened_of_closed hclosed hopen

theorem adds_of_fits (hfits : ∀ m ∈ modules, m.obligations.length < 2 ^ 32) :
    List.Forall₂ (fun m a => a.name = m.name ∧ ∀ k, ∃ c, a.classes[kindIdx k]? = some c ∧
        c.kind = k.asStr ∧
        c.total.toNat = c.discharged.toNat + c.assumed.toNat + c.opened.toNat ∧
        c.opened.toNat = resolving m.echo k .opened m.obligations)
      modules (modules.map moduleAccounting) := by
  rw [List.forall₂_map_right_iff]
  refine List.forall₂_same.mpr fun m hm => ⟨rfl, fun k => ?_⟩
  refine ⟨tally m.echo m.obligations k, ?_, rfl, ?_, ?_⟩
  · show (classesFor m).classes[kindIdx k]? = _
    rw [classesFor_classes (hfits m hm)]
    cases k <;> rfl
  · have hlen := hfits m hm
    have hle := ofKind_le k m.obligations
    have hsum := ofKind_eq m.echo k m.obligations
    show (UInt32.ofNat _).toNat = (UInt32.ofNat _).toNat + (UInt32.ofNat _).toNat +
      (UInt32.ofNat _).toNat
    rw [UInt32.toNat_ofNat_of_lt' (show _ < 2 ^ 32 by omega),
      UInt32.toNat_ofNat_of_lt' (show _ < 2 ^ 32 by omega),
      UInt32.toNat_ofNat_of_lt' (show _ < 2 ^ 32 by omega),
      UInt32.toNat_ofNat_of_lt' (show _ < 2 ^ 32 by omega)]
    exact hsum
  · have hlen := hfits m hm
    have hle := ofKind_le k m.obligations
    have hsum := ofKind_eq m.echo k m.obligations
    exact UInt32.toNat_ofNat_of_lt' (show _ < 2 ^ 32 by omega)

/-- What is asked of the gate: accepted under `no-open`, every module has its artifact and
every obligation resolves closed, with everything it rests on closed; and the open list is
exactly what is counted open. -/
structure FailsClosed (modules : List LoadedModule) (r : VerifyReport) : Prop where
  gate : enforcePolicy r .noOpen = .ok () → ∀ m ∈ modules, m.set.isSome = true ∧
    ∀ o ∈ m.obligations, (resolvedStatus o m.echo = .discharged ∨
        resolvedStatus o m.echo = .assumed) ∧
      ∀ k, TransGen (RestsOn modules) (m.name, o.id) k → Closed modules k
  adds : Adds modules r
  opened : (r.opened.map OpenObligation.key).Perm (OpenKeys modules)

/-- What the gate gives: of the modules that have an artifact every obligation resolves
closed, and what a proof or a checked fact discharges reaches closed obligations only.  The
open list has what is counted open, and the closed obligations that reach one that is not. -/
structure GateHolds (modules : List LoadedModule) (r : VerifyReport) : Prop where
  resolved : enforcePolicy r .noOpen = .ok () → ∀ m ∈ modules, ∀ o ∈ m.obligations,
    resolvedStatus o m.echo = .discharged ∨ resolvedStatus o m.echo = .assumed
  closed : enforcePolicy r .noOpen = .ok () → ∀ k, Closed modules k → ¬ ReachesOpen modules k
  adds : Adds modules r
  once : (r.opened.map OpenObligation.key).Nodup
  opened : ∀ k, k ∈ r.opened.map OpenObligation.key ↔
    k ∈ OpenKeys modules ∨ (Closed modules k ∧ ReachesOpen modules k)

def plainSettings : BuildSettings where
  rootModule := none
  verifyOn := true
  policy := .noOpen
  moduleLoading := false
  nMain := none
  nIsr := 32
  slotBytes := 8
  guards := "retained"
  dataStackGuardsPresent := true

def missingModule : LoadedModule := ⟨"M", none, none⟩

/-- A module with one precondition, discharged by its echo, that rests on a missing one. -/
def forcedModule : LoadedModule where
  name := "M"
  set := (Closure.callModule [Closure.callObligation "a" ["x"]] []).set
  echo := some {
    schema := "", staleVerdicts := 0, emitted := ⟨0, 0, 0⟩, provablyFailing := []
    openReasons := [], fileVerdicts := 0, inTreeVerdicts := 1
    verdicts := {
      semantics := "", stmt := "", certifier := none, target := "", modelSemantics := ""
      concurrency := "", records := (Closure.callModule [] ["a"]).records } }

def Composes (modules : List LoadedModule) (p : VerifyReport → Prop) : Prop :=
  ∃ r, compose plainSettings modules = .ok r ∧ p r

theorem composes_of (modules : List LoadedModule) (p : VerifyReport → Bool)
    (h : (match compose plainSettings modules with
      | .ok r => p r
      | .error _ => false) = true) : Composes modules fun r => p r = true := by
  cases hr : compose plainSettings modules with
  | error e =>
    rw [hr] at h
    exact absurd h Bool.false_ne_true
  | ok r =>
    rw [hr] at h
    exact ⟨r, hr, h⟩

end Report

end Tyu

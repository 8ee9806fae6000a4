import Mathlib
import Tyu.Verifier.Verdict

/-!
# Which checks a build drops

While a word is lowered every check site is recorded as an obligation and resolved.
-/

namespace Tyu

open Lib Obl

inductive ChecksMode where
  | all | undischarged | contracts | off
deriving DecidableEq

inductive VerdictSource where
  | file | inTree

structure InTreeVerdict where
  status : VerdictStatus
  provablyFailing : Bool
  reason : Option String

structure ResolvedVerdict where
  id : String
  idHash : String
  kind : Kind
  status : VerdictStatus
  trust : Trust
  method : Option Method
  justification : Option String
  statementHash : Option String
  provablyFailing : Bool
  reason : Option String
  source : VerdictSource

structure ExtractionCtx where
  set : OblSet
  word : String
  counters : Kind → Nat
  resolved : List ResolvedVerdict
  wordMmioOpen : Bool
  statementStale : Nat

structure Session where
  keepContractChecks : Bool
  checks : ChecksMode
  verdicts : Option Verdicts
  extraction : Option ExtractionCtx
  provenGate : Bool
  bindObl : Option OblSet
  refinements : List Refinement

namespace Session

def identity (s : Session) : String × String × String :=
  match s.extraction with
  | some ctx => (ctx.set.target, ctx.set.modelSemantics, ctx.set.concurrency)
  | none => ("", "", "")

/-- The hash of the canonical statement of an obligation, as this build computes it. -/
def recomputeBindHash (sha : Digest) (s : Session) (id : String) : Option String := do
  let set ← match s.bindObl with
    | some bind => some bind
    | none => s.extraction.map ExtractionCtx.set
  let o ← set.obligations.find? fun o => o.id == id
  let wordIr := match set.words.find? fun w => w.name == o.site.word with
    | some w => w.ir
    | none => ""
  let refinement := wordRefinement wordIr s.refinements
  let stmt := StatementContext.forObligation set.module set.target set.modelSemantics
    (sha256Hex16 sha wordIr) (refinement.map Refinement.refinement) o
  pure (stmt.statementHash sha o.formula)

def noteStatementStale (s : Session) : Session :=
  { s with extraction := s.extraction.map fun ctx =>
      { ctx with statementStale := ctx.statementStale + 1 } }

def openVerdict (kind : Kind) (id idHash : String) (reason : Option String)
    (source : VerdictSource) : ResolvedVerdict :=
  ⟨id, idHash, kind, .opened, .opened, none, none, none, false, reason, source⟩

def identityMismatch (s : Session) (v : Verdicts) : Bool :=
  v.target != s.identity.1 || v.modelSemantics != s.identity.2.1 ||
    v.concurrency != s.identity.2.2

def bindHash (sha : Digest) (s : Session) (rec : VerdictRecord) (id : String) : Option String :=
  if rec.method.any Method.bindsStatement then s.recomputeBindHash sha id else none

/-- A record whose method binds a statement carries the hash of this build's. -/
def bindOk (sha : Digest) (s : Session) (rec : VerdictRecord) (id : String) : Bool :=
  if rec.method.any Method.bindsStatement then
    match s.bindHash sha rec id with
    | some h => rec.statementHash == some h
    | none => false
  else true

/-- The `proven` policy admits proofs and the exact methods. -/
def provenAdmitted (s : Session) (rec : VerdictRecord) : Bool :=
  !s.provenGate || rec.trust == .proof ||
    (rec.trust == .checked && rec.method.any Method.provenAdmissibleChecked)

def resolveFromFile (sha : Digest) (s : Session) (v : Verdicts) (rec : VerdictRecord) (kind : Kind)
    (id idHash : String) : ResolvedVerdict × Session :=
  if !s.identityMismatch v && s.bindOk sha rec id && s.provenAdmitted rec then
    (⟨id, idHash, kind, rec.status, rec.trust, rec.method, rec.justification,
      s.bindHash sha rec id, false, rec.witnessReason, .file⟩, s)
  else
    (openVerdict kind id idHash
      (some (if s.provenGate && !s.provenAdmitted rec then "policy-proven: trust not admitted"
        else "statement-stale")) .file,
      if s.identityMismatch v || !s.bindOk sha rec id then s.noteStatementStale else s)

def resolveInTree (s : Session) (kind : Kind) (id idHash : String) (t : InTreeVerdict)
    (fileOpenWitness : Option String) : ResolvedVerdict :=
  let (method, trust) :=
    if t.status = .discharged then
      if kind = .mmioBounds then (some Method.descriptor, Trust.checked)
      else (some Method.interval, Trust.checked)
    else (none, Trust.opened)
  let admitted := !s.provenGate || method.any Method.provenAdmissibleChecked
  if admitted || t.status != .discharged then
    ⟨id, idHash, kind, t.status, trust, method, none, none, t.provablyFailing,
      match fileOpenWitness with
      | some w => some w
      | none => t.reason, .inTree⟩
  else openVerdict kind id idHash (some "policy-proven: interval not admitted") .inTree

def automation (s : Session) (kind : Kind) (id idHash : String) (inTree : Option InTreeVerdict)
    (fileOpenWitness : Option String) : ResolvedVerdict :=
  match inTree with
  | some t => s.resolveInTree kind id idHash t fileOpenWitness
  | none => openVerdict kind id idHash fileOpenWitness .inTree

def keptContract (s : Session) (kind : Kind) : Bool :=
  s.keepContractChecks && (kind == .contractPre || kind == .contractPost)

def resolveSite (sha : Digest) (s : Session) (kind : Kind) (id idHash : String)
    (inTree : Option InTreeVerdict) : ResolvedVerdict × Session :=
  if s.keptContract kind then (openVerdict kind id idHash none .inTree, s)
  else if s.checks = .undischarged then
    match s.verdicts.bind fun v => (v.lookup id idHash).map fun rec => (v, rec) with
    | none => (s.automation kind id idHash inTree none, s)
    | some (v, rec) =>
      if rec.status.isOpen then (s.automation kind id idHash inTree rec.witnessReason, s)
      else s.resolveFromFile sha v rec kind id idHash
  else (openVerdict kind id idHash none .inTree, s)

def record (s : Session) (kind : Kind) (formula : Formula) : Option ((String × String) × Session) :=
  s.extraction.map fun ctx =>
    let occurrence := ctx.counters kind
    let id := canonicalId ctx.set.module ctx.word kind occurrence
    let o : Obligation := ⟨id, idHashOf id, kind, ⟨ctx.word, occurrence⟩, formula⟩
    ((id, idHashOf id), { s with extraction := some { ctx with
      set := { ctx.set with obligations := ctx.set.obligations ++ [o] }
      counters := fun k => if k = kind then (occurrence + 1) % 2 ^ 32 else ctx.counters k } })

/-- Keep the verdict of the site just recorded; an open access keeps all accesses of its
word checked. -/
def pushResolved (s : Session) (r : ResolvedVerdict) : Session :=
  { s with extraction := s.extraction.map fun ctx => { ctx with
      resolved := ctx.resolved ++ [r]
      wordMmioOpen := ctx.wordMmioOpen || (r.kind == .mmioBounds && r.status.isOpen) } }

/-- A check site: record it, resolve it, keep the verdict.  Without an extraction context
the site stays open. -/
def closeSite (sha : Digest) (s : Session) (kind : Kind) (formula : Formula)
    (inTree : Option InTreeVerdict) : Option ResolvedVerdict × Session :=
  match s.record kind formula with
  | none => (none, s)
  | some ((id, idHash), s) =>
    let (r, s) := s.resolveSite sha kind id idHash inTree
    (some r, s.pushResolved r)

end Session

def emitSubtypeCheck (checks : ChecksMode) (status : VerdictStatus) : Bool :=
  match checks with
  | .all => true
  | .undischarged => status.isOpen
  | .off | .contracts => false

def emitContractCheck (checks : ChecksMode) (status : VerdictStatus) : Bool :=
  match checks with
  | .all | .contracts => true
  | .undischarged => status.isOpen
  | .off => false

/-- The accesses of a word are unchecked when all its sites are closed; the words that
quotations become keep their checks. -/
def elideMmio (checks : ChecksMode) (word : String) (wordMmioOpen : Bool) : Bool :=
  checks == .undischarged && !("_quot_".toList.isPrefixOf word.toList) && !wordMmioOpen

/-- Is the check of a site emitted, given its verdict?  `otherOpen` says that another
access of the word is open. -/
def checkEmitted (checks : ChecksMode) (word : String) (otherOpen : Bool) (kind : Kind)
    (status : VerdictStatus) : Bool :=
  match kind with
  | .subtypeRange => emitSubtypeCheck checks status
  | .contractPre | .contractPost => emitContractCheck checks status
  | .mmioBounds => !elideMmio checks word (otherOpen || status.isOpen)
  -- a stack budget has no runtime check
  | .stackBudget => false

/-! ## When a record of the file closes a site -/

namespace Session

variable {sha : Digest} {s : Session} {v : Verdicts} {rec : VerdictRecord} {kind : Kind}
  {id idHash : String} {inTree : Option InTreeVerdict}

def CarriesHash (sha : Digest) (s : Session) (rec : VerdictRecord) (id : String) : Prop :=
  ∃ h, rec.statementHash = some h ∧ s.recomputeBindHash sha id = some h

/-- A record is compared with the statement only when its method binds one. -/
def Compared (sha : Digest) (s : Session) (rec : VerdictRecord) (id : String) : Prop :=
  rec.method.any Method.bindsStatement = true → CarriesHash sha s rec id

def Admitted (s : Session) (rec : VerdictRecord) : Prop :=
  s.provenGate = false ∨ rec.trust = .proof ∨
    (rec.trust = .checked ∧ rec.method.any Method.provenAdmissibleChecked = true)

theorem provenAdmitted_iff : s.provenAdmitted rec = true ↔ s.Admitted rec := by
  unfold provenAdmitted Admitted
  simp [or_assoc]

theorem bindOk_iff : s.bindOk sha rec id = true ↔ Compared sha s rec id := by
  unfold bindOk bindHash Compared CarriesHash
  by_cases hm : rec.method.any Method.bindsStatement = true
  · simp only [hm, if_true, true_imp_iff]
    cases s.recomputeBindHash sha id with
    | none => simp
    | some h => simp
  · simp [hm]

/-- A closed record closes the site exactly when it was made for this build, carries the
statement where its method binds one, and is admitted. -/
theorem resolveFromFile_closed (hclosed : rec.status.isOpen = false) :
    (s.resolveFromFile sha v rec kind id idHash).1.status.isOpen = false ↔
      s.identityMismatch v = false ∧ Compared sha s rec id ∧ s.Admitted rec := by
  rw [← bindOk_iff, ← provenAdmitted_iff]
  unfold resolveFromFile
  by_cases hall : (!s.identityMismatch v && s.bindOk sha rec id && s.provenAdmitted rec) = true
  · rw [if_pos hall]
    rw [Bool.and_eq_true, Bool.and_eq_true, Bool.not_eq_true'] at hall
    exact iff_of_true hclosed ⟨hall.1.1, hall.1.2, hall.2⟩
  · rw [if_neg hall]
    rw [Bool.and_eq_true, Bool.and_eq_true, Bool.not_eq_true'] at hall
    refine iff_of_false (fun h => by cases h) ?_
    rintro ⟨hid, hcmp, hadm⟩
    exact hall ⟨⟨hid, hcmp⟩, hadm⟩

theorem resolveFromFile_source :
    (s.resolveFromFile sha v rec kind id idHash).1.source = .file := by
  unfold resolveFromFile
  split <;> rfl

theorem automation_source {witness : Option String} :
    (s.automation kind id idHash inTree witness).source = .inTree := by
  unfold automation
  cases inTree with
  | none => rfl
  | some t =>
    unfold resolveInTree
    simp only
    rw [apply_ite ResolvedVerdict.source]
    exact ite_self _

/-- **What it takes for the file to close a site.**  The verdict of the file decides the
site and closes it exactly when the build consults verdicts, the site is not a kept
contract, and the file's record is closed, made for this build, compared where its
method binds a statement, and admitted. -/
theorem resolveSite_file_closed (hv : s.verdicts = some v) (hrec : v.lookup id idHash = some rec) :
    ((s.resolveSite sha kind id idHash inTree).1.source = .file ∧
        (s.resolveSite sha kind id idHash inTree).1.status.isOpen = false) ↔
      s.keptContract kind = false ∧ s.checks = .undischarged ∧ rec.status.isOpen = false ∧
        s.identityMismatch v = false ∧ Compared sha s rec id ∧ s.Admitted rec := by
  unfold resolveSite
  by_cases hkept : s.keptContract kind = true
  · rw [if_pos hkept]
    exact iff_of_false (fun h => by cases h.1) fun h => by rw [hkept] at h; cases h.1
  · have hkept' : s.keptContract kind = false := by simpa using hkept
    rw [if_neg hkept]
    by_cases hmode : s.checks = .undischarged
    · simp only [hmode, if_true, hv, Option.bind_some, hrec, Option.map_some]
      by_cases hopen : rec.status.isOpen = true
      · rw [if_pos hopen]
        refine iff_of_false ?_ ?_
        · intro h
          rw [automation_source] at h
          cases h.1
        · intro h
          rw [hopen] at h
          cases h.2.2.1
      · have hclosed : rec.status.isOpen = false := by simpa using hopen
        rw [if_neg hopen, resolveFromFile_closed hclosed]
        exact ⟨fun h => ⟨hkept', trivial, hclosed, h.2⟩, fun h => ⟨resolveFromFile_source, h.2.2.2⟩⟩
    · rw [if_neg hmode]
      exact iff_of_false (fun h => by cases h.1) fun h => hmode h.2.1

end Session

/-! ## Proofs and the statements they are bound to -/

/-- The place of a check: its kind, the word it is in, and whether another access of the
word is open. -/
structure Place where
  kind : Kind
  word : String
  otherOpen : Bool

def Place.AtStake (p : Place) (checks : ChecksMode) : Prop :=
  checkEmitted checks p.word p.otherOpen p.kind .opened = true ∧
    checkEmitted checks p.word p.otherOpen p.kind .discharged = false

/-- The verdict of the file is why the check is not emitted: it would be, were the site
open. -/
def Place.DropsCheck (p : Place) (checks : ChecksMode) (r : ResolvedVerdict) : Prop :=
  r.source = .file ∧ checkEmitted checks p.word p.otherOpen p.kind r.status = false ∧
    checkEmitted checks p.word p.otherOpen p.kind .opened = true

theorem checkEmitted_closed {checks : ChecksMode} {word : String} {otherOpen : Bool} {kind : Kind}
    {status : VerdictStatus} (h : status.isOpen = false) :
    checkEmitted checks word otherOpen kind status =
      checkEmitted checks word otherOpen kind .discharged := by
  cases status with
  | discharged => rfl
  | assumed => cases kind <;> rfl
  | opened => cases h

theorem Place.dropsCheck_iff {p : Place} {checks : ChecksMode} {r : ResolvedVerdict} :
    p.DropsCheck checks r ↔ r.source = .file ∧ r.status.isOpen = false ∧ p.AtStake checks := by
  unfold DropsCheck AtStake
  constructor
  · rintro ⟨hsrc, hdrop, hopen⟩
    have hclosed : r.status.isOpen = false := by
      cases hs : r.status with
      | opened =>
        rw [hs] at hdrop
        rw [hdrop] at hopen
        cases hopen
      | discharged => rfl
      | assumed => rfl
    exact ⟨hsrc, hclosed, hopen, by rw [← checkEmitted_closed hclosed, hdrop]⟩
  · rintro ⟨hsrc, hclosed, hopen, hdrop⟩
    exact ⟨hsrc, by rw [checkEmitted_closed hclosed, hdrop], hopen⟩

/-- What proof binding promises at a site: a proof of the file that drops the check
carries the hash of the statement this build computes, and nothing made for another
build drops a check. -/
def ProofBinding (sha : Digest) (s : Session) (p : Place) (id idHash : String)
    (inTree : Option InTreeVerdict) : Prop :=
  ∀ v rec, s.verdicts = some v → v.lookup id idHash = some rec →
    p.DropsCheck s.checks (s.resolveSite sha p.kind id idHash inTree).1 →
    (rec.trust = .proof → s.CarriesHash sha rec id) ∧
      (v.target, v.modelSemantics, v.concurrency) = s.identity

/-- The file's record of the site is a closed proof, made for this build, that the site
waits for. -/
structure ProofDecides (s : Session) (p : Place) (id idHash : String) (v : Verdicts)
    (rec : VerdictRecord) : Prop where
  file : s.verdicts = some v
  record : v.lookup id idHash = some rec
  proof : rec.trust = .proof
  closed : rec.status.isOpen = false
  identity : s.identityMismatch v = false
  mode : s.checks = .undischarged
  kept : s.keptContract p.kind = false
  atStake : p.AtStake s.checks

theorem Session.identityMismatch_eq_false {s : Session} {v : Verdicts} :
    s.identityMismatch v = false ↔
      (v.target, v.modelSemantics, v.concurrency) = s.identity := by
  unfold identityMismatch
  obtain ⟨a, b, c⟩ := s.identity
  simp [and_assoc]

/-- **When proof binding holds.**  At every site of every session it holds exactly when
every closed proof that decides the site names a method that binds a statement, or
carries the right hash although nothing compares it. -/
theorem proofBinding_iff (sha : Digest) (s : Session) (p : Place) (id idHash : String)
    (inTree : Option InTreeVerdict) :
    ProofBinding sha s p id idHash inTree ↔
      ∀ v rec, ProofDecides s p id idHash v rec →
        rec.method.any Method.bindsStatement = true ∨ s.CarriesHash sha rec id := by
  constructor
  · intro h v rec hd
    by_cases hm : rec.method.any Method.bindsStatement = true
    · exact .inl hm
    · refine .inr ((h v rec hd.file hd.record ?_).1 hd.proof)
      have hclose : (s.resolveSite sha p.kind id idHash inTree).1.source = .file ∧
          (s.resolveSite sha p.kind id idHash inTree).1.status.isOpen = false :=
        (Session.resolveSite_file_closed hd.file hd.record).mpr ⟨hd.kept, hd.mode, hd.closed,
          hd.identity, fun hb => absurd hb hm, .inr (.inl hd.proof)⟩
      exact Place.dropsCheck_iff.mpr ⟨hclose.1, hclose.2, hd.atStake⟩
  · intro h v rec hv hrec hdrop
    obtain ⟨hsrc, hstatus, hstake⟩ := Place.dropsCheck_iff.mp hdrop
    obtain ⟨hkept, hmode, hclosed, hident, hcmp, -⟩ :=
      (Session.resolveSite_file_closed hv hrec).mp ⟨hsrc, hstatus⟩
    refine ⟨?_, Session.identityMismatch_eq_false.mp hident⟩
    intro hproof
    rcases h v rec ⟨hv, hrec, hproof, hclosed, hident, hmode, hkept, hstake⟩ with hm | hcarry
    · exact hcmp hm
    · exact hcarry

/-- A harvested file whose one record claims a proof without naming a method. -/
def unboundProofFile : RawVerdicts where
  schema := some "tyu.verdicts/v2"
  semantics := some "tyu.ir-sem/1.0"
  certifier := some ⟨"tyu-port/lean/1"⟩
  target := some "x86_64-unknown-linux-gnu"
  modelSemantics := some "unmodeled"
  concurrency := none
  records := some [{
    id := some "Bank::bounded_inc::subtype-range::0"
    idHash := some (idHashOf "Bank::bounded_inc::subtype-range::0")
    status := some .discharged
    trust := some .proof
    method := none
    statementHash := none
    proof := some ⟨.exact, "in-tree"⟩
    claimed := none
    justification := none
    witnessReason := none }]

def bankRecord : VerdictRecord :=
  ⟨"Bank::bounded_inc::subtype-range::0", idHashOf "Bank::bounded_inc::subtype-range::0",
    .discharged, .proof, none, none, some ⟨.exact, "in-tree"⟩, none, none, none⟩

def unboundProofVerdicts : Verdicts where
  certifier := some ⟨"tyu-port/lean/1"⟩
  target := "x86_64-unknown-linux-gnu"
  modelSemantics := "unmodeled"
  concurrency := "unmodeled"
  records := [bankRecord]

/-- A session of the module `Bank` that consults the file. -/
def bankSession : Session where
  keepContractChecks := false
  checks := .undischarged
  verdicts := some unboundProofVerdicts
  extraction := some {
    set := ⟨"Bank", "x86_64-unknown-linux-gnu", "unmodeled", "unmodeled", [],
      [⟨"Bank::bounded_inc::subtype-range::0", idHashOf "Bank::bounded_inc::subtype-range::0",
        .subtypeRange, ⟨"bounded_inc", 0⟩, .inRange (.var "in.0") 0 100⟩]⟩
    word := "bounded_inc"
    counters := fun _ => 1
    resolved := []
    wordMmioOpen := false
    statementStale := 0 }
  provenGate := true
  bindObl := none
  refinements := []

/-- The file is loaded, and its record drops the check of the parameter of `bounded_inc`
although it carries no hash, under the `proven` policy too. -/
theorem unbound_proof_drops_check :
    loadVerdicts unboundProofFile = .ok unboundProofVerdicts ∧
      ¬ProofBinding (fun text => text) bankSession ⟨.subtypeRange, "bounded_inc", false⟩
        "Bank::bounded_inc::subtype-range::0"
        (idHashOf "Bank::bounded_inc::subtype-range::0") none := by
  constructor
  · have hread : readVerdicts unboundProofFile = .ok unboundProofVerdicts := by
      show (pure _ : Except VerdictError Verdicts) = _
      simp only [List.reverse_singleton, List.mergeSort_singleton]
      rfl
    unfold loadVerdicts
    rw [hread]
    rfl
  · intro h
    have hrec : unboundProofVerdicts.lookup "Bank::bounded_inc::subtype-range::0"
        (idHashOf "Bank::bounded_inc::subtype-range::0") = some bankRecord := by
      simp [Verdicts.lookup, unboundProofVerdicts, bankRecord]
    have hcmp : Session.Compared (fun text => text) bankSession bankRecord
        "Bank::bounded_inc::subtype-range::0" := by
      intro hm
      cases hm
    have hclose : (bankSession.resolveSite (fun text => text) .subtypeRange
        "Bank::bounded_inc::subtype-range::0"
        (idHashOf "Bank::bounded_inc::subtype-range::0") none).1.source = .file ∧ _ :=
      (Session.resolveSite_file_closed rfl hrec).mpr
        ⟨rfl, rfl, rfl, by decide, hcmp, .inr (.inl rfl)⟩
    have hstake : Place.AtStake ⟨.subtypeRange, "bounded_inc", false⟩ .undischarged := ⟨rfl, rfl⟩
    have hdrops := Place.dropsCheck_iff.mpr ⟨hclose.1, hclose.2, hstake⟩
    obtain ⟨hash, hcarries, -⟩ := (h _ _ rfl hrec hdrops).1 rfl
    cases hcarries

end Tyu

import Tyu.Image.Report
import Tyu.Verifier.ManifestRoundTrip
import Tyu.Verifier.VerdictFileRoundTrip

/-!
# Verification summaries

After a build each module with an obligation artifact gets a `tyu.vm/1` summary, one row an
obligation, and a certification package gets the records of the module's verdicts.
-/

namespace Tyu

open Lib Lib.Json Manifest

namespace Summary

/-- The files of the output directory and of the artifact's, by their paths. -/
abbrev Files := String → Option Bytes

structure OblPath where
  parent : String
  file : String

def OblPath.path (obl : OblPath) : String := obl.parent ++ "/" ++ obl.file

structure VerifyEnvKey where
  semantics : String
  stmt : String
  toolchainHash : UInt64
  modelId : String
  refinementsHash : UInt64
  concurrencyHash : UInt64
  proofFilesHash : UInt64

def sanitizeComponent (s : String) : String :=
  String.ofList (s.toList.map fun c => if c = '/' then '_' else c)

def hex16 (n : UInt64) : String :=
  let digits := Nat.toDigits 16 n.toNat
  String.ofList (List.replicate (16 - digits.length) '0' ++ digits)

def VerifyEnvKey.slug (env : VerifyEnvKey) : String :=
  "-sem-" ++ sanitizeComponent env.semantics ++ "-stmt-" ++ sanitizeComponent env.stmt ++
    "-tc-" ++ hex16 env.toolchainHash ++ "-model-" ++ sanitizeComponent env.modelId ++
    "-ref-" ++ hex16 env.refinementsHash ++ "-conc-" ++ hex16 env.concurrencyHash ++
    "-proofs-" ++ hex16 env.proofFilesHash

def verdictsSlotName (module : String) (inputsFp : UInt64) (env : VerifyEnvKey) : String :=
  module ++ "-" ++ hex16 inputsFp ++ env.slug ++ ".verdicts.json"

def hexValue (c : Char) : Option Nat :=
  if '0' ≤ c ∧ c ≤ '9' then some (c.toNat - '0'.toNat)
  else if 'a' ≤ c ∧ c ≤ 'f' then some (c.toNat - 'a'.toNat + 10)
  else if 'A' ≤ c ∧ c ≤ 'F' then some (c.toNat - 'A'.toNat + 10)
  else none

def pushHexDigit (n : Nat) (c : Char) : Option Nat := do
  let d ← hexValue c
  if n * 16 + d < 2 ^ 64 then some (n * 16 + d) else none

def fromStrRadix16 (s : List Char) : Option Nat :=
  let digits := if s.head? = some '+' then s.tail else s
  if digits = [] then none else digits.foldlM pushHexDigit 0

def stripSuffix (suffix s : List Char) : Option (List Char) :=
  if suffix.isSuffixOf s then some (s.take (s.length - suffix.length)) else none

def rsplitOnce (c : Char) (s : List Char) : Option (List Char × List Char) :=
  if c ∈ s then
    let last := (s.reverse.takeWhile (· ≠ c)).reverse
    some (s.take (s.length - last.length - 1), last)
  else none

/-- The slot of the echo of an artifact `<module>-<16 hex digits>.obl.json`. -/
def echoPathFor (obl : OblPath) (env : VerifyEnvKey) : Option String := do
  let stem ← stripSuffix ".obl.json".toList obl.file.toList
  let (module, fp) ← rsplitOnce '-' stem
  if fp.length ≠ 16 ∨ ¬ fp.all (fun c => (hexValue c).isSome) then none
  let inputsFp ← fromStrRadix16 fp
  some (obl.parent ++ "/.tyu-verify/" ++
    verdictsSlotName (String.ofList module) (UInt64.ofNat inputsFp) env)

def harvestVerdictsPath (outDir module : String) : String :=
  outDir ++ "/.tyu-verify/harvest/" ++ module ++ ".verdicts.v2.json"

inductive SummaryError where
  | io
  | artifactInvalid (subject : String) (e : CodecError)
  | unreadable (path : String) (e : VerdictFile.VerdictError)

def readArtifact (files : Files) (obl : OblPath) (subject : String) :
    Except SummaryError OblSet := do
  let bytes ← expect (files obl.path) .io
  match readObl bytes with
  | .ok set => pure set
  | .error e => .error (.artifactInvalid subject e)

def rejectStale (set : OblSet) (v : VerdictFile.Verdicts) : Option VerdictFile.Verdicts :=
  if v.target ≠ set.target ∨ v.modelSemantics ≠ set.modelSemantics then none else some v

def verdictsForModule (files : Files) (outDir module : String) (obl : OblPath)
    (env : VerifyEnvKey) : Except SummaryError (Option VerdictFile.Verdicts) := do
  let set ← readArtifact files obl ("artifact '" ++ obl.path ++ "'")
  match files (harvestVerdictsPath outDir module) with
  | some bytes =>
    match VerdictFile.readVerdicts bytes with
    | .ok v => pure (rejectStale set v)
    | .error e => .error (.unreadable (harvestVerdictsPath outDir module) e)
  | none =>
    -- an echo that is missing or cannot be read is no verdicts at all
    match (echoPathFor obl env).bind files with
    | some bytes =>
      match VerdictFile.readEcho bytes with
      | .ok echo => pure (rejectStale set echo.verdicts)
      | .error _ => pure none
    | none => pure none

def emptyVerdicts (target model concurrency : String) : VerdictFile.Verdicts where
  semantics := SEMANTICS_VERSION
  stmt := STMT_SCHEMA
  certifier := none
  target := target
  modelSemantics := model
  concurrency := concurrency
  records := []

def lookup (v : VerdictFile.Verdicts) (id idHash : String) : Option VerdictFile.VerdictRecord :=
  v.records.find? fun r => r.id == id && r.idHash == idHash

def statementFormula : Formula → Obl.Formula
  | .inRange value lo hi => .inRange value lo.toInt hi.toInt
  | .offsetLE off width size => .offsetLE (off.map UInt32.toNat) width.toNat size.toNat
  | .predicateHolds pred args => .predicateHolds pred args

def statementOf (o : Obligation) : Obl.Obligation where
  id := o.id
  idHash := o.idHash
  kind := o.kind
  site := ⟨o.site.word, o.site.occurrence.toNat⟩
  formula := statementFormula o.formula

structure Row where
  id : String
  idHash : String
  status : VerdictStatus
  trust : Trust
  statementHash : String

section

variable (sha : Digest)

def wordIrHash (set : OblSet) (word : String) : String :=
  match set.facts.words.find? fun w => w.name == word with
  | some w => sha256Hex16 sha w.ir
  | none => ""

/-- The statement hash of an obligation, from its formula and the text of its word. -/
def computedHash (module : String) (set : OblSet) (o : Obligation) : String :=
  let ctx := StatementContext.forObligation module set.target set.modelSemantics
    (wordIrHash sha set o.site.word) none (statementOf o)
  ctx.statementHash sha (statementFormula o.formula)

/-- The row of an obligation: what its record says, or open where there is none. -/
def obligationRow (module : String) (set : OblSet) (v : VerdictFile.Verdicts) (o : Obligation) : Row :=
  match lookup v o.id o.idHash with
  | some r =>
    ⟨o.id, o.idHash, r.status, r.trust, r.statementHash.getD (computedHash sha module set o)⟩
  | none => ⟨o.id, o.idHash, .opened, .opened, computedHash sha module set o⟩

def vmRows (module : String) (set : OblSet) (v : VerdictFile.Verdicts) : List Row :=
  (set.obligations.map (obligationRow sha module set v)).mergeSort fun a b => !decide (b.id < a.id)

def jstrChar (c : Char) : List Char :=
  match c with
  | '"' => ['\\', '"']
  | '\\' => ['\\', '\\']
  | '\n' => ['\\', 'n']
  | '\r' => ['\\', 'r']
  | '\t' => ['\\', 't']
  | c => [c]

def jstr (s : String) : String := "\"" ++ String.ofList (s.toList.flatMap jstrChar) ++ "\""

def VM_SCHEMA : String := "tyu.vm/1"

def countTrust (rows : List Row) (t : Trust) : Nat := rows.countP fun r => r.trust = t

/-- The share of the proofs that a candidate wrote, of which no summary counts any. -/
def candidateRatio (proofs : Nat) : Nat := if proofs = 0 then 0 else 0 * 10000 / proofs

def certifierIdentity (v : VerdictFile.Verdicts) : String × String × String :=
  match v.certifier with
  | some c =>
    if RECOGNIZED_CERTIFIERS.contains c.recognition then ("port", c.name, c.recognition)
    else ("none", "", "")
  | none => ("none", "", "")

def rowText (r : Row) : String :=
  "\x7b\"id\":" ++ jstr r.id ++
    ",\"id_hash\":" ++ toString ((fromStrRadix16 r.idHash.toList).getD 0) ++
    ",\"status\":" ++ jstr (VerdictFile.statusStr r.status) ++
    ",\"trust\":" ++ jstr (VerdictFile.trustStr r.trust) ++
    ",\"statement_hash\":" ++ jstr r.statementHash ++ "\x7d"

def vmDocument (module : String) (policy : Report.VerifyPolicy) (set : OblSet)
    (v : VerdictFile.Verdicts) : String :=
  let rows := vmRows sha module set v
  let (cls, name, recognition) := certifierIdentity v
  "\x7b\"schema\":" ++ jstr VM_SCHEMA ++
    ",\"semantics\":" ++ jstr SEMANTICS_VERSION ++
    ",\"stmt\":" ++ jstr STMT_SCHEMA ++
    ",\"target\":" ++ jstr set.target ++
    ",\"model\":" ++ jstr set.modelSemantics ++
    ",\"policy\":" ++ jstr policy.asStr ++
    ",\"certifier\":\x7b\"class\":" ++ jstr cls ++
    ",\"name\":" ++ jstr name ++
    ",\"recognition\":" ++ jstr recognition ++
    "\x7d,\"candidate_ratio\":" ++ toString (candidateRatio (countTrust rows .proof)) ++
    ",\"counts\":\x7b\"proof\":" ++ toString (countTrust rows .proof) ++
    ",\"checked\":" ++ toString (countTrust rows .checked) ++
    ",\"assumed\":" ++ toString (countTrust rows .assumed) ++
    ",\"open\":" ++ toString (countTrust rows .opened) ++
    "\x7d,\"obligations\":[" ++ String.intercalate "," (rows.map rowText) ++ "]\x7d\n"

def summaryVerdicts (files : Files) (outDir module : String) (obl : OblPath)
    (env : VerifyEnvKey) (set : OblSet) : Except SummaryError VerdictFile.Verdicts := do
  let v ← verdictsForModule files outDir module obl env
  pure (v.getD (emptyVerdicts set.target set.modelSemantics set.concurrency))

def moduleSummary (files : Files) (outDir module : String) (obl : OblPath)
    (policy : Report.VerifyPolicy) (env : VerifyEnvKey) : Except SummaryError String := do
  let set ← readArtifact files obl ("module " ++ module ++ " artifact")
  let v ← summaryVerdicts files outDir module obl env set
  pure (vmDocument sha module policy set v)

end

/-- The verdicts that a package carries for a module, under the identity it is made for. -/
def moduleVerdicts (files : Files) (outDir module : String) (obl : Option OblPath)
    (env : VerifyEnvKey) (target model concurrency : String) :
    Except SummaryError VerdictFile.Verdicts :=
  let empty := emptyVerdicts target model concurrency
  match obl with
  | some obl => do
    let v ← verdictsForModule files outDir module obl env
    pure (v.getD empty)
  | none =>
    match files (harvestVerdictsPath outDir module) with
    | none => pure empty
    | some bytes =>
      match VerdictFile.readVerdicts bytes with
      | .error _ => pure empty
      | .ok v =>
        if v.target ≠ target ∨ v.modelSemantics ≠ model ∨ v.concurrency ≠ concurrency then pure empty
        else pure v

def verdictsMember (v : VerdictFile.Verdicts) : VerdictFile.VerdictsInput where
  certifier := v.certifier
  target := v.target
  modelSemantics := v.modelSemantics
  concurrency := v.concurrency
  records := v.records
  staleVerdicts := 0
  emitted := ⟨0, 0, 0⟩

/-! ## What lies on the disk -/

/-- The document that a module's verdicts come from: the harvest document, or, where there
is none, the echo. -/
inductive OnDisk (files : Files) (outDir module : String) (obl : OblPath) (env : VerifyEnvKey)
    (d : VerdictFile.Verdicts) : Prop where
  | harvest {bytes : Bytes} (file : files (harvestVerdictsPath outDir module) = some bytes)
      (read : VerdictFile.readVerdicts bytes = .ok d)
  | echo {bytes : Bytes} {doc : VerdictFile.Doc}
      (none : files (harvestVerdictsPath outDir module) = none)
      (file : (echoPathFor obl env).bind files = some bytes)
      (read : VerdictFile.readEcho bytes = .ok doc) (verdicts : doc.verdicts = d)

structure SameIdentity (d : VerdictFile.Verdicts) (set : OblSet) : Prop where
  target : d.target = set.target
  model : d.modelSemantics = set.modelSemantics
  concurrency : d.concurrency = set.concurrency

section

variable {files : Files} {outDir module : String} {obl : OblPath} {env : VerifyEnvKey}

theorem OnDisk.unique {d d' : VerdictFile.Verdicts} (h : OnDisk files outDir module obl env d)
    (h' : OnDisk files outDir module obl env d') : d = d' := by
  cases h with
  | harvest file read =>
    cases h' with
    | harvest file' read' =>
      rw [← Option.some.inj (file.symm.trans file')] at read'
      exact Except.ok.inj (read.symm.trans read')
    | echo none' => cases file.symm.trans none'
  | echo none file read verdicts =>
    cases h' with
    | harvest file' => cases none.symm.trans file'
    | echo none' file' read' verdicts' =>
      rw [← Option.some.inj (file.symm.trans file')] at read'
      rw [← verdicts, ← verdicts', Except.ok.inj (read.symm.trans read')]

theorem readArtifact_eq_ok {subject : String} {set : OblSet} :
    readArtifact files obl subject = .ok set ↔
      ∃ bytes, files obl.path = some bytes ∧ readObl bytes = .ok set := by
  simp only [readArtifact, bind_eq_ok, expect_eq_ok]
  constructor
  · rintro ⟨bytes, hfile, hread⟩
    refine ⟨bytes, hfile, ?_⟩
    split at hread
    next set' hset => rw [hset, Except.ok.inj hread]
    next => cases hread
  · rintro ⟨bytes, hfile, hread⟩
    exact ⟨bytes, hfile, by rw [hread]; rfl⟩

theorem rejectStale_eq_some {set : OblSet} {d v : VerdictFile.Verdicts} :
    rejectStale set d = some v ↔
      d = v ∧ d.target = set.target ∧ d.modelSemantics = set.modelSemantics := by
  unfold rejectStale
  split
  next h =>
    constructor
    · nofun
    · rintro ⟨-, htarget, hmodel⟩
      exact absurd h (by simp [htarget, hmodel])
  next h =>
    simp only [not_or, not_not] at h
    rw [Option.some_inj]
    exact ⟨fun hd => ⟨hd, h⟩, And.left⟩

/-- Whatever the gate lets through lies on the disk and has the artifact's target and model; it
asks nothing else of it. -/
theorem verdictsForModule_eq_ok_some {set : OblSet} {bytes : Bytes} {d : VerdictFile.Verdicts}
    (hfile : files obl.path = some bytes) (hread : readObl bytes = .ok set) :
    verdictsForModule files outDir module obl env = .ok (some d) ↔
      OnDisk files outDir module obl env d ∧ d.target = set.target ∧
        d.modelSemantics = set.modelSemantics := by
  have hartifact : ∀ subject, readArtifact files obl subject = .ok set := fun subject =>
    readArtifact_eq_ok.mpr ⟨bytes, hfile, hread⟩
  unfold verdictsForModule
  rw [hartifact]
  show (match files (harvestVerdictsPath outDir module) with
    | some bytes => _
    | none => _) = _ ↔ _
  cases hharvest : files (harvestVerdictsPath outDir module) with
  | some harvest =>
    constructor
    · intro h
      dsimp only at h
      split at h
      next v hv =>
        obtain ⟨rfl, hid⟩ := rejectStale_eq_some.mp (Except.ok.inj h)
        exact ⟨.harvest hharvest hv, hid⟩
      next => cases h
    · rintro ⟨hdisk, hid⟩
      cases hdisk with
      | harvest file hv =>
        rw [← Option.some.inj (hharvest.symm.trans file)] at hv
        dsimp only
        rw [hv]
        exact congrArg _ (rejectStale_eq_some.mpr ⟨rfl, hid⟩)
      | echo none => cases hharvest.symm.trans none
  | none =>
    constructor
    · intro h
      dsimp only at h
      split at h
      next echo hecho =>
        split at h
        next doc hdoc =>
          obtain ⟨hd, hid⟩ := rejectStale_eq_some.mp (Except.ok.inj h)
          rw [hd] at hid
          exact ⟨.echo hharvest hecho hdoc hd, hid⟩
        next => cases h
      next => cases h
    · rintro ⟨hdisk, hid⟩
      cases hdisk with
      | harvest file => cases hharvest.symm.trans file
      | echo none file hdoc hd =>
        dsimp only
        rw [file]
        dsimp only
        rw [hdoc]
        exact congrArg _ (rejectStale_eq_some.mpr ⟨hd, by rw [hd]; exact hid⟩)

theorem summaryVerdicts_eq_ok {set : OblSet} {bytes : Bytes}
    (hfile : files obl.path = some bytes) (hread : readObl bytes = .ok set)
    {v : VerdictFile.Verdicts} (h : summaryVerdicts files outDir module obl env set = .ok v) :
    (OnDisk files outDir module obl env v ∧ v.target = set.target ∧
      v.modelSemantics = set.modelSemantics) ∨ v.records = [] := by
  simp only [summaryVerdicts, bind_eq_ok, pure_eq_ok] at h
  obtain ⟨found, hfound, rfl⟩ := h
  cases found with
  | none => exact .inr rfl
  | some d => exact .inl ((verdictsForModule_eq_ok_some hfile hread).mp hfound)

end

/-! ## Rows and records that count -/

theorem obligationRow_of_lookup (sha : Digest) (module : String) (set : OblSet)
    {v : VerdictFile.Verdicts} {o : Obligation} {r : VerdictFile.VerdictRecord}
    (h : lookup v o.id o.idHash = some r) :
    (obligationRow sha module set v o).status = r.status ∧
      (obligationRow sha module set v o).trust = r.trust := by
  unfold obligationRow
  rw [h]
  exact ⟨rfl, rfl⟩

section

variable (sha : Digest) (files : Files) (outDir module : String) (obl : OblPath)
  (env : VerifyEnvKey) (set : OblSet)

/-- The statement a proof was made for is an obligation's, as the artifact has it. -/
def BindsStatement (o : Obligation) (r : VerdictFile.VerdictRecord) : Prop :=
  r.trust = .proof → r.statementHash = some (computedHash sha module set o)

/-- Every row of the summary that is not open is what the record of its obligation says, in a
document made for this build, and a proof is one of the obligation's statement. -/
def RowsCount : Prop :=
  ∀ v, summaryVerdicts files outDir module obl env set = .ok v → ∀ o ∈ set.obligations,
    (obligationRow sha module set v o).status ≠ .opened →
      ∃ d r, OnDisk files outDir module obl env d ∧ SameIdentity d set ∧
        lookup d o.id o.idHash = some r ∧ (obligationRow sha module set v o).status = r.status ∧
        (obligationRow sha module set v o).trust = r.trust ∧ BindsStatement sha module set o r

/-- Every record of the package that is not open stands in a document made for this build, and
a proof is one of an obligation's statement. -/
def RecordsCount : Prop :=
  ∀ v, moduleVerdicts files outDir module (some obl) env set.target set.modelSemantics
      set.concurrency = .ok v → ∀ r ∈ v.records, r.status ≠ .opened →
    ∃ d, OnDisk files outDir module obl env d ∧ SameIdentity d set ∧ r ∈ d.records ∧
      (r.trust = .proof → ∃ o ∈ set.obligations, o.id = r.id ∧ o.idHash = r.idHash ∧
        r.statementHash = some (computedHash sha module set o))

/-- What lies on the disk for the target and the model of the artifact has its concurrency too,
if it closes an obligation, and closes none by a proof of another statement. -/
def RowsFit : Prop :=
  ∀ d, OnDisk files outDir module obl env d → d.target = set.target →
    d.modelSemantics = set.modelSemantics → ∀ o ∈ set.obligations, ∀ r,
      lookup d o.id o.idHash = some r → r.status ≠ .opened →
        d.concurrency = set.concurrency ∧ BindsStatement sha module set o r

/-- The same of all its closed records, whether the artifact has their obligations or not. -/
def RecordsFit : Prop :=
  ∀ d, OnDisk files outDir module obl env d → d.target = set.target →
    d.modelSemantics = set.modelSemantics → ∀ r ∈ d.records, r.status ≠ .opened →
      d.concurrency = set.concurrency ∧ (r.trust = .proof → ∃ o ∈ set.obligations,
        o.id = r.id ∧ o.idHash = r.idHash ∧
          r.statementHash = some (computedHash sha module set o))

variable {sha files outDir module obl env set}

theorem lookup_of_closed {v : VerdictFile.Verdicts} {o : Obligation}
    (h : (obligationRow sha module set v o).status ≠ .opened) :
    ∃ r, lookup v o.id o.idHash = some r := by
  cases hlookup : lookup v o.id o.idHash with
  | some r => exact ⟨r, rfl⟩
  | none =>
    unfold obligationRow at h
    rw [hlookup] at h
    exact absurd rfl h

theorem summaryVerdicts_of_onDisk {bytes : Bytes} (hfile : files obl.path = some bytes)
    (hread : readObl bytes = .ok set) {d : VerdictFile.Verdicts}
    (hdisk : OnDisk files outDir module obl env d) (htarget : d.target = set.target)
    (hmodel : d.modelSemantics = set.modelSemantics) :
    summaryVerdicts files outDir module obl env set = .ok d := by
  have hfound := (verdictsForModule_eq_ok_some hfile hread).mpr ⟨hdisk, htarget, hmodel⟩
  exact bind_eq_ok.mpr ⟨some d, hfound, rfl⟩

theorem moduleVerdicts_some : moduleVerdicts files outDir module (some obl) env set.target
    set.modelSemantics set.concurrency = summaryVerdicts files outDir module obl env set := rfl

theorem rowsCount_iff {bytes : Bytes} (hfile : files obl.path = some bytes)
    (hread : readObl bytes = .ok set) :
    RowsCount sha files outDir module obl env set ↔ RowsFit sha files outDir module obl env set := by
  constructor
  · intro hcount d hdisk htarget hmodel o ho r hlookup hclosed
    have hrow := obligationRow_of_lookup sha module set hlookup
    have hv := summaryVerdicts_of_onDisk hfile hread hdisk htarget hmodel
    rw [← hrow.1] at hclosed
    obtain ⟨d', r', hdisk', hid, hlookup', -, -, hbinds⟩ := hcount d hv o ho hclosed
    rw [← hdisk.unique hdisk'] at hid hlookup'
    rw [Option.some.inj (hlookup.symm.trans hlookup')]
    exact ⟨hid.concurrency, hbinds⟩
  · intro hfit v hv o ho hclosed
    obtain ⟨r, hlookup⟩ := lookup_of_closed hclosed
    have hrow := obligationRow_of_lookup sha module set hlookup
    rw [hrow.1] at hclosed
    rcases summaryVerdicts_eq_ok hfile hread hv with ⟨hdisk, htarget, hmodel⟩ | hempty
    · obtain ⟨hconc, hbinds⟩ := hfit v hdisk htarget hmodel o ho r hlookup hclosed
      exact ⟨v, r, hdisk, ⟨htarget, hmodel, hconc⟩, hlookup, hrow.1, hrow.2, hbinds⟩
    · rw [lookup, hempty] at hlookup
      cases hlookup

theorem recordsCount_iff {bytes : Bytes} (hfile : files obl.path = some bytes)
    (hread : readObl bytes = .ok set) :
    RecordsCount sha files outDir module obl env set ↔
      RecordsFit sha files outDir module obl env set := by
  unfold RecordsCount
  rw [moduleVerdicts_some]
  constructor
  · intro hcount d hdisk htarget hmodel r hr hclosed
    have hv := summaryVerdicts_of_onDisk hfile hread hdisk htarget hmodel
    obtain ⟨d', hdisk', hid, -, hproof⟩ := hcount d hv r hr hclosed
    rw [← hdisk.unique hdisk'] at hid
    exact ⟨hid.concurrency, hproof⟩
  · intro hfit v hv r hr hclosed
    rcases summaryVerdicts_eq_ok hfile hread hv with ⟨hdisk, htarget, hmodel⟩ | hempty
    · obtain ⟨hconc, hproof⟩ := hfit v hdisk htarget hmodel r hr hclosed
      exact ⟨v, hdisk, ⟨htarget, hmodel, hconc⟩, hr, hproof⟩
    · rw [hempty] at hr
      exact absurd hr List.not_mem_nil

end

/-! ## A harvest document of an earlier build -/

/-- A module with one parameter check, in a bundle that declares no concurrency. -/
def bankSet : OblSet :=
  { rangeSet 0 10 with modelSemantics := "tyu.model/linux-x86_64-hosted/1" }

def intervalRecord : VerdictFile.VerdictRecord where
  id := "Bank::inc::subtype-range::0"
  idHash := idHashOf "Bank::inc::subtype-range::0"
  status := .discharged
  trust := .checked
  method := some .interval
  surface := none
  statementHash := none
  authored := none
  proof := none
  claimed := none
  justification := none
  witnessReason := none
  note := none

def harvestInput (concurrency : String) : VerdictFile.VerdictsInput where
  certifier := none
  target := "x86_64"
  modelSemantics := "tyu.model/linux-x86_64-hosted/1"
  concurrency := concurrency
  records := [intervalRecord]
  staleVerdicts := 0
  emitted := ⟨0, 0, 0⟩

def bankObl : OblPath := ⟨"out", "Bank-00000000000004d2.obl.json"⟩

def bankEnv : VerifyEnvKey :=
  ⟨"tyu.ir-sem/1.0", "tyu.stmt/1.0", 0, "tyu.model/linux-x86_64-hosted/1", 0, 0, 0⟩

/-- The artifact, and a harvest document that was made under a concurrency. -/
def bankFiles (concurrency : String) : Files := fun path =>
  if path = "out/Bank-00000000000004d2.obl.json" then some (writeDoc bankSet)
  else if path = "out/.tyu-verify/harvest/Bank.verdicts.v2.json" then
    some (write (VerdictFile.verdictsTree (harvestInput concurrency)))
  else none

def bankSha : Digest := fun _ =>
  "6e9bef4955d2f000b9526c82ad68f8b914c65e58ba3776608812f5a460ce4cda"

theorem bank_artifact (concurrency : String) :
    ∃ bytes, bankFiles concurrency bankObl.path = some bytes ∧
      readObl bytes = .ok bankSet := by
  have hgood : bankSet.BoundsReadable := by
    refine ⟨fun s hs => absurd hs List.not_mem_nil, fun o ho => ?_⟩
    rw [List.mem_singleton.mp ho]
    exact ⟨by decide, by decide⟩
  have hcap : (writeDoc bankSet).length ≤ OBL_ARTIFACT_MAX_BYTES := by decide +kernel
  exact ⟨writeDoc bankSet, rfl,
    readObl_eq_ok.mpr ⟨hcap, ⟨[], (parseDoc_writeDoc _).1 hgood⟩, rfl, rfl⟩⟩

theorem readVerdicts_harvest {concurrency : String} (hconc : VerdictFile.Readable concurrency)
    (hsize : (VerdictFile.verdictsTree (harvestInput concurrency)).size ≤
      VerdictFile.VERDICTS_FILE_MAX_BYTES) :
    VerdictFile.readVerdicts (write (VerdictFile.verdictsTree (harvestInput concurrency))) =
      .ok (harvestInput concurrency).verdicts := by
  have hnone : ∀ {α : Type} {P : α → Prop}, ∀ a ∈ (none : Option α), P a :=
    fun a ha => absurd ha (by simp)
  have hwf : intervalRecord.WellFormed :=
    ⟨fun _ => by decide, fun h => (nomatch h), fun m hm hbinds => by
      rw [← Option.some.inj hm] at hbinds
      exact absurd hbinds (by decide)⟩
  have hrecord : intervalRecord.Readable :=
    ⟨by decide, by decide +kernel, hnone, hnone, hnone, hnone, hnone, hnone⟩
  have htarget : VerdictFile.Readable "x86_64" := by decide
  have hmodel : VerdictFile.Readable "tyu.model/linux-x86_64-hosted/1" := by decide
  refine VerdictFile.readVerdicts_write ?_ hsize ⟨hnone, htarget, hmodel, hconc, ?_⟩
  · intro r hr
    rw [List.mem_singleton.mp hr]
    exact hwf
  · intro r hr
    rw [List.mem_singleton.mp hr]
    exact hrecord

theorem bank_onDisk {concurrency : String} (hconc : VerdictFile.Readable concurrency)
    (hsize : (VerdictFile.verdictsTree (harvestInput concurrency)).size ≤
      VerdictFile.VERDICTS_FILE_MAX_BYTES) :
    OnDisk (bankFiles concurrency) "out" "Bank" bankObl bankEnv (harvestInput concurrency).verdicts :=
  .harvest rfl (readVerdicts_harvest hconc hsize)

theorem bank_records (concurrency : String) :
    (harvestInput concurrency).verdicts.records = [intervalRecord] :=
  List.mergeSort_singleton ..

end Summary

end Tyu

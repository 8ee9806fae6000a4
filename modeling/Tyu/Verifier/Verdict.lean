import Tyu.Lib.Checked
import Tyu.Verifier.Stmt

/-! # Verdict files -/

namespace Tyu

open Lib Obl

inductive VerdictStatus where
  | discharged | assumed | opened
deriving DecidableEq

def VerdictStatus.isOpen : VerdictStatus → Bool
  | .opened => true
  | _ => false

def VerdictStatus.isClosed (s : VerdictStatus) : Bool := !s.isOpen

inductive Trust where
  | proof | checked | assumed | opened
deriving DecidableEq

inductive Method where
  | certificate | rederive | descriptor | stackExact | interval

def Method.bindsStatement : Method → Bool
  | .certificate | .rederive => true
  | _ => false

/-- Does the `proven` policy admit the method for `checked` trust? -/
def Method.provenAdmissibleChecked : Method → Bool
  | .descriptor | .stackExact => true
  | _ => false

inductive ProofKind where
  | certificate | exact | rederive
deriving DecidableEq

structure ProofInfo where
  kind : ProofKind
  statement : String

structure Claimed where
  status : VerdictStatus
  trust : Trust
  method : Option Method
  statementHash : Option String

structure VerdictRecord where
  id : String
  idHash : String
  status : VerdictStatus
  trust : Trust
  method : Option Method
  statementHash : Option String
  proof : Option ProofInfo
  claimed : Option Claimed
  justification : Option String
  witnessReason : Option String

def VerdictRecord.downgradedToAssumed (r : VerdictRecord) : VerdictRecord :=
  { r with
    claimed := some ⟨r.status, r.trust, r.method, r.statementHash⟩
    status := .assumed
    trust := .assumed }

inductive VerdictError where
  | malformed
  | schemaVersion (found : String)
  | semanticsMismatch (found : String)

structure RawRecord where
  id : Option String
  idHash : Option String
  status : Option VerdictStatus
  trust : Option Trust
  method : Option Method
  statementHash : Option String
  proof : Option ProofInfo
  claimed : Option Claimed
  justification : Option String
  witnessReason : Option String

/-- The rules a record must meet: trust on closed verdicts, a proof object on `proof`, a
statement hash for the methods that bind one. -/
def readRecord (raw : RawRecord) : Except VerdictError VerdictRecord := do
  let id ← expect raw.id .malformed
  let idHash ← expect raw.idHash .malformed
  let status ← expect raw.status .malformed
  let trust := raw.trust.getD .opened
  require (¬(status.isClosed = true ∧ trust = .opened)) .malformed
  require (¬(trust = .proof ∧ raw.proof = none)) .malformed
  require (¬(raw.method.any Method.bindsStatement = true ∧ raw.statementHash = none)) .malformed
  pure ⟨id, idHash, status, trust, raw.method, raw.statementHash, raw.proof, raw.claimed,
    raw.justification, raw.witnessReason⟩

structure Certifier where
  recognition : String

def RECOGNIZED_CERTIFIERS : List String := ["tyu-port/lean/1"]

def CONCURRENCY_UNMODELED : String := "unmodeled"

structure Verdicts where
  certifier : Option Certifier
  target : String
  modelSemantics : String
  concurrency : String
  records : List VerdictRecord

namespace Verdicts

def lookup (v : Verdicts) (id idHash : String) : Option VerdictRecord :=
  v.records.find? fun r => r.id == id && r.idHash == idHash

def producerRecognized (v : Verdicts) : Bool :=
  match v.certifier with
  | some c => RECOGNIZED_CERTIFIERS.contains c.recognition
  | none => false

/-- Without a recognized producer no record keeps `proof`. -/
def restrictToRecognized (v : Verdicts) : Verdicts :=
  if v.producerRecognized then v
  else { v with records := v.records.map fun r => match r.trust with
    | .proof => r.downgradedToAssumed
    | _ => r }

end Verdicts

structure RawVerdicts where
  schema : Option String
  semantics : Option String
  certifier : Option Certifier
  target : Option String
  modelSemantics : Option String
  concurrency : Option String
  records : Option (List RawRecord)

def VERDICTS_SCHEMA : String := "tyu.verdicts/v2"

/-- Read a file: every record is checked, and the records are sorted by id. -/
def readVerdicts (raw : RawVerdicts) : Except VerdictError Verdicts := do
  let rawRecords ← expect raw.records .malformed
  let records ← rawRecords.mapM readRecord
  let schema ← expect raw.schema .malformed
  let semantics ← expect raw.semantics .malformed
  require (schema = VERDICTS_SCHEMA) (.schemaVersion schema)
  require (semantics = SEMANTICS_VERSION) (.semanticsMismatch semantics)
  pure {
    certifier := raw.certifier
    target := raw.target.getD ""
    modelSemantics := raw.modelSemantics.getD ""
    concurrency := raw.concurrency.getD CONCURRENCY_UNMODELED
    records := records.mergeSort fun a b => !decide (b.id < a.id) }

/-- What the compiler goes by: the file as read, without claims it cannot accept. -/
def loadVerdicts (raw : RawVerdicts) : Except VerdictError Verdicts := do
  let v ← readVerdicts raw
  pure v.restrictToRecognized

end Tyu

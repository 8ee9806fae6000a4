import Tyu.Verifier.Manifest
import Tyu.Verifier.Verdict

/-! # Verdict files and their writer -/

namespace Tyu

open Lib Lib.Json Manifest

namespace VerdictFile

/-! ## The document -/

def statusStr : VerdictStatus → String
  | .discharged => "discharged"
  | .assumed => "assumed"
  | .opened => "open"

def trustStr : Trust → String
  | .proof => "proof"
  | .checked => "checked"
  | .assumed => "assumed"
  | .opened => "open"

def methodStr : Method → String
  | .certificate => "certificate"
  | .rederive => "rederive"
  | .descriptor => "descriptor"
  | .stackExact => "stack-exact"
  | .interval => "interval"

def proofKindStr : ProofKind → String
  | .certificate => "certificate"
  | .exact => "exact"
  | .rederive => "rederive"

inductive ProofSurface where
  | source | ir

def ProofSurface.asStr : ProofSurface → String
  | .source => "source"
  | .ir => "ir"

inductive Authored where
  | developer | candidate

def Authored.asStr : Authored → String
  | .developer => "developer"
  | .candidate => "candidate"

structure ToolIdentity where
  name : String
  version : String

structure Certifier where
  cls : String
  name : String
  recognition : String
  tool : ToolIdentity
  toolchain : String

structure ProofInfo where
  kind : ProofKind
  statement : String
  thm : Option String
  kernelCheck : Option String
  file : Option String
  relies : Option (List String)

structure Claimed where
  status : Option String
  trust : Option String
  method : Option String
  statementHash : Option String

structure VerdictRecord where
  id : String
  idHash : String
  status : VerdictStatus
  trust : Trust
  method : Option Method
  surface : Option ProofSurface
  statementHash : Option String
  authored : Option Authored
  proof : Option ProofInfo
  claimed : Option Claimed
  justification : Option String
  witnessReason : Option String
  note : Option String

structure EmittedChecksData where
  subtypeRange : UInt32
  contract : UInt32
  mmioBounds : UInt32

structure ProvablyFailingRecord where
  id : String
  note : String

structure OpenReasonRecord where
  id : String
  reason : String

structure Verdicts where
  semantics : String
  stmt : String
  certifier : Option Certifier
  target : String
  modelSemantics : String
  concurrency : String
  records : List VerdictRecord

inductive VerdictError where
  | malformed
  | schemaVersion (found : String)
  | semanticsMismatch (found : String)
  | unknownMethod (found : String) (kind : String)
  | tooLarge (size : Nat)

def VERDICTS_FILE_MAX_BYTES : Nat := 4 * 1024 * 1024
def VERDICT_ID_MAX_BYTES : Nat := 512

/-- The rules of the reader: trust on closed verdicts, a proof object on `proof`, a statement
hash for the methods that bind one. -/
structure VerdictRecord.WellFormed (r : VerdictRecord) : Prop where
  trusted : r.status.isClosed = true → r.trust ≠ .opened
  proof : r.trust = .proof → r.proof ≠ none
  hash : ∀ m, r.method = some m → m.bindsStatement = true → r.statementHash ≠ none

/-! ## Writer -/

def pushOptional {α : Type} (key : String) (value : α → Bytes) (o : Option α) : Bytes :=
  match o with
  | some a => utf8 key ++ value a
  | none => []

/-- A value, or `null`. -/
def pushStrOrNull (o : Option String) : Bytes :=
  match o with
  | some s => pushStrJson s
  | none => utf8 "null"

def pushStrArray (xs : List String) : Bytes := utf8 "[" ++ commaSep pushStrJson xs ++ utf8 "]"

def pushProofJson (p : ProofInfo) : Bytes :=
  utf8 "\x7b" ++ utf8 "\"kind\":" ++ pushStrJson (proofKindStr p.kind) ++
    utf8 ",\"statement\":" ++ pushStrJson p.statement ++
    pushOptional ",\"theorem\":" pushStrJson p.thm ++
    pushOptional ",\"kernel_check\":" pushStrJson p.kernelCheck ++
    pushOptional ",\"file\":" pushStrJson p.file ++
    pushOptional ",\"relies\":" pushStrArray p.relies ++ utf8 "\x7d"

def pushClaimedJson (c : Claimed) : Bytes :=
  utf8 "\x7b\"status\":" ++ pushStrOrNull c.status ++
    utf8 ",\"trust\":" ++ pushStrOrNull c.trust ++
    utf8 ",\"method\":" ++ pushStrOrNull c.method ++
    utf8 ",\"statement_hash\":" ++ pushStrOrNull c.statementHash ++ utf8 "\x7d"

def pushWitnessJson (reason : String) : Bytes :=
  utf8 "\x7b\"reason\":" ++ pushStrJson reason ++ utf8 "\x7d"

def pushRecordJson (r : VerdictRecord) : Bytes :=
  utf8 "\x7b\"id\":" ++ pushStrJson r.id ++
    utf8 ",\"id_hash\":" ++ pushStrJson r.idHash ++
    utf8 ",\"status\":" ++ pushStrJson (statusStr r.status) ++
    utf8 ",\"trust\":" ++ pushStrJson (trustStr r.trust) ++
    pushOptional ",\"method\":" (fun m => pushStrJson (methodStr m)) r.method ++
    pushOptional ",\"surface\":" (fun s => pushStrJson s.asStr) r.surface ++
    pushOptional ",\"statement_hash\":" pushStrJson r.statementHash ++
    pushOptional ",\"authored\":" (fun a => pushStrJson a.asStr) r.authored ++
    pushOptional ",\"proof\":" pushProofJson r.proof ++
    pushOptional ",\"claimed\":" pushClaimedJson r.claimed ++
    pushOptional ",\"justification\":" pushStrJson r.justification ++
    pushOptional ",\"witness\":" pushWitnessJson r.witnessReason ++
    pushOptional ",\"note\":" pushStrJson r.note ++ utf8 "\x7d"

def pushCertifierJson : Option Certifier → Bytes
  | some c =>
    utf8 "\x7b\"class\":" ++ pushStrJson c.cls ++
      utf8 ",\"name\":" ++ pushStrJson c.name ++
      utf8 ",\"recognition\":" ++ pushStrJson c.recognition ++
      utf8 ",\"tool\":\x7b\"name\":" ++ pushStrJson c.tool.name ++
      utf8 ",\"version\":" ++ pushStrJson c.tool.version ++
      utf8 "\x7d,\"toolchain\":" ++ pushStrJson c.toolchain ++ utf8 "\x7d"
  | none => utf8 "null"

def pushEmittedJson (e : EmittedChecksData) : Bytes :=
  if e.subtypeRange ≠ 0 ∨ e.contract ≠ 0 ∨ e.mmioBounds ≠ 0 then
    utf8 ",\"emitted\":\x7b\"subtype_range\":" ++ pushI64Json e.subtypeRange.toNat ++
      utf8 ",\"contract\":" ++ pushI64Json e.contract.toNat ++
      utf8 ",\"mmio_bounds\":" ++ pushI64Json e.mmioBounds.toNat ++ utf8 "\x7d"
  else []

structure VerdictsInput where
  certifier : Option Certifier
  target : String
  modelSemantics : String
  concurrency : String
  records : List VerdictRecord
  staleVerdicts : UInt32
  emitted : EmittedChecksData

def verdictsText (v : VerdictsInput) : Bytes :=
  utf8 "\x7b\"schema\":" ++ pushStrJson VERDICTS_SCHEMA ++
    utf8 ",\"certifier\":" ++ pushCertifierJson v.certifier ++
    utf8 ",\"semantics\":" ++ pushStrJson SEMANTICS_VERSION ++
    utf8 ",\"stmt\":" ++ pushStrJson STMT_SCHEMA ++
    utf8 ",\"target\":" ++ pushStrJson v.target ++
    utf8 ",\"model_semantics\":" ++ pushStrJson v.modelSemantics ++
    utf8 ",\"concurrency\":" ++ pushStrJson v.concurrency ++
    utf8 ",\"verdicts\":[" ++ commaSep pushRecordJson v.records ++ utf8 "]" ++
    (if v.staleVerdicts ≠ 0 then
      utf8 ",\"stale_verdicts\":" ++ pushI64Json v.staleVerdicts.toNat
    else []) ++
    pushEmittedJson v.emitted ++ utf8 "\x7d"

def encodeVerdicts (v : VerdictsInput) : Except VerdictError Bytes := do
  let out := verdictsText v
  require (out.length ≤ VERDICTS_FILE_MAX_BYTES) (.tooLarge out.length)
  pure out

structure EchoInput where
  toolName : String
  toolVersion : String
  target : String
  modelSemantics : String
  concurrency : String
  records : List VerdictRecord
  staleVerdicts : UInt32
  emitted : EmittedChecksData
  provablyFailing : List ProvablyFailingRecord
  openReasons : List OpenReasonRecord
  inTreeVerdicts : UInt32
  verifyTool : Option String

def EchoInput.verdicts (e : EchoInput) : VerdictsInput where
  certifier := some {
    cls := "in-tree"
    name := e.toolName
    recognition := "-"
    tool := { name := e.toolName, version := e.toolVersion }
    toolchain := "-" }
  target := e.target
  modelSemantics := e.modelSemantics
  concurrency := e.concurrency
  records := e.records
  staleVerdicts := e.staleVerdicts
  emitted := e.emitted

def pushArrayMember {α : Type} (key : String) (item : α → Bytes) (xs : List α) : Bytes :=
  if xs.isEmpty then [] else utf8 key ++ commaSep item xs ++ utf8 "]"

def EchoInput.fileVerdicts (e : EchoInput) : UInt32 :=
  UInt32.ofNat e.records.length - min (UInt32.ofNat e.records.length) e.inTreeVerdicts

def pushPfiJson (p : ProvablyFailingRecord) : Bytes :=
  utf8 "\x7b\"id\":" ++ pushStrJson p.id ++ utf8 ",\"note\":" ++ pushStrJson p.note ++ utf8 "\x7d"

def pushReasonJson (r : OpenReasonRecord) : Bytes :=
  utf8 "\x7b\"id\":" ++ pushStrJson r.id ++ utf8 ",\"reason\":" ++ pushStrJson r.reason ++
    utf8 "\x7d"

def echoMembers (e : EchoInput) : Bytes :=
  pushArrayMember ",\"provably_failing\":[" pushPfiJson e.provablyFailing ++
    pushArrayMember ",\"open_reasons\":[" pushReasonJson e.openReasons ++
    (if e.records.isEmpty then [] else
      utf8 ",\"verdict_sources\":\x7b\"file\":" ++ pushI64Json e.fileVerdicts.toNat ++
        utf8 ",\"in_tree\":" ++ pushI64Json e.inTreeVerdicts.toNat ++ utf8 "\x7d") ++
    pushOptional ",\"verify_tool\":" pushStrJson e.verifyTool

/-- The echo: the verdicts document with further members spliced in before its last brace. -/
def encodeEcho (e : EchoInput) : Except VerdictError Bytes := do
  let doc ← encodeVerdicts e.verdicts
  let out := doc.dropLast ++ echoMembers e ++ utf8 "\x7d"
  require (out.length ≤ VERDICTS_FILE_MAX_BYTES) (.tooLarge out.length)
  pure out

end VerdictFile

end Tyu

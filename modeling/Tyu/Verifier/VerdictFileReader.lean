import Tyu.Lib.JsonReader
import Tyu.Verifier.VerdictFile

/-! # The reader of verdict files -/

namespace Tyu

open Lib Lib.Json

namespace VerdictFile

/-! ## Values -/

abbrev VReader := Reader VerdictError

def err {α : Type} : VReader α := throw .malformed

def shortEscape (e : UInt8) : Option UInt8 :=
  if e = 0x22 then some 0x22
  else if e = 0x5C then some 0x5C
  else if e = 0x2F then some 0x2F
  else if e = 0x6E then some 0x0A
  else if e = 0x74 then some 0x09
  else if e = 0x72 then some 0x0D
  else if e = 0x62 then some 0x08
  else if e = 0x66 then some 0x0C
  else none

/-- The bytes of a string up to its closing quote, with a check of the length after each. -/
def stringBytes : Bytes → Bytes → Except VerdictError (Bytes × Bytes)
  | _, [] => .error .malformed
  | out, b :: rest =>
    if b = 0x22 then .ok (out, rest)
    else if b = 0x5C then
      match rest with
      | [] => .error .malformed
      | e :: rest =>
        match shortEscape e with
        | some c =>
          if (out ++ [c]).length > VERDICT_ID_MAX_BYTES then .error .malformed
          else stringBytes (out ++ [c]) rest
        | none => .error .malformed
    else if b < 0x20 then .error .malformed
    else if (out ++ [b]).length > VERDICT_ID_MAX_BYTES then .error .malformed
    else stringBytes (out ++ [b]) rest

def parseString : VReader String := do
  skipWs
  let b ← bump .malformed
  if b ≠ 0x22 then err
  else
    let out ← (stringBytes [] : VReader Bytes)
    match String.fromUTF8? out.toByteArray with
    | some s => pure s
    | none => err

def parseDigits (neg : Bool) : VReader Int := do
  let bytes ← get
  let digits := bytes.takeWhile isDigit
  if digits = [] then err
  else
    set (bytes.dropWhile isDigit)
    let v := digitsFrom 0 digits
    if v > 2 ^ 63 - 1 then err else pure (if neg then -v else v)

def parseI64 : VReader Int := do
  skipWs
  if (← peek) = some 0x2D then
    advance
    parseDigits true
  else parseDigits false

def parseU32 : VReader UInt32 := do
  let v ← parseI64
  if v < 0 ∨ v > 2 ^ 32 - 1 then err else pure (UInt32.ofNat v.toNat)

def skipToken (token : Bytes) : VReader Unit := do
  let rest ← get
  if rest.take token.length = token then set (rest.drop token.length) else err

/-- To the bracket that closes the one consumed, over nested brackets and strings. -/
def skipNested (opn cls : UInt8) : Nat → Nat → VReader Unit
  | 0, _ => err
  | fuel + 1, depth =>
    if depth = 0 then pure ()
    else do
      let next ← peek
      if next = some opn then
        advance
        skipNested opn cls fuel (depth + 1)
      else if next = some cls then
        advance
        skipNested opn cls fuel (depth - 1)
      else if next = some 0x22 then
        let _ ← parseString
        skipNested opn cls fuel depth
      else if next = none then err
      else
        advance
        skipNested opn cls fuel depth

def skipValue : VReader Unit := do
  skipWs
  let rest ← get
  let next ← peek
  if next = some 0x22 then
    let _ ← parseString
  else if next = some 0x7B then
    advance
    skipNested 0x7B 0x7D (rest.length + 1) 1
  else if next = some 0x5B then
    advance
    skipNested 0x5B 0x5D (rest.length + 1) 1
  else if next = some 0x74 then skipToken (utf8 "true")
  else if next = some 0x66 then skipToken (utf8 "false")
  else if next = some 0x6E then skipToken (utf8 "null")
  else if next = some 0x2D ∨ next.any isDigit then
    let _ ← parseI64
  else err

def skipUnknown {σ : Type} (s : σ) : VReader σ := do
  skipValue
  pure s

def parseObject {σ : Type} (member : String → σ → VReader σ) (s : σ) : VReader σ :=
  readObject .malformed parseString member s

def parseArray {α : Type} (item : VReader α) : VReader (List α) := readArray .malformed item

def parseClosed {α : Type} (parse : String → Option α) (unknown : String → VerdictError) :
    VReader α := do
  let v ← parseString
  match parse v with
  | some a => pure a
  | none => throw (unknown v)

def need {α : Type} (o : Option α) : VReader α :=
  match o with
  | some a => pure a
  | none => err

def statusParse : String → Option VerdictStatus
  | "discharged" => some .discharged
  | "assumed" => some .assumed
  | "open" => some .opened
  | _ => none

def trustParse : String → Option Trust
  | "proof" => some .proof
  | "checked" => some .checked
  | "assumed" => some .assumed
  | "open" => some .opened
  | _ => none

def methodParse : String → Option Method
  | "certificate" => some .certificate
  | "rederive" => some .rederive
  | "descriptor" => some .descriptor
  | "stack-exact" => some .stackExact
  | "interval" => some .interval
  | _ => none

def proofKindParse : String → Option ProofKind
  | "certificate" => some .certificate
  | "exact" => some .exact
  | "rederive" => some .rederive
  | _ => none

def surfaceParse : String → Option ProofSurface
  | "source" => some .source
  | "ir" => some .ir
  | _ => none

def authoredParse : String → Option Authored
  | "developer" => some .developer
  | "candidate" => some .candidate
  | _ => none

/-! ## Records -/

structure ProofParts where
  kind : Option ProofKind := none
  statement : Option String := none
  thm : Option String := none
  kernelCheck : Option String := none
  file : Option String := none
  relies : Option (List String) := none

def proofMember (key : String) (s : ProofParts) : VReader ProofParts :=
  match key with
  | "kind" => do
    let v ← parseClosed proofKindParse fun found => .unknownMethod found "proof.kind"
    pure { s with kind := some v }
  | "statement" => do let v ← parseString; pure { s with statement := some v }
  | "theorem" => do let v ← parseString; pure { s with thm := some v }
  | "kernel_check" => do let v ← parseString; pure { s with kernelCheck := some v }
  | "file" => do let v ← parseString; pure { s with file := some v }
  | "relies" => do let v ← parseArray parseString; pure { s with relies := some v }
  | _ => skipUnknown s

def parseProof : VReader ProofInfo := do
  let s ← parseObject proofMember {}
  let kind ← need s.kind
  let statement ← need s.statement
  pure ⟨kind, statement, s.thm, s.kernelCheck, s.file, s.relies⟩

def claimedMember (key : String) (s : Claimed) : VReader Claimed :=
  match key with
  | "status" => do let v ← parseString; pure { s with status := some v }
  | "trust" => do let v ← parseString; pure { s with trust := some v }
  | "method" => do let v ← parseString; pure { s with method := some v }
  | "statement_hash" => do let v ← parseString; pure { s with statementHash := some v }
  | _ => skipUnknown s

def parseClaimed : VReader Claimed := parseObject claimedMember ⟨none, none, none, none⟩

def witnessMember (key : String) (s : Option String) : VReader (Option String) :=
  match key with
  | "reason" => do let v ← parseString; pure (some v)
  | _ => skipUnknown s

structure RecordParts where
  id : Option String := none
  idHash : Option String := none
  status : Option VerdictStatus := none
  trust : Option Trust := none
  method : Option Method := none
  surface : Option ProofSurface := none
  statementHash : Option String := none
  authored : Option Authored := none
  proof : Option ProofInfo := none
  claimed : Option Claimed := none
  justification : Option String := none
  witnessReason : Option String := none
  note : Option String := none

def recordMember (key : String) (s : RecordParts) : VReader RecordParts :=
  match key with
  | "id" => do let v ← parseString; pure { s with id := some v }
  | "id_hash" => do let v ← parseString; pure { s with idHash := some v }
  | "status" => do
    let v ← parseClosed statusParse fun _ => .malformed
    pure { s with status := some v }
  | "trust" => do
    let v ← parseClosed trustParse fun _ => .malformed
    pure { s with trust := some v }
  | "method" => do
    let v ← parseClosed methodParse fun found => .unknownMethod found "method"
    pure { s with method := some v }
  | "surface" => do
    let v ← parseClosed surfaceParse fun _ => .malformed
    pure { s with surface := some v }
  | "statement_hash" => do let v ← parseString; pure { s with statementHash := some v }
  | "authored" => do
    let v ← parseClosed authoredParse fun _ => .malformed
    pure { s with authored := some v }
  | "proof" => do let v ← parseProof; pure { s with proof := some v }
  | "claimed" => do let v ← parseClaimed; pure { s with claimed := some v }
  | "justification" => do let v ← parseString; pure { s with justification := some v }
  | "witness" => do
    let v ← parseObject witnessMember s.witnessReason
    pure { s with witnessReason := v }
  | "note" => do let v ← parseString; pure { s with note := some v }
  | _ => skipUnknown s

/-- The rules of a record: trust on a closed verdict, a proof object on `proof`, a statement
hash for a method that binds one. -/
def recordOf (s : RecordParts) : VReader VerdictRecord := do
  let id ← need s.id
  let idHash ← need s.idHash
  let status ← need s.status
  let trust := s.trust.getD .opened
  if status.isClosed = true ∧ trust = .opened then err
  else if trust = .proof ∧ s.proof.isNone = true then err
  else if s.method.any Method.bindsStatement = true ∧ s.statementHash.isNone = true then err
  else
    pure { id, idHash, status, trust, method := s.method, surface := s.surface
           statementHash := s.statementHash, authored := s.authored, proof := s.proof
           claimed := s.claimed, justification := s.justification
           witnessReason := s.witnessReason, note := s.note }

def parseRecord : VReader VerdictRecord := do
  let s ← parseObject recordMember {}
  recordOf s

/-! ## The document -/

structure ToolParts where
  name : Option String := none
  version : Option String := none

def toolMember (key : String) (s : ToolParts) : VReader ToolParts :=
  match key with
  | "name" => do let v ← parseString; pure { s with name := some v }
  | "version" => do let v ← parseString; pure { s with version := some v }
  | _ => skipUnknown s

structure CertifierParts where
  cls : Option String := none
  name : Option String := none
  recognition : Option String := none
  tool : ToolParts := {}
  toolchain : Option String := none

def certifierMember (key : String) (s : CertifierParts) : VReader CertifierParts :=
  match key with
  | "class" => do let v ← parseString; pure { s with cls := some v }
  | "name" => do let v ← parseString; pure { s with name := some v }
  | "recognition" => do let v ← parseString; pure { s with recognition := some v }
  | "tool" => do let v ← parseObject toolMember s.tool; pure { s with tool := v }
  | "toolchain" => do let v ← parseString; pure { s with toolchain := some v }
  | _ => skipUnknown s

def certifierOf (s : CertifierParts) : VReader (Option Certifier) := do
  let cls ← need s.cls
  let name ← need s.name
  let recognition ← need s.recognition
  pure (some {
    cls, name, recognition
    tool := { name := s.tool.name.getD "", version := s.tool.version.getD "" }
    toolchain := s.toolchain.getD "" })

def parseCertifier : VReader (Option Certifier) := do
  skipWs
  if (← peek) = some 0x6E then
    skipValue
    pure none
  else
    let s ← parseObject certifierMember {}
    certifierOf s

def emittedMember (key : String) (s : EmittedChecksData) : VReader EmittedChecksData :=
  match key with
  | "subtype_range" => do let v ← parseU32; pure { s with subtypeRange := v }
  | "contract" => do let v ← parseU32; pure { s with contract := v }
  | "mmio_bounds" => do let v ← parseU32; pure { s with mmioBounds := v }
  | _ => skipUnknown s

def parseEmitted : VReader EmittedChecksData := parseObject emittedMember ⟨0, 0, 0⟩

structure PfiParts where
  id : Option String := none
  note : Option String := none

def pfiMember (key : String) (s : PfiParts) : VReader PfiParts :=
  match key with
  | "id" => do let v ← parseString; pure { s with id := some v }
  | "note" => do let v ← parseString; pure { s with note := some v }
  | _ => skipUnknown s

def parsePfi : VReader ProvablyFailingRecord := do
  let s ← parseObject pfiMember {}
  let id ← need s.id
  let note ← need s.note
  pure ⟨id, note⟩

structure ReasonParts where
  id : Option String := none
  reason : Option String := none

def reasonMember (key : String) (s : ReasonParts) : VReader ReasonParts :=
  match key with
  | "id" => do let v ← parseString; pure { s with id := some v }
  | "reason" => do let v ← parseString; pure { s with reason := some v }
  | _ => skipUnknown s

def parseReason : VReader OpenReasonRecord := do
  let s ← parseObject reasonMember {}
  let id ← need s.id
  let reason ← need s.reason
  pure ⟨id, reason⟩

def sourcesMember (key : String) (s : UInt32 × UInt32) : VReader (UInt32 × UInt32) :=
  match key with
  | "file" => do let v ← parseU32; pure (v, s.2)
  | "in_tree" => do let v ← parseU32; pure (s.1, v)
  | _ => skipUnknown s

structure DocParts where
  schema : Option String := none
  semantics : Option String := none
  stmt : Option String := none
  certifier : Option Certifier := none
  target : Option String := none
  modelSemantics : Option String := none
  concurrency : Option String := none
  records : Option (List VerdictRecord) := none
  staleVerdicts : Option UInt32 := none
  emitted : Option EmittedChecksData := none
  provablyFailing : Option (List ProvablyFailingRecord) := none
  openReasons : Option (List OpenReasonRecord) := none
  sources : Option (UInt32 × UInt32) := none

def docMember (key : String) (s : DocParts) : VReader DocParts :=
  match key with
  | "schema" => do let v ← parseString; pure { s with schema := some v }
  | "semantics" => do let v ← parseString; pure { s with semantics := some v }
  | "stmt" => do let v ← parseString; pure { s with stmt := some v }
  | "certifier" => do let v ← parseCertifier; pure { s with certifier := v }
  | "target" => do let v ← parseString; pure { s with target := some v }
  | "model_semantics" => do let v ← parseString; pure { s with modelSemantics := some v }
  | "concurrency" => do let v ← parseString; pure { s with concurrency := some v }
  | "verdicts" => do let v ← parseArray parseRecord; pure { s with records := some v }
  | "stale_verdicts" => do let v ← parseU32; pure { s with staleVerdicts := some v }
  | "emitted" => do let v ← parseEmitted; pure { s with emitted := some v }
  | "provably_failing" => do let v ← parseArray parsePfi; pure { s with provablyFailing := some v }
  | "open_reasons" => do let v ← parseArray parseReason; pure { s with openReasons := some v }
  | "verdict_sources" => do
    let v ← parseObject sourcesMember (0, 0)
    pure { s with sources := some v }
  | _ => skipUnknown s

structure Doc where
  schema : String
  verdicts : Verdicts
  staleVerdicts : UInt32
  emitted : EmittedChecksData
  provablyFailing : List ProvablyFailingRecord
  openReasons : List OpenReasonRecord
  fileVerdicts : UInt32
  inTreeVerdicts : UInt32

def docOf (s : DocParts) : VReader Doc := do
  let schema ← need s.schema
  let semantics ← need s.semantics
  let records ← need s.records
  pure {
    schema
    verdicts := {
      semantics, records
      stmt := s.stmt.getD STMT_SCHEMA
      certifier := s.certifier
      target := s.target.getD ""
      modelSemantics := s.modelSemantics.getD ""
      concurrency := s.concurrency.getD CONCURRENCY_UNMODELED }
    staleVerdicts := s.staleVerdicts.getD 0
    emitted := s.emitted.getD ⟨0, 0, 0⟩
    provablyFailing := s.provablyFailing.getD []
    openReasons := s.openReasons.getD []
    fileVerdicts := (s.sources.getD (0, 0)).1
    inTreeVerdicts := (s.sources.getD (0, 0)).2 }

def parseDoc : VReader Doc := do
  let s ← parseObject docMember {}
  docOf s

def readEcho (bytes : Bytes) : Except VerdictError Doc := do
  require (bytes.length ≤ VERDICTS_FILE_MAX_BYTES) (.tooLarge bytes.length)
  let (doc, _) ← parseDoc.run bytes
  require (doc.schema = VERDICTS_SCHEMA) (.schemaVersion doc.schema)
  require (doc.verdicts.semantics = SEMANTICS_VERSION) (.semanticsMismatch doc.verdicts.semantics)
  pure doc

def sortById (records : List VerdictRecord) : List VerdictRecord :=
  records.mergeSort fun a b => !decide (b.id < a.id)

def readVerdicts (bytes : Bytes) : Except VerdictError Verdicts := do
  let doc ← readEcho bytes
  pure { doc.verdicts with records := sortById doc.verdicts.records }

end VerdictFile

end Tyu

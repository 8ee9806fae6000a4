import Tyu.Verifier.ManifestTree
import Tyu.Verifier.VerdictFileReader

/-! # A verdicts file as a JSON tree -/

namespace Tyu

open Lib Lib.Json Manifest

namespace VerdictFile

theorem writeMembers_optional {α : Type} {text key : String} {value : α → Bytes}
    {tree : α → Json} (hkey : utf8 text = following key) (hvalue : ∀ a, value a = write (tree a))
    (o : Option α) : pushOptional text value o = writeMembers (optionalMember key tree o) := by
  cases o with
  | none => rfl
  | some a =>
    show utf8 text ++ value a = _
    rw [hkey, hvalue]
    simp [optionalMember, writeMembers, following]

/-- A string, or `null`. -/
def orNull (o : Option String) : Json :=
  match o with
  | some s => .str s
  | none => .null

theorem pushStrOrNull_eq (o : Option String) : pushStrOrNull o = write (orNull o) := by
  cases o with
  | none => rfl
  | some s => rw [pushStrOrNull, pushStrJson_eq, orNull, write]

theorem pushStrArray_eq (xs : List String) : pushStrArray xs = write (.arr (xs.map Json.str)) := by
  rw [pushStrArray, pushStrJson_eq, write_strings]
  rfl

def proofTree (p : ProofInfo) : Json :=
  .obj (("kind", .str (proofKindStr p.kind)) :: ("statement", .str p.statement) ::
    (optionalMember "theorem" Json.str p.thm ++
      (optionalMember "kernel_check" Json.str p.kernelCheck ++
        (optionalMember "file" Json.str p.file ++
          (optionalMember "relies" (fun xs => .arr (xs.map Json.str)) p.relies ++ [])))))

theorem quote_eq_write (s : String) : quote s = write (.str s) := rfl

theorem pushProofJson_eq (p : ProofInfo) : pushProofJson p = write (proofTree p) := by
  have hkind : utf8 "\x7b" ++ utf8 "\"kind\":" = opening "kind" := rfl
  have hstatement : utf8 ",\"statement\":" = following "statement" := rfl
  have htheorem : utf8 ",\"theorem\":" = following "theorem" := rfl
  have hcheck : utf8 ",\"kernel_check\":" = following "kernel_check" := rfl
  have hfile : utf8 ",\"file\":" = following "file" := rfl
  have hrelies : utf8 ",\"relies\":" = following "relies" := rfl
  have hclose : utf8 "\x7d" = [0x7D] := rfl
  unfold pushProofJson proofTree
  simp only [hkind, hstatement, hclose, pushStrJson_eq, writeMembers_optional htheorem quote_eq_write,
    writeMembers_optional hcheck quote_eq_write, writeMembers_optional hfile quote_eq_write,
    writeMembers_optional hrelies pushStrArray_eq, opening, following, write, writeMembers,
    writeMembers_append, List.append_assoc, List.cons_append, List.nil_append]

def claimedTree (c : Claimed) : Json :=
  .obj [("status", orNull c.status), ("trust", orNull c.trust), ("method", orNull c.method),
    ("statement_hash", orNull c.statementHash)]

theorem pushClaimedJson_eq (c : Claimed) : pushClaimedJson c = write (claimedTree c) := by
  have hstatus : utf8 "\x7b\"status\":" = opening "status" := rfl
  have htrust : utf8 ",\"trust\":" = following "trust" := rfl
  have hmethod : utf8 ",\"method\":" = following "method" := rfl
  have hhash : utf8 ",\"statement_hash\":" = following "statement_hash" := rfl
  have hclose : utf8 "\x7d" = [0x7D] := rfl
  unfold pushClaimedJson claimedTree
  simp only [hstatus, htrust, hmethod, hhash, hclose, pushStrOrNull_eq, opening, following, write,
    writeMembers, List.append_assoc, List.cons_append, List.nil_append]

def witnessTree (reason : String) : Json := .obj [("reason", .str reason)]

theorem pushWitnessJson_eq (reason : String) :
    pushWitnessJson reason = write (witnessTree reason) := by
  unfold pushWitnessJson witnessTree
  simp only [pushStrJson_eq, write, writeMembers, List.append_assoc]
  rfl

def recordTree (r : VerdictRecord) : Json :=
  .obj (("id", .str r.id) :: ("id_hash", .str r.idHash) :: ("status", .str (statusStr r.status)) ::
    ("trust", .str (trustStr r.trust)) ::
    (optionalMember "method" (fun m => .str (methodStr m)) r.method ++
      (optionalMember "surface" (fun s => .str s.asStr) r.surface ++
        (optionalMember "statement_hash" Json.str r.statementHash ++
          (optionalMember "authored" (fun a => .str a.asStr) r.authored ++
            (optionalMember "proof" proofTree r.proof ++
              (optionalMember "claimed" claimedTree r.claimed ++
                (optionalMember "justification" Json.str r.justification ++
                  (optionalMember "witness" witnessTree r.witnessReason ++
                    (optionalMember "note" Json.str r.note ++ []))))))))))

theorem pushRecordJson_eq (r : VerdictRecord) : pushRecordJson r = write (recordTree r) := by
  have hid : utf8 "\x7b\"id\":" = opening "id" := rfl
  have hidHash : utf8 ",\"id_hash\":" = following "id_hash" := rfl
  have hstatus : utf8 ",\"status\":" = following "status" := rfl
  have htrust : utf8 ",\"trust\":" = following "trust" := rfl
  have hmethod : utf8 ",\"method\":" = following "method" := rfl
  have hsurface : utf8 ",\"surface\":" = following "surface" := rfl
  have hhash : utf8 ",\"statement_hash\":" = following "statement_hash" := rfl
  have hauthored : utf8 ",\"authored\":" = following "authored" := rfl
  have hproof : utf8 ",\"proof\":" = following "proof" := rfl
  have hclaimed : utf8 ",\"claimed\":" = following "claimed" := rfl
  have hjust : utf8 ",\"justification\":" = following "justification" := rfl
  have hwitness : utf8 ",\"witness\":" = following "witness" := rfl
  have hnote : utf8 ",\"note\":" = following "note" := rfl
  have hclose : utf8 "\x7d" = [0x7D] := rfl
  unfold pushRecordJson recordTree
  simp only [pushStrJson_eq, hid, hidHash, hstatus, htrust, hclose,
    writeMembers_optional hmethod (fun m : Method => quote_eq_write (methodStr m)),
    writeMembers_optional hsurface (fun s : ProofSurface => quote_eq_write s.asStr),
    writeMembers_optional hhash quote_eq_write,
    writeMembers_optional hauthored (fun a : Authored => quote_eq_write a.asStr),
    writeMembers_optional hproof pushProofJson_eq,
    writeMembers_optional hclaimed pushClaimedJson_eq,
    writeMembers_optional hjust quote_eq_write, writeMembers_optional hwitness pushWitnessJson_eq,
    writeMembers_optional hnote quote_eq_write, opening, following, write, writeMembers,
    writeMembers_append, List.append_assoc, List.cons_append, List.nil_append]

/-! ## The document -/

def certifierTree : Option Certifier → Json
  | some c =>
    .obj [("class", .str c.cls), ("name", .str c.name), ("recognition", .str c.recognition),
      ("tool", .obj [("name", .str c.tool.name), ("version", .str c.tool.version)]),
      ("toolchain", .str c.toolchain)]
  | none => .null

theorem pushCertifierJson_eq (o : Option Certifier) :
    pushCertifierJson o = write (certifierTree o) := by
  cases o with
  | none => rfl
  | some c =>
    have hclass : utf8 "\x7b\"class\":" = opening "class" := rfl
    have hname : utf8 ",\"name\":" = following "name" := rfl
    have hrec : utf8 ",\"recognition\":" = following "recognition" := rfl
    have htool : utf8 ",\"tool\":\x7b\"name\":" = following "tool" ++ opening "name" := rfl
    have hversion : utf8 ",\"version\":" = following "version" := rfl
    have hchain : utf8 "\x7d,\"toolchain\":" = [0x7D] ++ following "toolchain" := rfl
    have hclose : utf8 "\x7d" = [0x7D] := rfl
    unfold pushCertifierJson certifierTree
    simp only [hclass, hname, hrec, htool, hversion, hchain, hclose, pushStrJson_eq, opening,
      following, write, writeMembers, List.append_assoc, List.cons_append, List.nil_append]

def emittedTree (e : EmittedChecksData) : Json :=
  .obj [("subtype_range", .num e.subtypeRange.toNat), ("contract", .num e.contract.toNat),
    ("mmio_bounds", .num e.mmioBounds.toNat)]

def EmittedChecksData.written (e : EmittedChecksData) : Option EmittedChecksData :=
  if e.subtypeRange ≠ 0 ∨ e.contract ≠ 0 ∨ e.mmioBounds ≠ 0 then some e else none

theorem pushEmittedJson_eq (e : EmittedChecksData) :
    pushEmittedJson e = writeMembers (optionalMember "emitted" emittedTree e.written) := by
  have hemitted : utf8 ",\"emitted\":\x7b\"subtype_range\":" =
      following "emitted" ++ opening "subtype_range" := rfl
  have hcontract : utf8 ",\"contract\":" = following "contract" := rfl
  have hmmio : utf8 ",\"mmio_bounds\":" = following "mmio_bounds" := rfl
  have hclose : utf8 "\x7d" = [0x7D] := rfl
  unfold pushEmittedJson EmittedChecksData.written
  split
  · simp only [hemitted, hcontract, hmmio, hclose, pushI64Json_uint32, optionalMember, emittedTree,
      Option.toList_some, List.map_cons, List.map_nil, opening, following, write, writeMembers,
      List.append_assoc, List.cons_append, List.nil_append]
  · rfl

def writtenCount (n : UInt32) : Option UInt32 := if n ≠ 0 then some n else none

def countTree (n : UInt32) : Json := .num n.toNat

theorem pushCount_eq (n : UInt32) :
    (if n ≠ 0 then utf8 ",\"stale_verdicts\":" ++ pushI64Json n.toNat else []) =
      writeMembers (optionalMember "stale_verdicts" countTree (writtenCount n)) := by
  have hstale : utf8 ",\"stale_verdicts\":" = following "stale_verdicts" := rfl
  have hcount : ∀ n : UInt32, pushI64Json n.toNat = write (countTree n) := pushI64Json_uint32
  rw [← writeMembers_optional hstale hcount]
  unfold writtenCount
  split <;> rfl

/-- The members of a verdicts document, with the further members of an echo. -/
def docMembers (v : VerdictsInput) (extra : List (String × Json)) : List (String × Json) :=
  ("schema", .str VERDICTS_SCHEMA) :: ("certifier", certifierTree v.certifier) ::
    ("semantics", .str SEMANTICS_VERSION) :: ("stmt", .str STMT_SCHEMA) ::
    ("target", .str v.target) :: ("model_semantics", .str v.modelSemantics) ::
    ("concurrency", .str v.concurrency) :: ("verdicts", .arr (v.records.map recordTree)) ::
    (optionalMember "stale_verdicts" countTree (writtenCount v.staleVerdicts) ++
      (optionalMember "emitted" emittedTree v.emitted.written ++ extra))

theorem verdictsText_eq (v : VerdictsInput) : ∃ body, verdictsText v = body ++ [0x7D] ∧
    ∀ extra, write (.obj (docMembers v extra)) = body ++ (writeMembers extra ++ [0x7D]) := by
  have hschema : utf8 "\x7b\"schema\":" = opening "schema" := rfl
  have hcert : utf8 ",\"certifier\":" = following "certifier" := rfl
  have hsem : utf8 ",\"semantics\":" = following "semantics" := rfl
  have hstmt : utf8 ",\"stmt\":" = following "stmt" := rfl
  have htarget : utf8 ",\"target\":" = following "target" := rfl
  have hmodel : utf8 ",\"model_semantics\":" = following "model_semantics" := rfl
  have hconc : utf8 ",\"concurrency\":" = following "concurrency" := rfl
  have hverdicts : utf8 ",\"verdicts\":[" = following "verdicts" ++ [0x5B] := rfl
  have hbracket : utf8 "]" = [0x5D] := rfl
  have hclose : utf8 "\x7d" = [0x7D] := rfl
  unfold verdictsText
  rw [hclose]
  refine ⟨_, rfl, fun extra => ?_⟩
  unfold docMembers
  rw [pushCount_eq, pushEmittedJson_eq]
  simp only [hschema, hcert, hsem, hstmt, htarget, hmodel, hconc, hverdicts, hbracket,
    pushStrJson_eq, pushCertifierJson_eq, write_arr pushRecordJson_eq, opening, following, write,
    writeMembers, writeMembers_append, List.append_assoc, List.cons_append, List.nil_append]

def pfiTree (p : ProvablyFailingRecord) : Json := .obj [("id", .str p.id), ("note", .str p.note)]

theorem pushPfiJson_eq (p : ProvablyFailingRecord) : pushPfiJson p = write (pfiTree p) := by
  unfold pushPfiJson pfiTree
  simp only [pushStrJson_eq, write, writeMembers, List.append_assoc, List.cons_append]
  rfl

def reasonTree (r : OpenReasonRecord) : Json := .obj [("id", .str r.id), ("reason", .str r.reason)]

theorem pushReasonJson_eq (r : OpenReasonRecord) : pushReasonJson r = write (reasonTree r) := by
  unfold pushReasonJson reasonTree
  simp only [pushStrJson_eq, write, writeMembers, List.append_assoc, List.cons_append]
  rfl

def writtenList {α : Type} (xs : List α) : Option (List α) := if xs.isEmpty then none else some xs

theorem pushArrayMember_eq {α : Type} {text key : String} {item : α → Bytes} {tree : α → Json}
    (hkey : utf8 text = following key ++ [0x5B]) (hitem : ∀ x, item x = write (tree x))
    (xs : List α) :
    pushArrayMember text item xs =
      writeMembers (optionalMember key (fun xs => .arr (xs.map tree)) (writtenList xs)) := by
  unfold pushArrayMember writtenList
  split
  · rfl
  · have hbracket : utf8 "]" = [0x5D] := rfl
    simp only [hkey, hbracket, optionalMember, Option.toList_some, List.map_cons, List.map_nil,
      writeMembers, write_arr hitem, following, List.append_assoc, List.cons_append,
      List.nil_append]

def sourcesTree (c : UInt32 × UInt32) : Json :=
  .obj [("file", .num c.1.toNat), ("in_tree", .num c.2.toNat)]

def EchoInput.sources (e : EchoInput) : Option (UInt32 × UInt32) :=
  if e.records.isEmpty then none else some (e.fileVerdicts, e.inTreeVerdicts)

def echoExtra (e : EchoInput) : List (String × Json) :=
  optionalMember "provably_failing" (fun xs => .arr (xs.map pfiTree)) (writtenList e.provablyFailing) ++
    (optionalMember "open_reasons" (fun xs => .arr (xs.map reasonTree))
        (writtenList e.openReasons) ++
      (optionalMember "verdict_sources" sourcesTree e.sources ++
        (optionalMember "verify_tool" Json.str e.verifyTool ++ [])))

theorem echoMembers_eq (e : EchoInput) : echoMembers e = writeMembers (echoExtra e) := by
  have hpfi : utf8 ",\"provably_failing\":[" = following "provably_failing" ++ [0x5B] := rfl
  have hreasons : utf8 ",\"open_reasons\":[" = following "open_reasons" ++ [0x5B] := rfl
  have hfile : utf8 ",\"verdict_sources\":\x7b\"file\":" =
      following "verdict_sources" ++ opening "file" := rfl
  have hinTree : utf8 ",\"in_tree\":" = following "in_tree" := rfl
  have htool : utf8 ",\"verify_tool\":" = following "verify_tool" := rfl
  have hclose : utf8 "\x7d" = [0x7D] := rfl
  have hsources : (if e.records.isEmpty then [] else
      utf8 ",\"verdict_sources\":\x7b\"file\":" ++ pushI64Json e.fileVerdicts.toNat ++
        utf8 ",\"in_tree\":" ++ pushI64Json e.inTreeVerdicts.toNat ++ utf8 "\x7d") =
      writeMembers (optionalMember "verdict_sources" sourcesTree e.sources) := by
    unfold EchoInput.sources
    split
    · rfl
    · simp only [hfile, hinTree, hclose, pushI64Json_uint32, optionalMember, sourcesTree,
        Option.toList_some, List.map_cons, List.map_nil, opening, following, write, writeMembers,
        List.append_assoc, List.cons_append, List.nil_append]
  unfold echoMembers echoExtra
  rw [hsources, pushArrayMember_eq hpfi pushPfiJson_eq, pushArrayMember_eq hreasons pushReasonJson_eq,
    pushStrJson_eq, writeMembers_optional htool quote_eq_write]
  simp only [writeMembers_append, List.append_nil, List.append_assoc]

end VerdictFile

end Tyu

import Tyu.Lib.Checked
import Tyu.Lib.Json
import Tyu.Verifier.Stmt

/-! # Obligation manifests -/

namespace Tyu

open Lib Lib.Json Obl

namespace Manifest

/-! ## The document -/

inductive Provenance where
  | direct | opaqueTop

def Provenance.asStr : Provenance → String
  | .direct => "direct"
  | .opaqueTop => "opaque"

inductive Formula where
  | inRange (value : Oel) (lo hi : Int64)
  | offsetLE (off : Option UInt32) (width size : UInt32)
  | predicateHolds (pred : PredicateRef) (args : List Oel)

structure Intent where
  label : String
  subject : String
  authored : Bool

inductive AssumptionEdge where
  | obligation (id module : String)
  | runtimeCheck

structure Cycle where
  index : UInt32
  blocks : List String

structure SpanInfo where
  line : UInt32
  col : UInt32

structure Site where
  word : String
  occurrence : UInt32
  span : SpanInfo

structure Obligation where
  id : String
  idHash : String
  kind : Kind
  site : Site
  intent : Intent
  formula : Formula
  assumptions : List AssumptionEdge
  cycles : List Cycle
  provenance : Provenance

structure WordFact where
  name : String
  net : Int16
  high : UInt32
  top : Bool
  performs : List String
  divergeFree : Bool
  ir : String
  blocks : UInt32

structure SubtypeFact where
  name : String
  lo : Int64
  hi : Int64

structure PredicateFact where
  name : String
  ir : List String
  irHash : String

structure Facts where
  words : List WordFact
  subtypes : List SubtypeFact
  predicates : List PredicateFact

structure OblSet where
  schema : String
  semantics : String
  stmt : String
  module : String
  target : String
  platform : String
  modelSemantics : String
  concurrency : String
  abiContractVersion : UInt32
  facts : Facts
  obligations : List Obligation

def OBL_SCHEMA : String := "tyu.obl/v2"
def MODEL_UNMODELED : String := "unmodeled"
def CONCURRENCY_UNMODELED : String := "unmodeled"
def OBL_ARTIFACT_MAX_BYTES : Nat := 16 * 1024 * 1024
def WORD_IR_MAX_BYTES : Nat := 8 * 1024

inductive CodecError where
  | malformed
  | schemaVersion (found : String)
  | semanticsMismatch (found : String)
  | tooLarge (size : Nat)
  | wordIrTooLarge (word : String) (size : Nat)
  | imageVerdictsInvalid (found : String)

def OblSet.validate (set : OblSet) : Bool :=
  set.obligations.all fun o =>
    o.id == canonicalId set.module o.site.word o.kind o.site.occurrence.toNat &&
      o.idHash == idHashOf o.id

/-! ## Writer -/

def pushByteJson (b : UInt8) : Bytes :=
  if b = 0x22 then utf8 "\\\""
  else if b = 0x5C then utf8 "\\\\"
  else if b = 0x08 then utf8 "\\b"
  else if b = 0x0C then utf8 "\\f"
  else if b = 0x0A then utf8 "\\n"
  else if b = 0x0D then utf8 "\\r"
  else if b = 0x09 then utf8 "\\t"
  else if b < 0x20 then utf8 "\\u00" ++ [hexByte (b.toNat / 16), hexByte (b.toNat % 16)]
  else [b]

def pushStrJson (s : String) : Bytes := 0x22 :: (utf8 s).flatMap pushByteJson ++ [0x22]

/-- The digits of `v`, the lowest first, while the buffer has room. -/
def digitLoop : Nat → Nat → Bytes
  | 0, _ => []
  | room + 1, v => if v = 0 then [] else (0x30 + (v % 10).toUInt8) :: digitLoop room (v / 10)

def pushI64Json (v : Int) : Bytes :=
  if v = -2 ^ 63 then utf8 "-9223372036854775808"
  else
    let digits := if v = 0 then [0x30] else digitLoop 20 v.natAbs
    if v < 0 then 0x2D :: digits.reverse else digits.reverse

def commaSep {α : Type} (item : α → Bytes) : List α → Bytes
  | [] => []
  | x :: xs => item x ++ xs.flatMap fun y => 0x2C :: item y

def writeBool (b : Bool) : Bytes := if b then utf8 "true" else utf8 "false"

def writeOel : Oel → Bytes
  | .var name => utf8 "\x7b\"op\":\"Var\",\"name\":" ++ pushStrJson name ++ utf8 "\x7d"
  | .cast src tgt arg =>
    utf8 "\x7b\"op\":\"Cast\",\"from\":" ++ pushStrJson src ++ utf8 ",\"to\":" ++ pushStrJson tgt ++
      utf8 ",\"arg\":" ++ writeOel arg ++ utf8 "\x7d"

def writeFormula : Formula → Bytes
  | .inRange value lo hi =>
    utf8 "\x7b\"op\":\"InRange\",\"value\":" ++ writeOel value ++ utf8 ",\"lo\":" ++
      pushI64Json lo.toInt ++ utf8 ",\"hi\":" ++ pushI64Json hi.toInt ++ utf8 "\x7d"
  | .offsetLE off width size =>
    utf8 "\x7b\"op\":\"OffsetLE\",\"off\":" ++
      (match off with
        | some off => pushI64Json off.toNat
        | none => utf8 "null") ++
      utf8 ",\"width\":" ++ pushI64Json width.toNat ++ utf8 ",\"size\":" ++
      pushI64Json size.toNat ++ utf8 "\x7d"
  | .predicateHolds pred args =>
    utf8 "\x7b\"op\":\"PredicateHolds\",\"predicate\":\x7b" ++ utf8 "\"module\":" ++
      pushStrJson pred.module ++ utf8 ",\"name\":" ++ pushStrJson pred.name ++
      utf8 ",\"ir\":[" ++ commaSep pushStrJson pred.ir ++ utf8 "],\"ir_hash\":" ++
      pushStrJson pred.irHash ++ utf8 "\x7d,\"args\":[" ++ commaSep writeOel args ++ utf8 "]\x7d"

def writeAssumptionEdge : AssumptionEdge → Bytes
  | .obligation id module =>
    utf8 "\x7b\"obligation\":" ++ pushStrJson id ++ utf8 ",\"module\":" ++ pushStrJson module ++
      utf8 "\x7d"
  | .runtimeCheck => pushStrJson "runtime-check"

def writeCycle (c : Cycle) : Bytes :=
  utf8 "\x7b\"index\":" ++ pushI64Json c.index.toNat ++ utf8 ",\"blocks\":[" ++
    commaSep pushStrJson c.blocks ++ utf8 "]\x7d"

def writeObligation (o : Obligation) : Bytes :=
  utf8 "\x7b\"id\":" ++ pushStrJson o.id ++ utf8 ",\"id_hash\":" ++ pushStrJson o.idHash ++
    utf8 ",\"kind\":" ++ pushStrJson o.kind.asStr ++
    utf8 ",\"site\":\x7b\"word\":" ++ pushStrJson o.site.word ++
    utf8 ",\"occurrence\":" ++ pushI64Json o.site.occurrence.toNat ++
    utf8 ",\"span\":\x7b\"line\":" ++ pushI64Json o.site.span.line.toNat ++
    utf8 ",\"col\":" ++ pushI64Json o.site.span.col.toNat ++
    utf8 "\x7d\x7d,\"intent\":\x7b\"label\":" ++ pushStrJson o.intent.label ++
    utf8 ",\"subject\":" ++ pushStrJson o.intent.subject ++
    utf8 ",\"authored\":" ++ writeBool o.intent.authored ++
    utf8 "\x7d,\"formula\":" ++ writeFormula o.formula ++
    utf8 ",\"assumptions\":[" ++ commaSep writeAssumptionEdge o.assumptions ++
    utf8 "],\"cycles\":[" ++ commaSep writeCycle o.cycles ++
    utf8 "],\"provenance\":" ++ pushStrJson o.provenance.asStr ++ utf8 "\x7d"

def writeWordFact (w : WordFact) : Bytes :=
  utf8 "\x7b\"name\":" ++ pushStrJson w.name ++ utf8 ",\"net\":" ++ pushI64Json w.net.toInt ++
    utf8 ",\"high\":" ++ pushI64Json w.high.toNat ++ utf8 ",\"top\":" ++ writeBool w.top ++
    utf8 ",\"performs\":[" ++ commaSep pushStrJson w.performs ++
    utf8 "],\"diverge_free\":" ++ writeBool w.divergeFree ++
    utf8 ",\"blocks\":" ++ pushI64Json w.blocks.toNat ++ utf8 ",\"ir\":" ++ pushStrJson w.ir ++
    utf8 "\x7d"

def writeSubtypeFact (s : SubtypeFact) : Bytes :=
  utf8 "\x7b\"name\":" ++ pushStrJson s.name ++ utf8 ",\"lo\":" ++ pushI64Json s.lo.toInt ++
    utf8 ",\"hi\":" ++ pushI64Json s.hi.toInt ++ utf8 "\x7d"

def writePredicateFact (p : PredicateFact) : Bytes :=
  utf8 "\x7b\"name\":" ++ pushStrJson p.name ++ utf8 ",\"ir\":[" ++ commaSep pushStrJson p.ir ++
    utf8 "],\"ir_hash\":" ++ pushStrJson p.irHash ++ utf8 "\x7d"

def writeFacts (facts : Facts) : Bytes :=
  utf8 ",\"facts\":\x7b\"words\":[" ++ commaSep writeWordFact facts.words ++
    utf8 "],\"subtypes\":[" ++ commaSep writeSubtypeFact facts.subtypes ++
    utf8 "],\"predicates\":[" ++ commaSep writePredicateFact facts.predicates ++ utf8 "]\x7d"

def writeDoc (set : OblSet) : Bytes :=
  utf8 "\x7b\"schema\":" ++ pushStrJson set.schema ++
    utf8 ",\"semantics\":" ++ pushStrJson set.semantics ++
    utf8 ",\"stmt\":" ++ pushStrJson set.stmt ++
    utf8 ",\"module\":" ++ pushStrJson set.module ++
    utf8 ",\"target\":" ++ pushStrJson set.target ++
    utf8 ",\"platform\":" ++ pushStrJson set.platform ++
    utf8 ",\"model_semantics\":" ++ pushStrJson set.modelSemantics ++
    utf8 ",\"concurrency\":" ++ pushStrJson set.concurrency ++
    utf8 ",\"abi_contract_version\":" ++ pushI64Json set.abiContractVersion.toNat ++
    writeFacts set.facts ++
    utf8 ",\"obligations\":[" ++ commaSep writeObligation set.obligations ++ utf8 "]\x7d"

/-- Serialize a set whose identities are canonical and whose texts fit the caps. -/
def encodeObl (set : OblSet) : Except CodecError Bytes := do
  set.facts.words.forM fun w =>
    require ((utf8 w.ir).length ≤ WORD_IR_MAX_BYTES) (.wordIrTooLarge w.name (utf8 w.ir).length)
  require (set.validate = true) .malformed
  let out := writeDoc set
  require (out.length ≤ OBL_ARTIFACT_MAX_BYTES) (.tooLarge out.length)
  pure out

end Manifest

end Tyu

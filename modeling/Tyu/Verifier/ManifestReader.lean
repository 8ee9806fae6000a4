import Tyu.Lib.JsonReader
import Tyu.Verifier.Manifest

/-!
# The reader of obligation manifests

A strict reader of the writer's schema: every object is a loop over its members that
collects them into options, skips the members it does not know, and checks at the end
that the required ones are there.
-/

namespace Tyu

open Lib Lib.Json Obl

namespace Manifest

/-! ## Values -/

/-- Length of the UTF-8 sequence that starts with `b0`, zero when none does. -/
def utf8SeqLen (b0 : UInt8) : Nat :=
  if b0 ≤ 0x7F then 1
  else if 0xC2 ≤ b0 ∧ b0 ≤ 0xDF then 2
  else if 0xE0 ≤ b0 ∧ b0 ≤ 0xEF then 3
  else if 0xF0 ≤ b0 ∧ b0 ≤ 0xF4 then 4
  else 0

abbrev CodecReader := Reader CodecError

def err {α : Type} : CodecReader α := throw .malformed

def hexDigitValue (b : UInt8) : Option Nat :=
  if 0x30 ≤ b ∧ b ≤ 0x39 then some (b.toNat - 0x30)
  else if 0x61 ≤ b ∧ b ≤ 0x66 then some (b.toNat - 0x61 + 10)
  else if 0x41 ≤ b ∧ b ≤ 0x46 then some (b.toNat - 0x41 + 10)
  else none

def parseHexDigits : Nat → Nat → CodecReader Nat
  | 0, v => pure v
  | n + 1, v => do
    let b ← bump .malformed
    match hexDigitValue b with
    | some d => parseHexDigits n (v * 16 + d)
    | none => err

def parseHex4 : CodecReader Nat := parseHexDigits 4 0

def shortEscape (e : UInt8) : Option Char :=
  if e = 0x22 then some '"'
  else if e = 0x5C then some '\\'
  else if e = 0x2F then some '/'
  else if e = 0x62 then some '\x08'
  else if e = 0x66 then some '\x0c'
  else if e = 0x6E then some '\n'
  else if e = 0x72 then some '\r'
  else if e = 0x74 then some '\t'
  else none

def stringLoop : Nat → String → CodecReader String
  | 0, _ => err
  | fuel + 1, out => do
    let b ← bump .malformed
    if b = 0x22 then pure out
    else if b = 0x5C then
      let e ← bump .malformed
      match shortEscape e with
      | some c => stringLoop fuel (out.push c)
      | none =>
        if e = 0x75 then
          let h ← parseHex4
          if h.isValidChar then stringLoop fuel (out.push (Char.ofNat h)) else err
        else err
    else if b < 0x20 then err
    else
      let rest ← get
      let len := utf8SeqLen b
      if len = 0 ∨ rest.length + 1 < len then err
      else
        match String.fromUTF8? (b :: rest.take (len - 1)).toByteArray with
        | some s =>
          set (rest.drop (len - 1))
          stringLoop fuel (out ++ s)
        | none => err

def parseString : CodecReader String := do
  skipWs
  let b ← bump .malformed
  if b ≠ 0x22 then err
  else
    let rest ← get
    stringLoop (rest.length + 1) ""

/-- Does the rest of the text start with `token`? -/
def startsWith (token : Bytes) : CodecReader Bool := do
  let rest ← get
  pure (rest.take token.length == token)

def stepOver (n : Nat) : CodecReader Unit := modify (List.drop n)

def parseBool : CodecReader Bool := do
  skipWs
  if ← startsWith (utf8 "true") then
    stepOver 4
    pure true
  else if ← startsWith (utf8 "false") then
    stepOver 5
    pure false
  else err

/-- The digits at the head of a text, accumulated from `v` with a check at every step:
the value, how many they were, and the rest. -/
def digitRun (max : Nat) : Nat → Nat → Bytes → Except CodecError ((Nat × Nat) × Bytes)
  | v, n, [] => .ok ((v, n), [])
  | v, n, b :: rest =>
    if isDigit b then
      let w := v * 10 + (b.toNat - 48)
      if w ≤ max then digitRun max w (n + 1) rest else .error .malformed
    else .ok ((v, n), b :: rest)

/-- The magnitude of an integer; the sign is applied to its value at the end. -/
def parseMagnitude (neg : Bool) : CodecReader Int64 := do
  let (v, digits) ← (digitRun (2 ^ 63 - 1) 0 0 : CodecReader (Nat × Nat))
  if digits = 0 then err else pure (Int64.ofInt (if neg then -v else v))

def parseI64 : CodecReader Int64 := do
  skipWs
  if (← peek) = some 0x2D then
    advance
    parseMagnitude true
  else parseMagnitude false

def parseU64 : CodecReader UInt64 := do
  skipWs
  let (v, digits) ← (digitRun (2 ^ 64 - 1) 0 0 : CodecReader (Nat × Nat))
  if digits = 0 then err else pure (UInt64.ofNat v)

/-- A number where the field is a `u32`: the upper half is cut off. -/
def parseU64AsU32 : CodecReader UInt32 := do
  let v ← parseU64
  pure v.toUInt32

/- A value of an unknown member.  The words `true`, `false` and `null` are looked for after
their first letter has been consumed. -/
mutual
def skipValue : Nat → CodecReader Unit
  | 0 => err
  | fuel + 1 => do
    skipWs
    let c ← bump .malformed
    if c = 0x7B then skipMembers fuel
    else if c = 0x5B then skipItems fuel
    else if c = 0x22 then
      modify (c :: ·)
      let _ ← parseString
    else if c = 0x74 ∨ c = 0x66 then
      let _ ← parseBool
    else if c = 0x6E then
      if ← startsWith (utf8 "null") then stepOver 4 else err
    else if c = 0x2D ∨ isDigit c then
      modify (c :: ·)
      let _ ← parseI64
    else err
def skipMembers : Nat → CodecReader Unit
  | 0 => err
  | fuel + 1 => do
    skipWs
    let next ← peek
    if next = some 0x7D then advance
    else if next = some 0x2C then
      advance
      skipMembers fuel
    else if next = none then err
    else
      let _ ← parseString
      expectByte .malformed 0x3A
      skipValue fuel
      skipMembers fuel
def skipItems : Nat → CodecReader Unit
  | 0 => err
  | fuel + 1 => do
    skipWs
    let next ← peek
    if next = some 0x5D then advance
    else if next = some 0x2C then
      advance
      skipItems fuel
    else if next = none then err
    else
      skipValue fuel
      skipItems fuel
end

/-- A member the reader does not know; every call consumes a byte or is the last. -/
def skipUnknown {σ : Type} (s : σ) : CodecReader σ := do
  let rest ← get
  skipValue (2 * rest.length + 2)
  pure s

/-- `null` or a number. -/
def parseNullableU32 : CodecReader (Option UInt32) := do
  skipWs
  if (← peek) = some 0x6E then
    if ← startsWith (utf8 "null") then
      stepOver 4
      pure none
    else err
  else
    let v ← parseU64AsU32
    pure (some v)

def parseObject {σ : Type} (member : String → σ → CodecReader σ) (s : σ) : CodecReader σ :=
  readObject .malformed parseString member s

def parseArray {α : Type} (item : CodecReader α) : CodecReader (List α) := readArray .malformed item

def parseStringArray : CodecReader (List String) := parseArray parseString

def need {α : Type} (o : Option α) : CodecReader α :=
  match o with
  | some a => pure a
  | none => err

/-! ## Formulas -/

structure OelParts where
  op : Option String := none
  name : Option String := none
  src : Option String := none
  tgt : Option String := none
  arg : Option Oel := none

def oelMember (oel : CodecReader Oel) (key : String) (s : OelParts) : CodecReader OelParts :=
  match key with
  | "op" => do let v ← parseString; pure { s with op := some v }
  | "name" => do let v ← parseString; pure { s with name := some v }
  | "from" => do let v ← parseString; pure { s with src := some v }
  | "to" => do let v ← parseString; pure { s with tgt := some v }
  | "arg" => do let v ← oel; pure { s with arg := some v }
  | _ => skipUnknown s

def oelOf (s : OelParts) : CodecReader Oel :=
  match s.op with
  | some "Var" => do
    let name ← need s.name
    pure (.var name)
  | some "Cast" => do
    let src ← need s.src
    let tgt ← need s.tgt
    let arg ← need s.arg
    pure (.cast src tgt arg)
  | _ => err

/-- Value expressions nest; the depth is bounded by the length of the text. -/
def parseOelAt : Nat → CodecReader Oel
  | 0 => err
  | depth + 1 => do
    let s ← parseObject (oelMember (parseOelAt depth)) {}
    oelOf s

def parseOel : CodecReader Oel := do
  let rest ← get
  parseOelAt (rest.length + 1)

structure PredicateRefParts where
  module : Option String := none
  name : Option String := none
  ir : Option (List String) := none
  irHash : Option String := none

def predicateRefMember (key : String) (s : PredicateRefParts) : CodecReader PredicateRefParts :=
  match key with
  | "module" => do let v ← parseString; pure { s with module := some v }
  | "name" => do let v ← parseString; pure { s with name := some v }
  | "ir" => do let v ← parseStringArray; pure { s with ir := some v }
  | "ir_hash" => do let v ← parseString; pure { s with irHash := some v }
  | _ => skipUnknown s

def parsePredicateRef : CodecReader PredicateRef := do
  let s ← parseObject predicateRefMember {}
  let module ← need s.module
  let name ← need s.name
  let ir ← need s.ir
  let irHash ← need s.irHash
  pure ⟨module, name, ir, irHash⟩

structure FormulaParts where
  op : Option String := none
  value : Option Oel := none
  lo : Option Int64 := none
  hi : Option Int64 := none
  off : Option (Option UInt32) := none
  width : Option UInt32 := none
  size : Option UInt32 := none
  pred : Option PredicateRef := none
  args : Option (List Oel) := none

def formulaMember (key : String) (s : FormulaParts) : CodecReader FormulaParts :=
  match key with
  | "op" => do let v ← parseString; pure { s with op := some v }
  | "value" => do let v ← parseOel; pure { s with value := some v }
  | "lo" => do let v ← parseI64; pure { s with lo := some v }
  | "hi" => do let v ← parseI64; pure { s with hi := some v }
  | "off" => do let v ← parseNullableU32; pure { s with off := some v }
  | "width" => do let v ← parseU64AsU32; pure { s with width := some v }
  | "size" => do let v ← parseU64AsU32; pure { s with size := some v }
  | "predicate" => do let v ← parsePredicateRef; pure { s with pred := some v }
  | "args" => do let v ← parseArray parseOel; pure { s with args := some v }
  | _ => skipUnknown s

def formulaOf (s : FormulaParts) : CodecReader Formula :=
  match s.op with
  | some "InRange" => do
    let value ← need s.value
    let lo ← need s.lo
    let hi ← need s.hi
    pure (.inRange value lo hi)
  | some "OffsetLE" => do
    let off ← need s.off
    let width ← need s.width
    let size ← need s.size
    pure (.offsetLE off width size)
  | some "PredicateHolds" => do
    let pred ← need s.pred
    let args ← need s.args
    pure (.predicateHolds pred args)
  | _ => err

def parseFormula : CodecReader Formula := do
  let s ← parseObject formulaMember {}
  formulaOf s

/-! ## Obligations -/

structure SpanParts where
  line : Option UInt32 := none
  col : Option UInt32 := none

def spanMember (key : String) (s : SpanParts) : CodecReader SpanParts :=
  match key with
  | "line" => do let v ← parseU64AsU32; pure { s with line := some v }
  | "col" => do let v ← parseU64AsU32; pure { s with col := some v }
  | _ => skipUnknown s

def parseSpan : CodecReader SpanInfo := do
  let s ← parseObject spanMember {}
  let line ← need s.line
  let col ← need s.col
  pure ⟨line, col⟩

structure SiteParts where
  word : Option String := none
  occurrence : Option UInt32 := none
  span : Option SpanInfo := none

def siteMember (key : String) (s : SiteParts) : CodecReader SiteParts :=
  match key with
  | "word" => do let v ← parseString; pure { s with word := some v }
  | "occurrence" => do let v ← parseU64AsU32; pure { s with occurrence := some v }
  | "span" => do let v ← parseSpan; pure { s with span := some v }
  | _ => skipUnknown s

def parseSite : CodecReader Site := do
  let s ← parseObject siteMember {}
  let word ← need s.word
  let occurrence ← need s.occurrence
  let span ← need s.span
  pure ⟨word, occurrence, span⟩

structure IntentParts where
  label : Option String := none
  subject : Option String := none
  authored : Option Bool := none

def intentMember (key : String) (s : IntentParts) : CodecReader IntentParts :=
  match key with
  | "label" => do let v ← parseString; pure { s with label := some v }
  | "subject" => do let v ← parseString; pure { s with subject := some v }
  | "authored" => do let v ← parseBool; pure { s with authored := some v }
  | _ => skipUnknown s

def parseIntent : CodecReader Intent := do
  let s ← parseObject intentMember {}
  let label ← need s.label
  let subject ← need s.subject
  let authored ← need s.authored
  pure ⟨label, subject, authored⟩

structure EdgeParts where
  obligation : Option String := none
  module : Option String := none

def edgeMember (key : String) (s : EdgeParts) : CodecReader EdgeParts :=
  match key with
  | "obligation" => do let v ← parseString; pure { s with obligation := some v }
  | "module" => do let v ← parseString; pure { s with module := some v }
  | _ => skipUnknown s

/-- The bare string `runtime-check`, or the reference to an obligation. -/
def parseAssumption : CodecReader AssumptionEdge := do
  let next ← peek
  if next = some 0x22 then
    let s ← parseString
    if s = "runtime-check" then pure .runtimeCheck else err
  else if next = some 0x7B then
    let s ← parseObject edgeMember {}
    let obligation ← need s.obligation
    let module ← need s.module
    pure (.obligation obligation module)
  else err

structure CycleParts where
  index : Option UInt32 := none
  blocks : Option (List String) := none

def cycleMember (key : String) (s : CycleParts) : CodecReader CycleParts :=
  match key with
  | "index" => do let v ← parseU64AsU32; pure { s with index := some v }
  | "blocks" => do let v ← parseStringArray; pure { s with blocks := some v }
  | _ => skipUnknown s

def parseCycle : CodecReader Cycle := do
  let s ← parseObject cycleMember {}
  let index ← need s.index
  let blocks ← need s.blocks
  pure ⟨index, blocks⟩

def Kind.fromStr : String → Option Kind
  | "subtype-range" => some .subtypeRange
  | "contract-pre" => some .contractPre
  | "contract-post" => some .contractPost
  | "stack-budget" => some .stackBudget
  | "mmio-bounds" => some .mmioBounds
  | _ => none

def Provenance.fromStr : String → Option Provenance
  | "direct" => some .direct
  | "opaque" => some .opaqueTop
  | _ => none

def defaultIntent (kind : Kind) (subject : String) : Intent where
  label := match kind with
    | .subtypeRange => "value must lie in subtype range"
    | .contractPre => "needs predicate must hold at the call site"
    | .contractPost => "ensures predicate must hold on exit"
    | .stackBudget => "data-stack peak must fit the bounded-stack grant"
    | .mmioBounds => "MMIO access must stay within the emulated aperture"
  subject := subject
  authored := false

structure ObligationParts where
  id : Option String := none
  idHash : Option String := none
  kind : Option Kind := none
  site : Option Site := none
  intent : Option Intent := none
  formula : Option Formula := none
  assumptions : Option (List AssumptionEdge) := none
  cycles : Option (List Cycle) := none
  provenance : Option Provenance := none

def obligationMember (key : String) (s : ObligationParts) : CodecReader ObligationParts :=
  match key with
  | "id" => do let v ← parseString; pure { s with id := some v }
  | "id_hash" => do let v ← parseString; pure { s with idHash := some v }
  | "kind" => do let v ← parseString; pure { s with kind := Kind.fromStr v }
  | "site" => do let v ← parseSite; pure { s with site := some v }
  | "intent" => do let v ← parseIntent; pure { s with intent := some v }
  | "formula" => do let v ← parseFormula; pure { s with formula := some v }
  | "assumptions" => do let v ← parseArray parseAssumption; pure { s with assumptions := some v }
  | "cycles" => do let v ← parseArray parseCycle; pure { s with cycles := some v }
  | "provenance" => do let v ← parseString; pure { s with provenance := Provenance.fromStr v }
  | _ => skipUnknown s

def parseObligation : CodecReader Obligation := do
  let s ← parseObject obligationMember {}
  let id ← need s.id
  let idHash ← need s.idHash
  let kind ← need s.kind
  let site ← need s.site
  let formula ← need s.formula
  let assumptions ← need s.assumptions
  let provenance ← need s.provenance
  pure { id, idHash, kind, site, formula, assumptions, provenance
         intent := s.intent.getD (defaultIntent kind "")
         cycles := s.cycles.getD [] }

/-! ## Facts -/

structure WordFactParts where
  name : Option String := none
  net : Option Int16 := none
  high : Option UInt32 := none
  top : Option Bool := none
  performs : Option (List String) := none
  divergeFree : Option Bool := none
  blocks : Option UInt32 := none
  ir : Option String := none

def wordFactMember (key : String) (s : WordFactParts) : CodecReader WordFactParts :=
  match key with
  | "name" => do let v ← parseString; pure { s with name := some v }
  | "net" => do let v ← parseI64; pure { s with net := some v.toInt16 }
  | "high" => do let v ← parseU64AsU32; pure { s with high := some v }
  | "top" => do let v ← parseBool; pure { s with top := some v }
  | "performs" => do let v ← parseStringArray; pure { s with performs := some v }
  | "diverge_free" => do let v ← parseBool; pure { s with divergeFree := some v }
  | "blocks" => do let v ← parseU64AsU32; pure { s with blocks := some v }
  | "ir" => do let v ← parseString; pure { s with ir := some v }
  | _ => skipUnknown s

def parseWordFact : CodecReader WordFact := do
  let s ← parseObject wordFactMember {}
  let name ← need s.name
  let net ← need s.net
  let high ← need s.high
  let top ← need s.top
  let performs ← need s.performs
  let divergeFree ← need s.divergeFree
  pure { name, net, high, top, performs, divergeFree
         ir := s.ir.getD ""
         blocks := s.blocks.getD 0 }

structure SubtypeFactParts where
  name : Option String := none
  lo : Option Int64 := none
  hi : Option Int64 := none

def subtypeFactMember (key : String) (s : SubtypeFactParts) : CodecReader SubtypeFactParts :=
  match key with
  | "name" => do let v ← parseString; pure { s with name := some v }
  | "lo" => do let v ← parseI64; pure { s with lo := some v }
  | "hi" => do let v ← parseI64; pure { s with hi := some v }
  | _ => skipUnknown s

def parseSubtypeFact : CodecReader SubtypeFact := do
  let s ← parseObject subtypeFactMember {}
  let name ← need s.name
  let lo ← need s.lo
  let hi ← need s.hi
  pure ⟨name, lo, hi⟩

structure PredicateFactParts where
  name : Option String := none
  ir : Option (List String) := none
  irHash : Option String := none

def predicateFactMember (key : String) (s : PredicateFactParts) :
    CodecReader PredicateFactParts :=
  match key with
  | "name" => do let v ← parseString; pure { s with name := some v }
  | "ir" => do let v ← parseStringArray; pure { s with ir := some v }
  | "ir_hash" => do let v ← parseString; pure { s with irHash := some v }
  | _ => skipUnknown s

def parsePredicateFact : CodecReader PredicateFact := do
  let s ← parseObject predicateFactMember {}
  let name ← need s.name
  let ir ← need s.ir
  let irHash ← need s.irHash
  pure ⟨name, ir, irHash⟩

structure FactsParts where
  words : Option (List WordFact) := none
  subtypes : Option (List SubtypeFact) := none
  predicates : Option (List PredicateFact) := none

def factsMember (key : String) (s : FactsParts) : CodecReader FactsParts :=
  match key with
  | "words" => do let v ← parseArray parseWordFact; pure { s with words := some v }
  | "subtypes" => do let v ← parseArray parseSubtypeFact; pure { s with subtypes := some v }
  | "predicates" => do let v ← parseArray parsePredicateFact; pure { s with predicates := some v }
  | _ => skipUnknown s

def parseFacts : CodecReader Facts := do
  let s ← parseObject factsMember {}
  let words ← need s.words
  let subtypes ← need s.subtypes
  pure ⟨words, subtypes, s.predicates.getD []⟩

structure DocParts where
  schema : Option String := none
  semantics : Option String := none
  stmt : Option String := none
  module : Option String := none
  target : Option String := none
  platform : Option String := none
  modelSemantics : Option String := none
  concurrency : Option String := none
  abiContractVersion : Option UInt32 := none
  facts : Option Facts := none
  obligations : Option (List Obligation) := none

def docMember (key : String) (s : DocParts) : CodecReader DocParts :=
  match key with
  | "schema" => do let v ← parseString; pure { s with schema := some v }
  | "semantics" => do let v ← parseString; pure { s with semantics := some v }
  | "stmt" => do let v ← parseString; pure { s with stmt := some v }
  | "module" => do let v ← parseString; pure { s with module := some v }
  | "target" => do let v ← parseString; pure { s with target := some v }
  | "platform" => do let v ← parseString; pure { s with platform := some v }
  | "model_semantics" => do let v ← parseString; pure { s with modelSemantics := some v }
  | "concurrency" => do let v ← parseString; pure { s with concurrency := some v }
  | "abi_contract_version" => do
    let v ← parseU64AsU32
    pure { s with abiContractVersion := some v }
  | "facts" => do let v ← parseFacts; pure { s with facts := some v }
  | "obligations" => do let v ← parseArray parseObligation; pure { s with obligations := some v }
  | _ => skipUnknown s

def parseDoc : CodecReader OblSet := do
  let s ← parseObject docMember {}
  let schema ← need s.schema
  let semantics ← need s.semantics
  let module ← need s.module
  let abiContractVersion ← need s.abiContractVersion
  let facts ← need s.facts
  let obligations ← need s.obligations
  pure { schema, semantics, module, abiContractVersion, facts, obligations
         stmt := s.stmt.getD STMT_SCHEMA
         target := s.target.getD ""
         platform := s.platform.getD ""
         modelSemantics := s.modelSemantics.getD MODEL_UNMODELED
         concurrency := s.concurrency.getD CONCURRENCY_UNMODELED }

def readObl (bytes : Bytes) : Except CodecError OblSet := do
  require (bytes.length ≤ OBL_ARTIFACT_MAX_BYTES) (.tooLarge bytes.length)
  let (set, _) ← parseDoc.run bytes
  require (set.schema = OBL_SCHEMA) (.schemaVersion set.schema)
  require (set.semantics = SEMANTICS_VERSION) (.semanticsMismatch set.semantics)
  pure set

end Manifest

end Tyu

import Tyu.Cert.Assemble
import Tyu.Cert.VmSummary

/-! # The generated proof package -/

namespace Tyu.LeanPackage

open Lib Lib.Json Obl

abbrev Files := List (String × Bytes)

/-- The part of a file name before its last dot, where it ends in `.ext`; a name that only
begins with a dot has no extension. -/
def stemOf (ext name : String) : Option String :=
  let reversed := name.toList.reverse
  let tail := reversed.takeWhile (· ≠ '.')
  match reversed.drop tail.length with
  | '.' :: stem =>
    if tail.reverse = ext.toList ∧ stem ≠ [] then some (String.ofList stem.reverse) else none
  | _ => none

structure Package where
  files : String → Option Bytes
  /-- the entries of `Gen`; `none` where it is not a directory -/
  gen : Option Files

inductive Place where
  | top (path : String)
  | gen (name : String)

namespace Package

def genFile (p : Package) (name : String) : Option Bytes :=
  ((p.gen.getD []).find? fun f => f.1 = name).map Prod.snd

def read (p : Package) : Place → Option Bytes
  | .top path => p.files path
  | .gen name => p.genFile name

def write (p : Package) (path : String) (bytes : Bytes) : Package :=
  { p with files := Function.update p.files path (some bytes) }

end Package

/-- An obligation artifact: its file name, its bytes, and what `read_obl` reads. -/
structure Artifact where
  file : String
  bytes : Bytes
  set : Option OblSet

structure Inputs where
  /-- the package directory -/
  root : String
  /-- the absolute path of the developer's proofs -/
  proofsPath : String
  port : String → Option Bytes
  artifacts : List Artifact
  refinements : Option (List Refinement)
  /-- `refinement_decls_serialization` of the refinements -/
  serialized : Bytes
  /-- the document that hands the refinements to the renderer -/
  document : Bytes
  proofs : Files
  candidates : Files
  /-- the port's renderer, on the artifacts and the refinement document -/
  render : List Bytes → Option Bytes → Option Files

inductive GenError where
  | portUnreadable (path : String)
  | renderFailed
  | artifactInvalid (file : String)

def vendoredPortFiles : List String :=
  ["Tyu.lean", "Tyu/Abs.lean", "Tyu/IR/Op.lean", "Tyu/IR/Semantics.lean", "Tyu/IR/Target.lean",
    "Tyu/Mem.lean", "Tyu/Src.lean", "Tyu/Step.lean", "Tyu/Sound.lean", "Tyu/Stackmeta.lean",
    "Tyu/Services.lean", "Tyu/Conformance/Cfg.lean", "Tyu/Conformance/Interval.lean",
    "Tyu/Conformance/IntervalLaws.lean", "Tyu/Conformance/Json.lean",
    "Tyu/Conformance/Parse.lean", "Tyu/Conformance/Runner.lean", "Tyu/Conformance/Step.lean",
    "Tyu/Conformance/VectorRun.lean", "Tyu/Bundles.lean", "Tyu/Bundles/Bundle.lean",
    "Tyu/Bundles/X86_64.lean", "Tyu/Bundles/ArmV7M.lean", "Tyu/Bundles/Riscv32.lean",
    "Tyu/Bundles/Rp2350.lean", "Tyu/Gen/Sha256.lean", "Tyu/Gen/Stmt.lean",
    "Tyu/Gen/Render.lean", "Tyu/Verdicts/Harvest.lean", "Tyu/Automation/Auto.lean",
    "Tyu/Automation/Cycle.lean"]

namespace Inputs

variable (i : Inputs)

def portFile (path : String) : Except GenError Bytes :=
  match i.port path with
  | some bytes => .ok bytes
  | none => .error (.portUnreadable path)

def FNV_OFFSET : UInt64 := 0xcbf29ce484222325
def FNV_PRIME : UInt64 := 0x100000001b3

def keyLe (a b : String × UInt64) : Bool := decide (a.1 < b.1 ∨ a.1 = b.1 ∧ a.2 ≤ b.2)

/-- Fold sorted `(key, hash)` pairs. -/
def foldItems (items : List (String × UInt64)) : UInt64 :=
  (items.mergeSort keyLe).foldl
    (fun h kv => ((h ^^^ kv.2) * FNV_PRIME ^^^ fnv1a64 (utf8 kv.1)) * FNV_PRIME) FNV_OFFSET

def proofFilesHash : UInt64 := foldItems (i.proofs.map fun f => (f.1, fnv1a64 f.2))

def fingerprintItems : Except GenError (List (String × UInt64)) := do
  let vendored ← vendoredPortFiles.mapM fun path => do
    let bytes ← i.portFile path
    pure ("port:" ++ path, fnv1a64 bytes)
  let pin ← i.portFile "lean-toolchain"
  pure (("refinements", fnv1a64 i.serialized) :: vendored ++
    [("port:lean-toolchain", fnv1a64 pin)] ++
    i.artifacts.map (fun a => ("obl:" ++ a.file, fnv1a64 a.bytes)) ++
    [("proofs", i.proofFilesHash), ("stmt", fnv1a64 (utf8 STMT_SCHEMA)),
      ("semantics", fnv1a64 (utf8 SEMANTICS_VERSION)), ("root", fnv1a64 (utf8 i.root))])

def fingerprint : Except GenError UInt64 := do
  let items ← i.fingerprintItems
  pure (foldItems items)

def stateText (fingerprint : UInt64) : String :=
  "\x7b\"schema\":\"tyu.pkg/1\",\"fingerprint\":\"" ++ Summary.hex16 fingerprint ++
    "\",\"stmt\":\"" ++ STMT_SCHEMA ++ "\",\"semantics\":\"" ++ SEMANTICS_VERSION ++ "\"\x7d\n"

def sortedNames (names : List String) : List String :=
  (names.mergeSort fun a b => decide (a ≤ b)).dedup

/-- The names of the statement modules in `Gen`. -/
def genModules (gen : Files) : List String := sortedNames (gen.filterMap fun f => stemOf "lean" f.1)

def genAggregator (modules : List String) : String :=
  "-- Generated by tyu (PLAN-VERIFY-3 P7.1) — the statement aggregator.\n" ++
    String.join (modules.map fun m => "import Gen." ++ m ++ "\n")

def harvestEntry (modules : List String) (hasProofs : Bool) (candidateRoots : List String) :
    String :=
  "import Tyu.Verdicts.Harvest\n" ++
    String.join (modules.map fun m => "import Gen." ++ m ++ "\n") ++
    (if hasProofs then "import proofs\n" else "") ++
    String.join (candidateRoots.map fun c => "import " ++ c ++ "\n") ++
    "\n-- The harvest (PLAN-VERIFY-3 P7.1): this environment — the\n" ++
    "-- generated statements + the developer's kernel-checked theorems —\n" ++
    "-- is what the harvest audits. Deterministic `tyu.verdicts/v2` out.\n" ++
    "#eval! Tyu.Verdicts.Harvest.run\n"

def tomlChar (c : Char) : String :=
  if c = '"' then "\\\""
  else if c = '\\' then "\\\\"
  else if c = '\n' then "\\n"
  else if c = '\r' then "\\r"
  else if c = '\t' then "\\t"
  else if c.toNat < 0x20 then
    "\\u00" ++ String.ofList [hexDigit (c.toNat / 16), hexDigit (c.toNat % 16)]
  else String.singleton c

def tomlEscape (s : String) : String := String.join (s.toList.map tomlChar)

def proofRoots : List String :=
  sortedNames ((i.proofs ++ i.candidates).filterMap fun f => stemOf "lean" f.1)

def renderLakefile : String :=
  "# Generated by tyu (PLAN-VERIFY-3 P6.1) — DO NOT EDIT.\n" ++
    "# The package is regenerated every `tyu build --verify-tool=lean`.\n" ++
    "# libs: Tyu (vendored port) + Gen (generated statements) + TyuProofs\n" ++
    "#       (developer-owned proofs/, enumerated roots) + the harvest stub.\n" ++
    "\nname = \"tyu-verify\"\nversion = \"0.1.0\"\n" ++
    "\n[[lean_lib]]\nname = \"Tyu\"\nsrcDir = \".\"\nroots = [\"Tyu\"]\n" ++
    "\n[[lean_lib]]\nname = \"Gen\"\nsrcDir = \".\"\nroots = [\"Gen\"]\n" ++
    (if i.proofRoots = [] then ""
     else "\n[[lean_lib]]\nname = \"TyuProofs\"\nsrcDir = \"" ++ tomlEscape i.proofsPath ++
      "\"\nroots = [" ++
      String.intercalate ", " (i.proofRoots.map fun r => "\"" ++ tomlEscape r ++ "\"") ++ "]\n")

def expectedModules : Except GenError (List String) :=
  i.artifacts.mapM fun a =>
    match a.set with
    | some set => .ok set.module
    | none => .error (.artifactInvalid a.file)

/-- The `Gen` directory after the renderer ran: the old statements and their metadata are
removed before, and statements of other modules after. -/
def renderGenFiles (old : Files) : Except GenError Files := do
  let rendered ←
    match i.render (i.artifacts.map Artifact.bytes) (i.refinements.map fun _ => i.document) with
    | some files => Except.ok files
    | none => .error .renderFailed
  let expected ← i.expectedModules
  let kept := old.filter fun f =>
    (stemOf "lean" f.1).isNone && (stemOf "json" f.1).isNone && (rendered.lookup f.1).isNone
  pure ((rendered ++ kept).filter fun f =>
    match stemOf "lean" f.1 with
    | some m => expected.contains m
    | none => true)

def vendorPortLib (p : Package) : Except GenError Package :=
  vendoredPortFiles.foldlM
    (fun p path => do
      let bytes ← i.portFile path
      pure (p.write path bytes)) p

def regenerate (fingerprint : UInt64) (p : Package) : Except GenError Package := do
  let pin ← i.portFile "lean-toolchain"
  let p ← i.vendorPortLib (p.write "lean-toolchain" pin)
  let gen ← i.renderGenFiles (p.gen.getD [])
  let modules := genModules gen
  let hasProofs := i.proofs.any fun f => f.1 = "proofs.lean"
  let candidateRoots := ((i.candidates.map Prod.fst).mergeSort fun a b => decide (a ≤ b)).filterMap
    (stemOf "lean")
  pure ((((({ p with gen := some gen }.write "refinements.json" i.document).write
    "lakefile.toml" (utf8 i.renderLakefile)).write
    "Gen.lean" (utf8 (genAggregator modules))).write
    "Harvest.lean" (utf8 (harvestEntry modules hasProofs candidateRoots))).write
    ".tyu-gen.json" (utf8 (stateText fingerprint)))

/-- The fast path: the state file records the fingerprint, and there is a `Gen`. -/
def recorded (fingerprint : UInt64) (p : Package) : Bool :=
  match (p.files ".tyu-gen.json").bind fun bytes => String.fromUTF8? bytes.toByteArray with
  | some state => Cert.trim state == Cert.trim (stateText fingerprint) && p.gen.isSome
  | none => false

def generatePackage (p : Package) : Except GenError Package := do
  let fingerprint ← i.fingerprint
  if recorded fingerprint p then pure p else i.regenerate fingerprint p

end Inputs

/-!
## The checks before the proofs are elaborated

Two checks run over the package, also where it was not generated anew.  The vendored files
must be the port's, byte for byte.  Of the statements, the metadata of a module must list
every obligation with the hash that the canonical encoder computes, and the text of the
module must carry that hash somewhere, as an annotation.

The metadata is searched for keys in its text; it is not parsed as a whole.
-/

/-- What follows the first occurrence of `needle`. -/
def after (needle : List Char) : List Char → Option (List Char)
  | [] => if needle = [] then some [] else none
  | c :: cs =>
    if needle.isPrefixOf (c :: cs) then some ((c :: cs).drop needle.length) else after needle cs

def trimStart (cs : List Char) : List Char := cs.dropWhile Cert.isWhiteSpace

/-- A string up to its closing quote; an escape it does not know stands for itself. -/
def stringBody : List Char → List Char → Option String
  | '"' :: _, out => some (String.ofList out.reverse)
  | '\\' :: 'n' :: cs, out => stringBody cs ('\n' :: out)
  | '\\' :: 't' :: cs, out => stringBody cs ('\t' :: out)
  | '\\' :: 'r' :: cs, out => stringBody cs ('\r' :: out)
  | ['\\'], _ => none
  | '\\' :: c :: cs, out => stringBody cs (c :: out)
  | c :: cs, out => stringBody cs (c :: out)
  | [], _ => none

def quoted (key : String) : List Char := '"' :: key.toList ++ ['"']

/-- The first value of `key` that is a string; `fuel` bounds the occurrences looked at. -/
def stringFieldFrom (key : String) : Nat → List Char → Option String
  | 0, _ => none
  | fuel + 1, text =>
    match after (quoted key) text with
    | none => none
    | some rest =>
      match trimStart rest with
      | ':' :: value =>
        match trimStart value with
        | '"' :: cs => stringBody cs []
        | _ => stringFieldFrom key fuel rest
      | _ => none

def jsonStringField (text : List Char) (key : String) : Option String :=
  stringFieldFrom key (text.length + 1) text

def jsonBoolField (text : List Char) (key : String) : Option Bool :=
  match after (quoted key) text with
  | none => none
  | some rest =>
    match trimStart rest with
    | ':' :: value =>
      let value := trimStart value
      if "true".toList.isPrefixOf value then some true
      else if "false".toList.isPrefixOf value then some false
      else none
    | _ => none

structure Spans where
  depth : Nat
  inStr : Bool
  escaped : Bool
  /-- the characters of the open object, latest first -/
  current : List Char
  /-- the objects found, latest first -/
  found : List (List Char)

def Spans.step (s : Spans) (c : Char) : Spans :=
  let s := if 0 < s.depth then { s with current := c :: s.current } else s
  if s.inStr then
    if s.escaped then { s with escaped := false }
    else if c = '\\' then { s with escaped := true }
    else if c = '"' then { s with inStr := false }
    else s
  else if c = '"' then { s with inStr := true }
  else if c = '\x7b' then
    { s with depth := s.depth + 1, current := if s.depth = 0 then [c] else s.current }
  else if c = '\x7d' ∧ 0 < s.depth then
    if s.depth = 1 then
      { s with depth := 0, current := [], found := s.current.reverse :: s.found }
    else { s with depth := s.depth - 1 }
  else s

def jsonObjectSpans (text : List Char) : List (List Char) :=
  (text.foldl Spans.step ⟨0, false, false, [], []⟩).found.reverse

structure GenStatementRow where
  id : String
  omitted : Bool
  statementHash : String
deriving DecidableEq

/-- The rows of the `statements` array; `none` where the file is not of this schema. -/
def parseGenMeta (bytes : Bytes) : Option (List GenStatementRow) := do
  let text ← String.fromUTF8? bytes.toByteArray
  let cs := text.toList
  if (jsonStringField cs "schema").getD "" = "tyu.gen/1" then
    match after (quoted "statements") cs with
    | none => some []
    | some rest =>
      match after ['['] rest with
      | none => some []
      | some rows =>
        some ((jsonObjectSpans rows).map fun row =>
          { id := (jsonStringField row "id").getD ""
            omitted := (jsonBoolField row "omitted").getD false
            statementHash := (jsonStringField row "statement_hash").getD "" })
  else none

def isHexDigit (c : Char) : Bool :=
  c.isDigit || (decide ('a' ≤ c) && decide (c ≤ 'f')) || (decide ('A' ≤ c) && decide (c ≤ 'F'))

def statementHashesFrom : Nat → List Char → List String
  | 0, _ => []
  | fuel + 1, text =>
    match after "statement_hash: ".toList text with
    | none => []
    | some rest =>
      let hex := (rest.takeWhile isHexDigit).take 64
      let found := if hex.length = 64 then [String.ofList hex] else []
      found ++ statementHashesFrom fuel (rest.drop hex.length)

def extractStatementHashes (text : List Char) : List String :=
  statementHashesFrom (text.length + 1) text

inductive GateError where
  | generation (e : GenError)
  | portUnreadable (path : String)
  | vendoredMissing (path : String)
  | vendoredDisagrees (path : String)
  | artifactInvalid (file : String)
  | surfaceMissing (module : String)
  | unreadable (module : String)
  | badMetadata (module : String)
  | missingRow (id : String)
  | hashMismatch (id : String)
  | notCarried (id : String)

structure ModuleStatements where
  module : String
  rendered : Nat
  omitted : Nat

def verifyVendoredFiles (i : Inputs) (p : Package) : Except GateError Unit :=
  vendoredPortFiles.forM fun path =>
    match i.port path, p.files path with
    | none, _ => .error (.portUnreadable path)
    | some _, none => .error (.vendoredMissing path)
    | some port, some pkg => if pkg = port then .ok () else .error (.vendoredDisagrees path)

def expectedHash (sha : Digest) (set : OblSet) (refinements : List Refinement) (o : Obligation) :
    String :=
  let wordIr := ((set.words.find? fun w => w.name = o.site.word).map WordText.ir).getD ""
  let refinement := (wordRefinement wordIr refinements).map Refinement.refinement
  (StatementContext.forObligation set.module set.target set.modelSemantics
    (sha256Hex16 sha wordIr) refinement o).statementHash sha o.formula

/-- Count the statement of one obligation, after its hash is found where it should be. -/
def verifyStatement (sha : Digest) (set : OblSet) (refinements : List Refinement)
    (rows : List GenStatementRow) (carried : List String) (acc : ModuleStatements)
    (o : Obligation) : Except GateError ModuleStatements :=
  match rows.find? fun r => r.id = o.id with
  | none => .error (.missingRow o.id)
  | some row =>
    if row.omitted then .ok { acc with omitted := acc.omitted + 1 }
    else
      let expected := expectedHash sha set refinements o
      if row.statementHash ≠ expected then .error (.hashMismatch o.id)
      else if carried.contains expected then .ok { acc with rendered := acc.rendered + 1 }
      else .error (.notCarried o.id)

def verifyModule (sha : Digest) (i : Inputs) (p : Package) (a : Artifact) :
    Except GateError ModuleStatements :=
  match a.set with
  | none => .error (.artifactInvalid a.file)
  | some set =>
    match p.genFile (set.module ++ ".lean"), p.genFile (set.module ++ ".gen.json") with
    | some lean, some metadata =>
      match String.fromUTF8? lean.toByteArray with
      | none => .error (.unreadable set.module)
      | some text =>
        match parseGenMeta metadata with
        | none => .error (.badMetadata set.module)
        | some rows =>
          set.obligations.foldlM
            (verifyStatement sha set (i.refinements.getD []) rows
              (extractStatementHashes text.toList))
            ⟨set.module, 0, 0⟩
    | _, _ => .error (.surfaceMissing set.module)

def verifyGenDigests (sha : Digest) (i : Inputs) (p : Package) :
    Except GateError (List ModuleStatements) := do
  let modules ← i.artifacts.mapM (verifyModule sha i p)
  pure (modules.mergeSort fun a b => decide (a.module ≤ b.module))

/-- The part of `run_lean_pipeline` before the package is built: the package that is
elaborated, and its statements. -/
def gate (sha : Digest) (i : Inputs) (p : Package) :
    Except GateError (Package × List ModuleStatements) := do
  let p ←
    match i.generatePackage p with
    | .ok p => Except.ok p
    | .error e => .error (.generation e)
  verifyVendoredFiles i p
  let statements ← verifyGenDigests sha i p
  pure (p, statements)

end Tyu.LeanPackage

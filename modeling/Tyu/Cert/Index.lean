import Tyu.Cert.Json

/-! # The certification index -/

namespace Tyu

open Lib Lib.Json
open Manifest (commaSep)

namespace Cert

def CERT_SCHEMA : String := "tyu.cert/v1"
def INDEX_MAX_BYTES : Nat := 16 * 1024 * 1024
def MEMBER_PATH_MAX : Nat := 512

/-- What a module claims: the number of obligations of each kind, and the authored intents. -/
structure Claims where
  kinds : List (String × UInt32) := []
  intents : List String := []

structure Counts where
  proof : UInt32
  checked : UInt32
  assumed : UInt32
  opened : UInt32

/-- A module's entry.  The digests of its bytes and of its signed manifest are there when its
bytes are shipped on their own. -/
structure CertModule where
  name : String
  moduleDigest : Option String
  manifestDigest : Option String
  oblDigest : String
  verdictsDigest : String
  target : String
  model : String
  counts : Counts
  candidateRatio : UInt16
  claims : Claims

structure CertificateId where
  cls : String
  name : String
  recognition : String
  toolName : String
  toolVersion : String
  toolchain : String
  methods : List String

structure Member where
  path : String
  sha256 : String
  size : UInt64

structure CertIndex where
  schema : String
  imageName : String
  imageFingerprint : String
  semantics : String
  stmt : String
  policy : String
  modules : List CertModule
  certifiers : List CertificateId
  members : List Member
  packageDigest : Option String

def jnat (n : Nat) : Bytes := decimal n

/-- A string, or `null`. -/
def jstrOrNull : Option String → Bytes
  | some s => jstr s
  | none => utf8 "null"

def writeHeader (index : CertIndex) : Bytes :=
  utf8 "\x7b\"schema\":" ++ jstr index.schema ++
    utf8 ",\"image\":\x7b\"name\":" ++ jstr index.imageName ++
    utf8 ",\"fingerprint\":" ++ jstr index.imageFingerprint ++
    utf8 "\x7d,\"semantics\":" ++ jstr index.semantics ++
    utf8 ",\"stmt\":" ++ jstr index.stmt ++
    utf8 ",\"registries\":\x7b\"statements\":\x7b\"doc\":\"formal-semantics-core.md\",\"rev\":\"1\"\x7d," ++
    utf8 "\"certifiers\":\x7b\"doc\":\"verification-trust.md\",\"rev\":\"1\"\x7d\x7d,\"policy\":" ++
    jstr index.policy

def writeKind (k : String × UInt32) : Bytes := jstr k.1 ++ 0x3A :: jnat k.2.toNat

def writeModule (m : CertModule) : Bytes :=
  utf8 "\x7b\"name\":" ++ jstr m.name ++
    utf8 ",\"module_digest\":" ++ jstrOrNull m.moduleDigest ++
    utf8 ",\"manifest_digest\":" ++ jstrOrNull m.manifestDigest ++
    utf8 ",\"obl_digest\":" ++ jstr m.oblDigest ++
    utf8 ",\"verdicts_digest\":" ++ jstr m.verdictsDigest ++
    utf8 ",\"target\":" ++ jstr m.target ++
    utf8 ",\"model\":" ++ jstr m.model ++
    utf8 ",\"counts\":\x7b\"proof\":" ++ jnat m.counts.proof.toNat ++
    utf8 ",\"checked\":" ++ jnat m.counts.checked.toNat ++
    utf8 ",\"assumed\":" ++ jnat m.counts.assumed.toNat ++
    utf8 ",\"open\":" ++ jnat m.counts.opened.toNat ++
    utf8 "\x7d,\"candidate_ratio\":" ++ jnat m.candidateRatio.toNat ++
    utf8 ",\"claims\":\x7b\"kinds\":\x7b" ++ commaSep writeKind m.claims.kinds ++
    utf8 "\x7d,\"intents\":[" ++ commaSep jstr m.claims.intents ++
    utf8 "]\x7d\x7d"

def writeModules (index : CertIndex) : Bytes :=
  utf8 ",\"modules\":[" ++ commaSep writeModule index.modules ++ utf8 "]"

def writeCertifier (c : CertificateId) : Bytes :=
  utf8 "\x7b\"class\":" ++ jstr c.cls ++
    utf8 ",\"name\":" ++ jstr c.name ++
    utf8 ",\"recognition\":" ++ jstr c.recognition ++
    utf8 ",\"tool\":\x7b\"name\":" ++ jstr c.toolName ++
    utf8 ",\"version\":" ++ jstr c.toolVersion ++
    utf8 "\x7d,\"toolchain\":" ++ jstr c.toolchain ++
    utf8 ",\"methods\":[" ++ commaSep jstr c.methods ++ utf8 "]\x7d"

def writeCertifiers (index : CertIndex) : Bytes :=
  utf8 ",\"certifiers\":[" ++ commaSep writeCertifier index.certifiers ++ utf8 "]"

def writeMember (m : Member) : Bytes :=
  utf8 "\x7b\"path\":" ++ jstr m.path ++
    utf8 ",\"sha256\":" ++ jstr m.sha256 ++
    utf8 ",\"size\":" ++ jnat m.size.toNat ++ utf8 "\x7d"

def writeMembers (index : CertIndex) : Bytes :=
  utf8 ",\"members\":[" ++ commaSep writeMember index.members ++ utf8 "]"

/-- The text without the digest of the package: what the digest is taken of. -/
def canonicalPreDigest (index : CertIndex) : Bytes :=
  writeHeader index ++ writeModules index ++ writeCertifiers index ++ writeMembers index ++
    utf8 "\x7d"

def canonical (index : CertIndex) : Bytes :=
  writeHeader index ++ writeModules index ++ writeCertifiers index ++ writeMembers index ++
    utf8 ",\"package_digest\":" ++ jstrOrNull index.packageDigest ++ utf8 "\x7d"

/-! ## Reader -/

def objStr (v : Json) (field : String) : Except CertError String :=
  match v with
  | .str s => .ok s
  | _ => bad (field ++ " must be a string")

def objU64 (v : Json) (field : String) : Except CertError UInt64 :=
  match v with
  | .num n => if 0 ≤ n then .ok n.toNat.toUInt64 else bad (field ++ " must be a non-negative integer")
  | _ => bad (field ++ " must be a non-negative integer")

def objU32 (v : Json) (field : String) : Except CertError UInt32 := do
  let n ← objU64 v field
  if n.toNat < 2 ^ 32 then .ok n.toUInt32 else bad "count out of range"

def objMembers (v : Json) (detail : String) : Except CertError (List (String × Json)) :=
  match v with
  | .obj members => .ok members
  | _ => bad detail

def arrItems (v : Json) (detail : String) : Except CertError (List Json) :=
  match v with
  | .arr items => .ok items
  | _ => bad detail

/-- A string, or nothing for `null`. -/
def objStrOrNull (v : Json) (field : String) : Except CertError (Option String) :=
  match v with
  | .null => .ok none
  | v => some <$> objStr v field

def countsField (out : Counts) (field : String × Json) : Except CertError Counts := do
  let n ← objU32 field.2 "counts field"
  match field.1 with
  | "proof" => pure { out with proof := n }
  | "checked" => pure { out with checked := n }
  | "assumed" => pure { out with assumed := n }
  | "open" => pure { out with opened := n }
  | _ => pure out

def parseCounts (v : Json) : Except CertError Counts := do
  let fields ← objMembers v "counts must be an object"
  fields.foldlM countsField ⟨0, 0, 0, 0⟩

def kindCount (k : String × Json) : Except CertError (String × UInt32) := do
  let n ← objU32 k.2 "claims.kinds value"
  pure (k.1, n)

def sortKinds (kinds : List (String × UInt32)) : List (String × UInt32) :=
  kinds.mergeSort fun a b => !decide (b.1 < a.1)

def sortIntents (intents : List String) : List String :=
  (intents.mergeSort fun a b => !decide (b < a)).destutter (· ≠ ·)

def claimsField (out : Claims) (field : String × Json) : Except CertError Claims :=
  match field.1 with
  | "kinds" => do
    let members ← objMembers field.2 "claims.kinds must be an object"
    let kinds ← members.mapM kindCount
    pure { out with kinds := sortKinds (out.kinds ++ kinds) }
  | "intents" => do
    let items ← arrItems field.2 "claims.intents must be an array"
    let intents ← items.mapM fun i => objStr i "claims.intents entry"
    pure { out with intents := sortIntents (out.intents ++ intents) }
  | _ => pure out

def parseClaims (v : Json) : Except CertError Claims := do
  let fields ← objMembers v "claims must be an object"
  fields.foldlM claimsField {}

structure ModuleFields where
  name : Option String := none
  moduleDigest : Option String := none
  manifestDigest : Option String := none
  oblDigest : Option String := none
  verdictsDigest : Option String := none
  target : Option String := none
  model : Option String := none
  counts : Option Counts := none
  candidateRatio : Option UInt16 := none
  claims : Claims := {}

def moduleField (s : ModuleFields) (field : String × Json) : Except CertError ModuleFields :=
  match field.1 with
  | "name" => do pure { s with name := some (← objStr field.2 "modules[].name") }
  | "module_digest" => do
    pure { s with moduleDigest := ← objStrOrNull field.2 "modules[].module_digest" }
  | "manifest_digest" => do
    pure { s with manifestDigest := ← objStrOrNull field.2 "modules[].manifest_digest" }
  | "obl_digest" => do pure { s with oblDigest := some (← objStr field.2 "modules[].obl_digest") }
  | "verdicts_digest" => do
    pure { s with verdictsDigest := some (← objStr field.2 "modules[].verdicts_digest") }
  | "target" => do pure { s with target := some (← objStr field.2 "modules[].target") }
  | "model" => do pure { s with model := some (← objStr field.2 "modules[].model") }
  | "counts" => do pure { s with counts := some (← parseCounts field.2) }
  | "candidate_ratio" => do
    let n ← objU64 field.2 "modules[].candidate_ratio"
    if n.toNat > 65535 then bad "candidate_ratio out of range"
    else pure { s with candidateRatio := some n.toUInt16 }
  | "claims" => do pure { s with claims := ← parseClaims field.2 }
  | _ => pure s

def ModuleFields.finish (s : ModuleFields) : Except CertError CertModule := do
  let required := CertError.malformed "module entry missing field"
  let name ← expect s.name required
  let oblDigest ← expect s.oblDigest required
  let verdictsDigest ← expect s.verdictsDigest required
  let target ← expect s.target required
  let model ← expect s.model required
  let counts ← expect s.counts required
  pure
    { name, moduleDigest := s.moduleDigest, manifestDigest := s.manifestDigest, oblDigest
      verdictsDigest, target, model, counts, candidateRatio := s.candidateRatio.getD 0
      claims := s.claims }

def parseModule (item : Json) : Except CertError CertModule := do
  let fields ← objMembers item "module entry must be an object"
  (← fields.foldlM moduleField {}).finish

def parseModules (v : Json) : Except CertError (List CertModule) := do
  let items ← arrItems v "modules must be an array"
  items.mapM parseModule

structure CertifierFields where
  cls : Option String := none
  name : Option String := none
  recognition : Option String := none
  toolName : Option String := none
  toolVersion : Option String := none
  toolchain : Option String := none
  methods : List String := []

def toolField (s : CertifierFields) (field : String × Json) : Except CertError CertifierFields :=
  match field.1 with
  | "name" => do pure { s with toolName := some (← objStr field.2 "certifier tool.name") }
  | "version" => do pure { s with toolVersion := some (← objStr field.2 "certifier tool.version") }
  | _ => pure s

def certifierField (s : CertifierFields) (field : String × Json) :
    Except CertError CertifierFields :=
  match field.1 with
  | "class" => do pure { s with cls := some (← objStr field.2 "certifiers[].class") }
  | "name" => do pure { s with name := some (← objStr field.2 "certifiers[].name") }
  | "recognition" => do
    pure { s with recognition := some (← objStr field.2 "certifiers[].recognition") }
  | "toolchain" => do pure { s with toolchain := some (← objStr field.2 "certifiers[].toolchain") }
  | "tool" => do
    let tool ← objMembers field.2 "certifier tool must be an object"
    tool.foldlM toolField s
  | "methods" => do
    let items ← arrItems field.2 "certifier methods must be an array"
    let methods ← items.mapM fun m => objStr m "certifier method"
    pure { s with methods := s.methods ++ methods }
  | _ => pure s

def CertifierFields.finish (s : CertifierFields) : Except CertError CertificateId := do
  let required := CertError.malformed "certifier entry missing field"
  let cls ← expect s.cls required
  let name ← expect s.name required
  let recognition ← expect s.recognition required
  pure
    { cls, name, recognition, toolName := s.toolName.getD "", toolVersion := s.toolVersion.getD ""
      toolchain := s.toolchain.getD "", methods := s.methods }

def parseCertifier (item : Json) : Except CertError CertificateId := do
  let fields ← objMembers item "certifier entry must be an object"
  (← fields.foldlM certifierField {}).finish

def parseCertifiers (v : Json) : Except CertError (List CertificateId) := do
  let items ← arrItems v "certifiers must be an array"
  items.mapM parseCertifier

structure MemberFields where
  path : Option String := none
  sha256 : Option String := none
  size : Option UInt64 := none

def memberField (s : MemberFields) (field : String × Json) : Except CertError MemberFields :=
  match field.1 with
  | "path" => do pure { s with path := some (← objStr field.2 "members[].path") }
  | "sha256" => do pure { s with sha256 := some (← objStr field.2 "members[].sha256") }
  | "size" => do pure { s with size := some (← objU64 field.2 "members[].size") }
  | _ => pure s

def MemberFields.finish (s : MemberFields) : Except CertError Member := do
  let required := CertError.malformed "member entry missing field"
  let path ← expect s.path required
  let sha256 ← expect s.sha256 required
  let size ← expect s.size required
  pure { path, sha256, size }

def parseMember (item : Json) : Except CertError Member := do
  let fields ← objMembers item "member entry must be an object"
  (← fields.foldlM memberField {}).finish

def parseMembers (v : Json) : Except CertError (List Member) := do
  let items ← arrItems v "members must be an array"
  items.mapM parseMember

structure IndexFields where
  schema : Option String := none
  imageName : Option String := none
  imageFingerprint : Option String := none
  semantics : Option String := none
  stmt : Option String := none
  policy : Option String := none
  modules : List CertModule := []
  certifiers : List CertificateId := []
  members : List Member := []
  packageDigest : Option String := none

def imageField (s : IndexFields) (field : String × Json) : Except CertError IndexFields :=
  match field.1 with
  | "name" => do pure { s with imageName := some (← objStr field.2 "image.name") }
  | "fingerprint" => do
    pure { s with imageFingerprint := some (← objStr field.2 "image.fingerprint") }
  | _ => pure s

def indexField (s : IndexFields) (field : String × Json) : Except CertError IndexFields :=
  match field.1 with
  | "schema" => do pure { s with schema := some (← objStr field.2 "schema") }
  | "image" => do
    let image ← objMembers field.2 "image must be an object"
    image.foldlM imageField s
  | "semantics" => do pure { s with semantics := some (← objStr field.2 "semantics") }
  | "stmt" => do pure { s with stmt := some (← objStr field.2 "stmt") }
  | "policy" => do pure { s with policy := some (← objStr field.2 "policy") }
  | "modules" => do pure { s with modules := ← parseModules field.2 }
  | "certifiers" => do pure { s with certifiers := ← parseCertifiers field.2 }
  | "members" => do pure { s with members := ← parseMembers field.2 }
  | "package_digest" => do
    pure { s with packageDigest := some (← objStr field.2 "package_digest") }
  | _ => pure s

def IndexFields.finish (s : IndexFields) : Except CertError CertIndex := do
  let schema ← expect s.schema (.malformed "missing schema")
  require (schema = CERT_SCHEMA)
    (.malformed ("unsupported cert schema '" ++ schema ++ "' (expected " ++ CERT_SCHEMA ++ ")"))
  let required := CertError.malformed "missing index field"
  let imageName ← expect s.imageName required
  let imageFingerprint ← expect s.imageFingerprint required
  let semantics ← expect s.semantics required
  let stmt ← expect s.stmt required
  let policy ← expect s.policy required
  pure
    { schema, imageName, imageFingerprint, semantics, stmt, policy, modules := s.modules
      certifiers := s.certifiers, members := s.members, packageDigest := s.packageDigest }

def checkMembers : Option String → List Member → Except CertError Unit
  | _, [] => .ok ()
  | prev, m :: members => do
    require (m.path.utf8ByteSize ≤ MEMBER_PATH_MAX) (.malformed "member path too long")
    require (∀ p ∈ prev, p < m.path) (.malformed "members not in canonical (sorted) order")
    checkMembers (some m.path) members

def checkModules : Option String → List CertModule → Except CertError Unit
  | _, [] => .ok ()
  | prev, m :: modules => do
    require (∀ p ∈ prev, p < m.name) (.malformed "modules not in canonical (sorted) order")
    checkModules (some m.name) modules

def indexOf (j : Json) : Except CertError CertIndex := do
  let pairs ← objMembers j "index root must be an object"
  let index ← (← pairs.foldlM indexField {}).finish
  checkMembers none index.members
  checkModules none index.modules
  pure index

def parseIndex (bytes : Bytes) : Except CertError CertIndex := do
  require (bytes.length ≤ INDEX_MAX_BYTES)
    (.malformed ("index exceeds " ++ toString INDEX_MAX_BYTES ++ " bytes"))
  indexOf (← parseJson bytes)

end Cert

end Tyu

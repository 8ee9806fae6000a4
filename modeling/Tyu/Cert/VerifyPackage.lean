import Tyu.Cert.Index
import Tyu.Loader.Signature
import Tyu.Loader.VerifyManifest
import Tyu.Verifier.VerdictFileReader

/-! # Verifying a certification package -/

namespace Tyu

open Lib Lib.Json
open Lib.Wire (slice)

namespace Cert

structure Package where
  name : String
  read : String → Option Bytes

/-- The image: a file the caller names, or the one that lies beside the package. -/
inductive ImageArg where
  | given (bytes : Option Bytes)
  | beside (bytes : Option Bytes)

inductive VerifyError where
  | pairing (detail : String)
  | cert (detail : String)
  | io
  | panic

def CertError.toVerifyError : CertError → VerifyError
  | .pairing detail => .pairing detail
  | .malformed detail => .cert detail

def oblPath (module : String) : String := "obligations/" ++ module ++ ".obl.json"
def verdictsPath (module : String) : String := "verdicts/" ++ module ++ ".verdicts.json"

def proofPath (module idHash : String) : String :=
  "proofs/" ++ module ++ "/" ++ idHash ++ "/proof.lean"

def readIndex (pkg : Package) : Except VerifyError CertIndex := do
  let bytes ← expect (pkg.read "cert.json") (.pairing ("no cert.json in " ++ pkg.name))
  match parseIndex bytes with
  | .ok index => pure index
  | .error e => .error e.toVerifyError

section

variable (sha : Bytes → String) (hmac : Bytes → Bytes → Bytes)

def checkDigest (index : CertIndex) : Except VerifyError String := do
  let digest ← expect index.packageDigest (.pairing "index carries no package_digest")
  let recomputed := sha (canonicalPreDigest index)
  require (recomputed = digest) (.pairing
    ("B4: package_digest mismatch — index tampered (stored " ++ digest ++ ", recomputed " ++
      recomputed ++ ")"))
  pure digest

def checkSignature (pkg : Package) (digest : String) (key : Bytes) : Except VerifyError Unit := do
  let sig ← expect (pkg.read "package.sig")
    (.pairing "B4: package.sig missing but a signing key was supplied")
  require (sig.head? = some SCHEME_HMAC_SHA256 ∧ sig.length = 33)
    (.pairing "B4: malformed package.sig trailer")
  require (sig.tail = hmac key (utf8 digest)) (.pairing "B4: package.sig HMAC does not verify")

def imageBytes : ImageArg → Except VerifyError (Option Bytes)
  | .given none => .error .io
  | .given (some bytes) => .ok (some bytes)
  | .beside bytes => .ok bytes

/-- One more module whose bytes are the image, when its entry has a digest of them. -/
def bindModule (image : Option Bytes) (bound : Nat) (m : CertModule) : Except VerifyError Nat :=
  match m.moduleDigest with
  | none => pure bound
  | some expected => do
    let bytes ← expect image (.pairing
      ("B1: module '" ++ m.name ++ "' declares a module_digest but no image was provided " ++
        "(pass --image <path>)"))
    require (sha bytes = expected) (.pairing
      ("B1: module '" ++ m.name ++ "' digest mismatch — the image is not the certified " ++
        "artifact (E6503)"))
    pure (bound + 1)

def bindImage (index : CertIndex) (image : Option Bytes) : Except VerifyError Nat := do
  let bound ← index.modules.foldlM (bindModule sha image) 0
  require (¬ (bound = 0 ∧ index.modules ≠ []))
    (.pairing "B1: the index declares no shipped-module digest to bind")
  pure bound

def hexEncode (bytes : Bytes) : String := String.join (bytes.map hexText)

def bindManifest (source : Bytes) (bound : Nat) (m : CertModule) : Except VerifyError Nat :=
  match m.manifestDigest with
  | none => pure bound
  | some expected => do
    require (source ≠ []) (.pairing
      ("B2: module '" ++ m.name ++ "' declares a manifest_digest but no image/module " ++
        "bytes were provided"))
    let container ←
      match Container.parse .w64 source with
      | .ok c => pure c
      | .error _ => .error (.pairing "B2: the image is not a valid .lmod container")
    let modinfo ← expect (container.modinfo .w64) .panic
    let vm ←
      match (scanVerifyManifest modinfo).run with
      | none => .error .panic
      | some none => .error (.pairing "B2: the image's verify_manifest is malformed")
      | some (some none) => .error (.pairing
          ("B2: module '" ++ m.name ++ "' declares a manifest_digest but the shipped " ++
            "module bytes carry no verify_manifest record"))
      | some (some (some vm)) => pure vm
    require (hexEncode vm.digest = expected) (.pairing
      ("B2: module '" ++ m.name ++ "' manifest verdict_digest mismatch (E6503)"))
    let region ← expect (slice modinfo vm.obligationsStart vm.obligationsEnd) .panic
    require (sha region = expected) (.pairing
      ("B2: module '" ++ m.name ++ "' manifest digest does not recompute (record tampered)"))
    pure (bound + 1)

def checkMember (pkg : Package) (m : Member) : Except VerifyError Unit := do
  let bytes ← expect (pkg.read m.path)
    (.pairing ("B3: member '" ++ m.path ++ "' is missing from the package"))
  require (bytes.length.toUInt64 = m.size ∧ sha bytes = m.sha256) (.pairing
    ("B3: member '" ++ m.path ++ "' digest/size mismatch — content not content-addressed"))

def needsProof (r : VerdictFile.VerdictRecord) : Bool :=
  match r.proof with
  | some p => p.kind = .certificate && r.status = .discharged
  | none => false

def checkProof (pkg : Package) (module : String) (r : VerdictFile.VerdictRecord) :
    Except VerifyError Unit :=
  if needsProof r then
    require (pkg.read (proofPath module r.idHash)).isSome (.pairing
      ("B3: certificate verdict '" ++ r.id ++ "' has no content-addressed proof.lean (proofs/" ++
        module ++ "/" ++ r.idHash ++ "/)"))
  else pure ()

def checkProofs (pkg : Package) (m : CertModule) : Except VerifyError Unit :=
  match pkg.read (verdictsPath m.name) with
  | none => pure ()
  | some bytes =>
    match VerdictFile.readVerdicts bytes with
    | .error _ => .error (.pairing ("B3: module '" ++ m.name ++ "' verdicts member unreadable"))
    | .ok verdicts => verdicts.records.forM (checkProof pkg m.name)

def signatureLines (pkg : Package) (digest : String) : Option Bytes → Except VerifyError (List String)
  | none => pure []
  | some key => do
    checkSignature hmac pkg digest key
    pure ["PASS B4: package.sig HMAC-SHA256 verifies"]

def verifyPackageInner (pkg : Package) (image : ImageArg) (b2Bytes signKey : Option Bytes) :
    Except VerifyError (List String) := do
  let index ← readIndex pkg
  let digest ← checkDigest sha index
  let signed ← signatureLines hmac pkg digest signKey
  let image ← imageBytes image
  let boundModules ← bindImage sha index image
  let source := b2Bytes.getD (image.getD [])
  let boundManifests ← index.modules.foldlM (bindManifest sha source) 0
  index.members.forM (checkMember sha pkg)
  index.modules.forM (checkProofs pkg)
  pure (["PASS B4: package_digest recomputes over the canonical index"] ++ signed ++
    ["PASS B1: " ++ toString boundModules ++ " shipped module(s) bind to the image digest",
      "PASS B2: " ++ toString boundManifests ++ " module manifest digest(s) bind",
      "PASS B3: " ++ toString index.members.length ++ " members content-addressed",
      "PASS B3: certificate proof material present per verdict"])

def verifyPackage (pkg : Package) (image : ImageArg) : Except VerifyError (List String) :=
  verifyPackageInner sha hmac pkg image none none

def verifyPackageSigned (pkg : Package) (image : ImageArg) (signKey : Option Bytes) :
    Except VerifyError (List String) :=
  verifyPackageInner sha hmac pkg image none signKey

end

def neverClimbsOut : Nat → List (List Char) → Bool
  | _, [] => true
  | depth, c :: rest =>
    if c = [] ∨ c = ['.'] then neverClimbsOut depth rest
    else if c = ['.', '.'] then
      match depth with
      | 0 => false
      | depth + 1 => neverClimbsOut depth rest
    else neverClimbsOut (depth + 1) rest

/-- A relative path that does not lead out of the directory it is taken in. -/
def staysInside (path : String) : Bool :=
  path.toList.head? ≠ some '/' && neverClimbsOut 0 (path.toList.splitOn '/')

end Cert

end Tyu

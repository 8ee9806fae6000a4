import Tyu.Cert.Index
import Tyu.Cert.JsonRoundTrip

/-! # The certification index as a tree -/

namespace Tyu

open Lib Lib.Json
open Manifest (commaSep)

namespace Cert

/-- The text before the value of the first member of an object, and of a later one. -/
def openField (k : String) : Bytes := 0x7B :: (jstr k ++ [0x3A])

def nextField (k : String) : Bytes := 0x2C :: (jstr k ++ [0x3A])

theorem textItems_eq (items : List Json) : textItems items = items.flatMap fun j => 0x2C :: text j := by
  induction items with
  | nil => rfl
  | cons j items ih =>
    rw [textItems, ih]
    rfl

theorem textMembers_eq (members : List (String × Json)) :
    textMembers members = members.flatMap fun m => 0x2C :: jstr m.1 ++ 0x3A :: text m.2 := by
  induction members with
  | nil => rfl
  | cons m members ih =>
    rw [textMembers, ih]
    rfl

theorem text_arr {α : Type} {item : α → Bytes} {tree : α → Json} (h : ∀ x, item x = text (tree x))
    (xs : List α) : text (.arr (xs.map tree)) = 0x5B :: (commaSep item xs ++ [0x5D]) := by
  cases xs with
  | nil => rfl
  | cons x xs =>
    have hrest : textItems (xs.map tree) = xs.flatMap fun y => 0x2C :: item y := by
      rw [textItems_eq, List.flatMap_map]
      exact congrArg xs.flatMap (funext fun y => by rw [h])
    rw [List.map_cons, text, hrest, commaSep, h]

theorem text_obj {α : Type} {item : α → Bytes} {key : α → String} {tree : α → Json}
    (h : ∀ x, item x = jstr (key x) ++ 0x3A :: text (tree x)) (xs : List α) :
    text (.obj (xs.map fun x => (key x, tree x))) = 0x7B :: (commaSep item xs ++ [0x7D]) := by
  cases xs with
  | nil => rfl
  | cons x xs =>
    have hrest : textMembers (xs.map fun x => (key x, tree x)) =
        xs.flatMap fun y => 0x2C :: item y := by
      rw [textMembers_eq, List.flatMap_map]
      exact congrArg xs.flatMap (funext fun y => by rw [h, List.cons_append])
    rw [List.map_cons, text, hrest, commaSep, h]

theorem text_nat (n : Nat) : text (.num n) = jnat n := by
  have hn : ¬ (n : Int) < 0 := by omega
  show Json.number n = decimal n
  unfold Json.number
  rw [if_neg hn, Int.natAbs_natCast]

/-- A string, or `null`. -/
def orNull : Option String → Json
  | some s => .str s
  | none => .null

theorem text_orNull (o : Option String) : text (orNull o) = jstrOrNull o := by
  cases o <;> rfl

/-! ## The trees of the writer -/

def kindsTree (kinds : List (String × UInt32)) : Json :=
  .obj (kinds.map fun k => (k.1, .num k.2.toNat))

theorem text_kindsTree (kinds : List (String × UInt32)) :
    text (kindsTree kinds) = 0x7B :: (commaSep writeKind kinds ++ [0x7D]) :=
  text_obj (fun k => by rw [writeKind, text_nat]) kinds

def stringsTree (xs : List String) : Json := .arr (xs.map Json.str)

theorem text_stringsTree (xs : List String) :
    text (stringsTree xs) = 0x5B :: (commaSep jstr xs ++ [0x5D]) := text_arr (fun _ => rfl) xs

def countsTree (c : Counts) : Json :=
  .obj [("proof", .num c.proof.toNat), ("checked", .num c.checked.toNat),
    ("assumed", .num c.assumed.toNat), ("open", .num c.opened.toNat)]

def claimsTree (c : Claims) : Json :=
  .obj [("kinds", kindsTree c.kinds), ("intents", stringsTree c.intents)]

def moduleTree (m : CertModule) : Json :=
  .obj [("name", .str m.name), ("module_digest", orNull m.moduleDigest),
    ("manifest_digest", orNull m.manifestDigest), ("obl_digest", .str m.oblDigest),
    ("verdicts_digest", .str m.verdictsDigest), ("target", .str m.target),
    ("model", .str m.model), ("counts", countsTree m.counts),
    ("candidate_ratio", .num m.candidateRatio.toNat), ("claims", claimsTree m.claims)]

theorem writeModule_eq (m : CertModule) : writeModule m = text (moduleTree m) := by
  have hname : utf8 "\x7b\"name\":" = openField "name" := rfl
  have hmodule : utf8 ",\"module_digest\":" = nextField "module_digest" := rfl
  have hmanifest : utf8 ",\"manifest_digest\":" = nextField "manifest_digest" := rfl
  have hobl : utf8 ",\"obl_digest\":" = nextField "obl_digest" := rfl
  have hverdicts : utf8 ",\"verdicts_digest\":" = nextField "verdicts_digest" := rfl
  have htarget : utf8 ",\"target\":" = nextField "target" := rfl
  have hmodel : utf8 ",\"model\":" = nextField "model" := rfl
  have hproof : utf8 ",\"counts\":\x7b\"proof\":" = nextField "counts" ++ openField "proof" := rfl
  have hchecked : utf8 ",\"checked\":" = nextField "checked" := rfl
  have hassumed : utf8 ",\"assumed\":" = nextField "assumed" := rfl
  have hopen : utf8 ",\"open\":" = nextField "open" := rfl
  have hratio : utf8 "\x7d,\"candidate_ratio\":" = 0x7D :: nextField "candidate_ratio" := rfl
  have hkinds : utf8 ",\"claims\":\x7b\"kinds\":\x7b" =
      nextField "claims" ++ openField "kinds" ++ [0x7B] := rfl
  have hintents : utf8 "\x7d,\"intents\":[" = 0x7D :: nextField "intents" ++ [0x5B] := rfl
  have hclose : utf8 "]\x7d\x7d" = [0x5D, 0x7D, 0x7D] := rfl
  unfold writeModule moduleTree countsTree claimsTree
  simp only [hname, hmodule, hmanifest, hobl, hverdicts, htarget, hmodel, hproof, hchecked,
    hassumed, hopen, hratio, hkinds, hintents, hclose, openField, nextField, text, textMembers,
    text_orNull, text_kindsTree, text_stringsTree, ← text_nat, List.append_assoc,
    List.cons_append, List.nil_append]

def certifierTree (c : CertificateId) : Json :=
  .obj [("class", .str c.cls), ("name", .str c.name), ("recognition", .str c.recognition),
    ("tool", .obj [("name", .str c.toolName), ("version", .str c.toolVersion)]),
    ("toolchain", .str c.toolchain), ("methods", stringsTree c.methods)]

theorem writeCertifier_eq (c : CertificateId) : writeCertifier c = text (certifierTree c) := by
  have hclass : utf8 "\x7b\"class\":" = openField "class" := rfl
  have hname : utf8 ",\"name\":" = nextField "name" := rfl
  have hrecognition : utf8 ",\"recognition\":" = nextField "recognition" := rfl
  have htool : utf8 ",\"tool\":\x7b\"name\":" = nextField "tool" ++ openField "name" := rfl
  have hversion : utf8 ",\"version\":" = nextField "version" := rfl
  have htoolchain : utf8 "\x7d,\"toolchain\":" = 0x7D :: nextField "toolchain" := rfl
  have hmethods : utf8 ",\"methods\":[" = nextField "methods" ++ [0x5B] := rfl
  have hclose : utf8 "]\x7d" = [0x5D, 0x7D] := rfl
  unfold writeCertifier certifierTree
  simp only [hclass, hname, hrecognition, htool, hversion, htoolchain, hmethods, hclose, openField,
    nextField, text, textMembers, text_stringsTree, List.append_assoc, List.cons_append,
    List.nil_append]

def memberTree (m : Member) : Json :=
  .obj [("path", .str m.path), ("sha256", .str m.sha256), ("size", .num m.size.toNat)]

theorem writeMember_eq (m : Member) : writeMember m = text (memberTree m) := by
  have hpath : utf8 "\x7b\"path\":" = openField "path" := rfl
  have hsha : utf8 ",\"sha256\":" = nextField "sha256" := rfl
  have hsize : utf8 ",\"size\":" = nextField "size" := rfl
  have hclose : utf8 "\x7d" = [0x7D] := rfl
  unfold writeMember memberTree
  simp only [hpath, hsha, hsize, hclose, openField, nextField, text, textMembers, ← text_nat,
    List.append_assoc, List.cons_append, List.nil_append]

def registriesTree : Json :=
  .obj [("statements", .obj [("doc", .str "formal-semantics-core.md"), ("rev", .str "1")]),
    ("certifiers", .obj [("doc", .str "verification-trust.md"), ("rev", .str "1")])]

def bodyMembers (index : CertIndex) : List (String × Json) :=
  [("image", .obj [("name", .str index.imageName), ("fingerprint", .str index.imageFingerprint)]),
    ("semantics", .str index.semantics), ("stmt", .str index.stmt),
    ("registries", registriesTree), ("policy", .str index.policy),
    ("modules", .arr (index.modules.map moduleTree)),
    ("certifiers", .arr (index.certifiers.map certifierTree)),
    ("members", .arr (index.members.map memberTree))]

def preDigestTree (index : CertIndex) : Json :=
  .obj (("schema", .str index.schema) :: bodyMembers index)

def indexTree (index : CertIndex) : Json :=
  .obj (("schema", .str index.schema) ::
    (bodyMembers index ++ [("package_digest", orNull index.packageDigest)]))

theorem textMembers_append (ms ms' : List (String × Json)) :
    textMembers (ms ++ ms') = textMembers ms ++ textMembers ms' := by
  rw [textMembers_eq, textMembers_eq, textMembers_eq, List.flatMap_append]

theorem write_body (index : CertIndex) :
    writeHeader index ++ writeModules index ++ writeCertifiers index ++ writeMembers index =
      openField "schema" ++ jstr index.schema ++ textMembers (bodyMembers index) := by
  have hschema : utf8 "\x7b\"schema\":" = openField "schema" := rfl
  have himage : utf8 ",\"image\":\x7b\"name\":" = nextField "image" ++ openField "name" := rfl
  have hfingerprint : utf8 ",\"fingerprint\":" = nextField "fingerprint" := rfl
  have hsemantics : utf8 "\x7d,\"semantics\":" = 0x7D :: nextField "semantics" := rfl
  have hstmt : utf8 ",\"stmt\":" = nextField "stmt" := rfl
  have hregistries :
      utf8 ",\"registries\":\x7b\"statements\":\x7b\"doc\":\"formal-semantics-core.md\",\"rev\":\"1\"\x7d," ++
      utf8 "\"certifiers\":\x7b\"doc\":\"verification-trust.md\",\"rev\":\"1\"\x7d\x7d,\"policy\":" =
      nextField "registries" ++ text registriesTree ++ nextField "policy" := by decide
  have hmodules : utf8 ",\"modules\":[" = nextField "modules" ++ [0x5B] := rfl
  have hcertifiers : utf8 ",\"certifiers\":[" = nextField "certifiers" ++ [0x5B] := rfl
  have hmembers : utf8 ",\"members\":[" = nextField "members" ++ [0x5B] := rfl
  have hclose : utf8 "]" = [0x5D] := rfl
  have hheader : writeHeader index = utf8 "\x7b\"schema\":" ++ jstr index.schema ++
      utf8 ",\"image\":\x7b\"name\":" ++ jstr index.imageName ++
      utf8 ",\"fingerprint\":" ++ jstr index.imageFingerprint ++
      utf8 "\x7d,\"semantics\":" ++ jstr index.semantics ++
      utf8 ",\"stmt\":" ++ jstr index.stmt ++
      (nextField "registries" ++ text registriesTree ++ nextField "policy") ++
      jstr index.policy := by
    rw [← hregistries]
    unfold writeHeader
    simp only [List.append_assoc]
  rw [hheader]
  unfold writeModules writeCertifiers writeMembers bodyMembers
  simp only [hschema, himage, hfingerprint, hsemantics, hstmt, hmodules, hcertifiers, hmembers,
    hclose, textMembers, text, text_arr writeModule_eq, text_arr writeCertifier_eq,
    text_arr writeMember_eq, openField, nextField, List.append_assoc, List.cons_append,
    List.nil_append, List.append_nil]

theorem canonicalPreDigest_eq (index : CertIndex) :
    canonicalPreDigest index = text (preDigestTree index) := by
  have hclose : utf8 "\x7d" = [0x7D] := rfl
  unfold canonicalPreDigest preDigestTree
  rw [write_body, hclose]
  simp only [openField, text, List.append_assoc, List.cons_append, List.nil_append]

theorem canonical_eq (index : CertIndex) : canonical index = text (indexTree index) := by
  have hdigest : utf8 ",\"package_digest\":" = nextField "package_digest" := rfl
  have hclose : utf8 "\x7d" = [0x7D] := rfl
  unfold canonical indexTree
  rw [write_body, hdigest, hclose]
  simp only [openField, nextField, text, textMembers, textMembers_append, text_orNull,
    List.append_assoc, List.cons_append, List.nil_append, List.append_nil]

end Cert

end Tyu

import Tyu.Proof.LeanPackage

/-! # What the checks cover -/

namespace Tyu.LeanPackage

open Lib Lib.Json Obl

variable {sha : Digest} {i : Inputs} {p q : Package}

def Vendored : Place → Prop
  | .top path => path ∈ vendoredPortFiles
  | .gen _ => False

/-- The other files that decide the verdicts: those of the package's root, and the
statement modules of the package `q`. -/
def Uncompared (q : Package) : Place → Prop
  | .top path => path ∈ ["lean-toolchain", "lakefile.toml", "Gen.lean", "Harvest.lean"]
  | .gen name => (stemOf "lean" name).isSome ∧ (q.genFile name).isSome

def Decides (q : Package) (place : Place) : Prop := Vendored place ∨ Uncompared q place

/-- What generation from the current inputs writes, whatever is there before. -/
def regenerated (i : Inputs) (p : Package) : Except GenError Package := do
  let fingerprint ← i.fingerprint
  i.regenerate fingerprint p

def TamperEvident (sha : Digest) (i : Inputs) (p : Package) : Prop :=
  ∀ p' statements, gate sha i p = .ok (p', statements) →
    ∀ q, regenerated i p = .ok q → ∀ place, Decides q place → p'.read place = q.read place

def TakenOver (i : Inputs) (p : Package) : Prop :=
  ∃ fingerprint, i.fingerprint = .ok fingerprint ∧ Inputs.recorded fingerprint p = true

def Unsuspicious (sha : Digest) (i : Inputs) (p : Package) : Prop :=
  verifyVendoredFiles i p = .ok () ∧ ∃ statements, verifyGenDigests sha i p = .ok statements

/-! ## Vendored files -/

theorem vendored_of_verified (h : verifyVendoredFiles i p = .ok ()) {path : String}
    (hpath : path ∈ vendoredPortFiles) : p.files path = i.port path := by
  have hcheck := forM_eq_ok.1 h path hpath
  split at hcheck
  · exact absurd hcheck (by simp)
  · exact absurd hcheck (by simp)
  · rename_i port pkg hport hpkg
    split at hcheck
    · rename_i hsame
      rw [hpkg, hport, hsame]
    · exact absurd hcheck (by simp)

theorem portFile_eq_ok {path : String} {bytes : Bytes} :
    i.portFile path = .ok bytes ↔ i.port path = some bytes := by
  unfold Inputs.portFile
  cases i.port path <;> simp

theorem vendor_spec {paths : List String} (h : paths.foldlM
      (fun p path => do
        let bytes ← i.portFile path
        pure (p.write path bytes)) p = .ok q) :
    ∀ path, q.files path = if path ∈ paths then i.port path else p.files path := by
  induction paths generalizing p with
  | nil =>
    obtain rfl := foldlM_nil_eq_ok.1 h
    intro path
    simp
  | cons x xs ih =>
    obtain ⟨m, hstep, hrest⟩ := foldlM_cons_eq_ok.1 h
    obtain ⟨bytes, hbytes, hm⟩ := bind_eq_ok.1 hstep
    obtain rfl := pure_eq_ok.1 hm
    intro path
    rw [ih hrest path]
    by_cases hxs : path ∈ xs
    · rw [if_pos hxs, if_pos (List.mem_cons_of_mem _ hxs)]
    · rw [if_neg hxs]
      by_cases heq : path = x
      · subst heq
        rw [if_pos List.mem_cons_self, portFile_eq_ok.1 hbytes]
        simp [Package.write]
      · rw [if_neg (by simp [heq, hxs])]
        simp [Package.write, Function.update_of_ne heq]

theorem vendor_total (h : ∀ path, (i.port path).isSome) (p : Package) :
    ∃ q, i.vendorPortLib p = .ok q ∧ q.gen = p.gen := by
  unfold Inputs.vendorPortLib
  generalize vendoredPortFiles = paths
  induction paths generalizing p with
  | nil => exact ⟨p, rfl, rfl⟩
  | cons x xs ih =>
    obtain ⟨bytes, hbytes⟩ := Option.isSome_iff_exists.1 (h x)
    obtain ⟨q, hq, hgen⟩ := ih (p.write x bytes)
    exact ⟨q, foldlM_cons_eq_ok.2
      ⟨_, bind_eq_ok.2 ⟨bytes, portFile_eq_ok.2 hbytes, rfl⟩, hq⟩, hgen⟩

theorem fingerprint_total (h : ∀ path, (i.port path).isSome) :
    ∃ fingerprint, i.fingerprint = .ok fingerprint := by
  have hfile : ∀ path, ∃ bytes, i.portFile path = .ok bytes := fun path => by
    obtain ⟨bytes, hbytes⟩ := Option.isSome_iff_exists.1 (h path)
    exact ⟨bytes, portFile_eq_ok.2 hbytes⟩
  have hvendored : ∀ paths : List String, ∃ items, paths.mapM (fun path => do
      let bytes ← i.portFile path
      pure ("port:" ++ path, fnv1a64 bytes)) = .ok items := by
    intro paths
    induction paths with
    | nil => exact ⟨[], rfl⟩
    | cons x xs ih =>
      obtain ⟨bytes, hbytes⟩ := hfile x
      obtain ⟨items, hitems⟩ := ih
      exact ⟨_, mapM_cons_eq_ok.2 ⟨_, items, bind_eq_ok.2 ⟨bytes, hbytes, rfl⟩, hitems, rfl⟩⟩
  obtain ⟨items, hitems⟩ := hvendored vendoredPortFiles
  obtain ⟨pin, hpin⟩ := hfile "lean-toolchain"
  exact ⟨_, bind_eq_ok.2 ⟨_, bind_eq_ok.2 ⟨items, hitems, bind_eq_ok.2 ⟨pin, hpin, rfl⟩⟩, rfl⟩⟩

/-- The first file that the renderer writes comes first in `Gen`, where it is a statement
module that is expected. -/
theorem rendered_first {old rest : Files} {name m : String} {bytes : Bytes}
    {modules : List String}
    (hrender : i.render (i.artifacts.map Artifact.bytes) (i.refinements.map fun _ => i.document) =
      some ((name, bytes) :: rest))
    (hmodules : i.expectedModules = .ok modules) (hstem : stemOf "lean" name = some m)
    (hm : modules.contains m = true) :
    ∃ gen, i.renderGenFiles old = .ok ((name, bytes) :: gen) := by
  simp only [Inputs.renderGenFiles, hrender, hmodules, bind, Except.bind, pure, Except.pure]
  rw [List.cons_append, List.filter_cons_of_pos (by simp only [hstem, hm])]
  exact ⟨_, rfl⟩

theorem vendored_of_regenerated {fingerprint : UInt64} (h : i.regenerate fingerprint p = .ok q)
    {path : String} (hpath : path ∈ vendoredPortFiles) : q.files path = i.port path := by
  obtain ⟨pin, -, h⟩ := bind_eq_ok.1 h
  obtain ⟨v, hv, h⟩ := bind_eq_ok.1 h
  obtain ⟨gen, -, h⟩ := bind_eq_ok.1 h
  obtain rfl := pure_eq_ok.1 h
  have hcopied := vendor_spec hv path
  rw [if_pos hpath] at hcopied
  have hothers : ∀ other ∈ ["refinements.json", "lakefile.toml", "Gen.lean", "Harvest.lean",
      ".tyu-gen.json"], other ∉ vendoredPortFiles := by decide
  have hne : ∀ other ∈ ["refinements.json", "lakefile.toml", "Gen.lean", "Harvest.lean",
      ".tyu-gen.json"], path ≠ other := by
    rintro other hother rfl
    exact hothers _ hother hpath
  simp only [Package.write]
  rw [Function.update_of_ne (hne _ (by simp)), Function.update_of_ne (hne _ (by simp)),
    Function.update_of_ne (hne _ (by simp)), Function.update_of_ne (hne _ (by simp)),
    Function.update_of_ne (hne _ (by simp))]
  exact hcopied

theorem gate_eq_ok {statements : List ModuleStatements} :
    gate sha i p = .ok (q, statements) ↔
      i.generatePackage p = .ok q ∧ verifyVendoredFiles i q = .ok () ∧
        verifyGenDigests sha i q = .ok statements := by
  unfold gate
  cases hgen : i.generatePackage p with
  | error e => simp [bind, Except.bind]
  | ok g =>
    rw [bind_eq_ok]
    constructor
    · rintro ⟨g', hg', h⟩
      obtain rfl := Except.ok.inj hg'
      obtain ⟨⟨⟩, hv, h⟩ := bind_eq_ok.1 h
      obtain ⟨s, hs, h⟩ := bind_eq_ok.1 h
      obtain ⟨rfl, rfl⟩ := Prod.mk.inj (pure_eq_ok.1 h)
      exact ⟨rfl, hv, hs⟩
    · rintro ⟨hq, hv, hs⟩
      obtain rfl := Except.ok.inj hq
      refine ⟨g, rfl, bind_eq_ok.2 ⟨⟨⟩, hv, bind_eq_ok.2 ⟨statements, hs, rfl⟩⟩⟩

/-- The package that is elaborated is the one that was there, where that is taken over, and
one as generated everywhere else. -/
theorem generatePackage_cases (h : i.generatePackage p = .ok q) :
    (TakenOver i p ∧ q = p) ∨ (¬TakenOver i p ∧ regenerated i p = .ok q) := by
  obtain ⟨fingerprint, hf, h⟩ := bind_eq_ok.1 h
  by_cases hrec : Inputs.recorded fingerprint p = true
  · rw [if_pos hrec] at h
    exact .inl ⟨⟨fingerprint, hf, hrec⟩, (pure_eq_ok.1 h).symm⟩
  · rw [if_neg hrec] at h
    refine .inr ⟨?_, bind_eq_ok.2 ⟨fingerprint, hf, h⟩⟩
    rintro ⟨fingerprint', hf', hrec'⟩
    obtain rfl := Except.ok.inj (hf.symm.trans hf')
    exact hrec hrec'

theorem generatePackage_takenOver (h : TakenOver i p) : i.generatePackage p = .ok p := by
  obtain ⟨fingerprint, hf, hrec⟩ := h
  refine bind_eq_ok.2 ⟨fingerprint, hf, ?_⟩
  rw [if_pos hrec]
  rfl

/-- The gate is tamper evident for a package exactly when this is generated anew, or does
not pass the two checks, or has the lake file, the toolchain file, the aggregator, the
harvest entry and every statement module as they are generated. -/
theorem tamperEvident_iff (sha : Digest) (i : Inputs) (p : Package) :
    TamperEvident sha i p ↔
      (TakenOver i p → Unsuspicious sha i p →
        ∀ q, regenerated i p = .ok q → ∀ place, Uncompared q place → p.read place = q.read place) := by
  constructor
  · rintro h htaken ⟨hv, statements, hs⟩ q hq place hplace
    exact h p statements (gate_eq_ok.2 ⟨generatePackage_takenOver htaken, hv, hs⟩) q hq place
      (.inr hplace)
  · intro h p' statements hgate q hq place hplace
    obtain ⟨hgen, hv, hs⟩ := gate_eq_ok.1 hgate
    obtain ⟨htaken, rfl⟩ | ⟨-, hp'⟩ := generatePackage_cases hgen
    · obtain hvendored | huncompared := hplace
      · cases place with
        | gen name => exact absurd hvendored id
        | top path =>
          obtain ⟨fingerprint, -, hreg⟩ := bind_eq_ok.1 hq
          show p'.files path = q.files path
          rw [vendored_of_verified hv hvendored, vendored_of_regenerated hreg hvendored]
      · exact h htaken ⟨hv, statements, hs⟩ q hq place huncompared
    · rw [Except.ok.inj (hp'.symm.trans hq)]

/-! ## A forged statement -/

/-- The increment of the module `Bank` stays in range. -/
def bankObligation : Obligation :=
  ⟨"Bank::bounded_inc::subtype-range::0", "", .subtypeRange, ⟨"bounded_inc", 0⟩,
    .inRange (.var "in.0") 0 10⟩

def bankSet : OblSet := ⟨"Bank", "x86_64", "unmodeled", "unmodeled", [], [bankObligation]⟩

/-- The SHA-256 digests of the two texts that its statement is identified by. -/
def bankDigest : Digest := fun text =>
  if text = "" then "e3b0c44298fc1c149afbf4c8996fb92427ae41e4649b934ca495991b7852b855"
  else "aa45210f29dcfb0c5155eb305dce1ed9618eccd88f6556b78bfae319aa6a9270"

def bankMetadata : String :=
  "\x7b\"schema\":\"tyu.gen/1\",\"statements\":[" ++
    "\x7b\"id\":\"Bank::bounded_inc::subtype-range::0\",\"omitted\":false," ++
    "\"statement_hash\":\"aa45210f29dcfb0c5155eb305dce1ed9618eccd88f6556b78bfae319aa6a9270\"\x7d]\x7d"

def bankModule (body : String) : String :=
  "/-- statement_hash: aa45210f29dcfb0c5155eb305dce1ed9618eccd88f6556b78bfae319aa6a9270 -/\n" ++
    "def stmt_0 : Prop := " ++ body ++ "\n"

def bankInputs : Inputs where
  root := "/work/.tyu-verify/lean"
  proofsPath := "/work/proofs"
  port _ := some []
  artifacts := [⟨"Bank.obl.json", [], some bankSet⟩]
  refinements := none
  serialized := []
  document := []
  proofs := []
  candidates := []
  render _ _ := some [("Bank.lean", utf8 (bankModule "BoundedInc")),
    ("Bank.gen.json", utf8 bankMetadata)]

def forgedPackage (fingerprint : UInt64) : Package where
  files path :=
    if path = ".tyu-gen.json" then some (utf8 (Inputs.stateText fingerprint)) else some []
  gen := some [("Bank.lean", utf8 (bankModule "True")), ("Bank.gen.json", utf8 bankMetadata)]

theorem forged_takenOver {fingerprint : UInt64} (h : bankInputs.fingerprint = .ok fingerprint) :
    TakenOver bankInputs (forgedPackage fingerprint) := by
  refine ⟨fingerprint, h, ?_⟩
  simp [Inputs.recorded, forgedPackage, Json.fromUTF8_utf8]

theorem forged_verified (fingerprint : UInt64) :
    verifyVendoredFiles bankInputs (forgedPackage fingerprint) = .ok () := by
  refine forM_eq_ok.2 fun path hpath => ?_
  have hstate : path ≠ ".tyu-gen.json" := by
    rintro rfl
    exact absurd hpath (by decide)
  simp [bankInputs, forgedPackage, hstate]

theorem verifyModule_eq {a : Artifact} {set : OblSet} {lean metadata : Bytes} {text : String}
    {rows : List GenStatementRow} (hset : a.set = some set)
    (hlean : p.genFile (set.module ++ ".lean") = some lean)
    (hmetadata : p.genFile (set.module ++ ".gen.json") = some metadata)
    (htext : String.fromUTF8? lean.toByteArray = some text)
    (hrows : parseGenMeta metadata = some rows) :
    verifyModule sha i p a = set.obligations.foldlM
      (verifyStatement sha set (i.refinements.getD []) rows (extractStatementHashes text.toList))
      ⟨set.module, 0, 0⟩ := by
  simp only [verifyModule, hset, hlean, hmetadata, htext, hrows]

theorem parseGenMeta_utf8 (text : String) : parseGenMeta (utf8 text) =
    if (jsonStringField text.toList "schema").getD "" = "tyu.gen/1" then
      match after (quoted "statements") text.toList with
      | none => some []
      | some rest =>
        match after ['['] rest with
        | none => some []
        | some rows =>
          some ((jsonObjectSpans rows).map fun row =>
            { id := (jsonStringField row "id").getD ""
              omitted := (jsonBoolField row "omitted").getD false
              statementHash := (jsonStringField row "statement_hash").getD "" })
    else none := by
  unfold parseGenMeta
  rw [Json.fromUTF8_utf8]
  rfl

theorem bankMetadata_rows : parseGenMeta (utf8 bankMetadata) = some
    [⟨"Bank::bounded_inc::subtype-range::0", false,
      "aa45210f29dcfb0c5155eb305dce1ed9618eccd88f6556b78bfae319aa6a9270"⟩] := by
  have hchars : bankMetadata.toList = _ :=
    Json.toList_of_append rfl
      (Json.toList_of_append rfl (Json.toList_of_ofList rfl) (Json.toList_of_ofList rfl))
      (Json.toList_of_ofList rfl)
  rw [parseGenMeta_utf8, hchars]
  decide +kernel

theorem bankModule_carries : extractStatementHashes (bankModule "True").toList =
    ["aa45210f29dcfb0c5155eb305dce1ed9618eccd88f6556b78bfae319aa6a9270"] := by
  have hchars : (bankModule "True").toList = _ :=
    Json.toList_of_append rfl
      (Json.toList_of_append rfl
        (Json.toList_of_append rfl (Json.toList_of_ofList rfl) (Json.toList_of_ofList rfl))
        (Json.toList_of_ofList rfl))
      (Json.toList_of_ofList rfl)
  rw [hchars]
  decide

theorem bank_expectedHash : expectedHash bankDigest bankSet [] bankObligation =
    "aa45210f29dcfb0c5155eb305dce1ed9618eccd88f6556b78bfae319aa6a9270" := by
  unfold expectedHash StatementContext.statementHash bankDigest
  rw [if_neg]
  intro hempty
  exact absurd (String.append_eq_empty_iff.1 hempty).2 (by decide)

theorem forged_annotated (fingerprint : UInt64) :
    verifyGenDigests bankDigest bankInputs (forgedPackage fingerprint) =
      .ok [⟨"Bank", 1, 0⟩] := by
  have hstatement : verifyStatement bankDigest bankSet []
      [⟨"Bank::bounded_inc::subtype-range::0", false,
        "aa45210f29dcfb0c5155eb305dce1ed9618eccd88f6556b78bfae319aa6a9270"⟩]
      ["aa45210f29dcfb0c5155eb305dce1ed9618eccd88f6556b78bfae319aa6a9270"] ⟨"Bank", 0, 0⟩
      bankObligation = .ok ⟨"Bank", 1, 0⟩ := by
    simp only [verifyStatement, bank_expectedHash]
    rw [List.find?_cons_of_pos (by simp [bankObligation])]
    simp
  have hmodule : verifyModule bankDigest bankInputs (forgedPackage fingerprint)
      ⟨"Bank.obl.json", [], some bankSet⟩ = .ok ⟨"Bank", 1, 0⟩ := by
    have hset : (⟨"Bank.obl.json", [], some bankSet⟩ : Artifact).set = some bankSet := rfl
    have hlean : (forgedPackage fingerprint).genFile (bankSet.module ++ ".lean") =
        some (utf8 (bankModule "True")) := by
      simp [Package.genFile, forgedPackage, bankSet]
    have hjson : (forgedPackage fingerprint).genFile (bankSet.module ++ ".gen.json") =
        some (utf8 bankMetadata) := by
      simp [Package.genFile, forgedPackage, bankSet]
    rw [verifyModule_eq hset hlean hjson (Json.fromUTF8_utf8 _) bankMetadata_rows,
      bankModule_carries]
    exact foldlM_cons_eq_ok.2 ⟨_, hstatement, rfl⟩
  have hmodules : bankInputs.artifacts.mapM
      (verifyModule bankDigest bankInputs (forgedPackage fingerprint)) = .ok [⟨"Bank", 1, 0⟩] :=
    mapM_cons_eq_ok.2 ⟨_, [], hmodule, rfl, rfl⟩
  refine bind_eq_ok.2 ⟨_, hmodules, ?_⟩
  rw [List.mergeSort_singleton]
  rfl

theorem forged_passes {fingerprint : UInt64} (h : bankInputs.fingerprint = .ok fingerprint) :
    gate bankDigest bankInputs (forgedPackage fingerprint) =
      .ok (forgedPackage fingerprint, [⟨"Bank", 1, 0⟩]) :=
  gate_eq_ok.2 ⟨generatePackage_takenOver (forged_takenOver h), forged_verified fingerprint,
    forged_annotated fingerprint⟩

theorem bank_regenerated {fingerprint : UInt64} (h : bankInputs.fingerprint = .ok fingerprint) :
    ∃ q, regenerated bankInputs (forgedPackage fingerprint) = .ok q ∧
      q.read (.gen "Bank.lean") = some (utf8 (bankModule "BoundedInc")) := by
  obtain ⟨v, hv, hkept⟩ := vendor_total (i := bankInputs) (fun _ => rfl)
    ((forgedPackage fingerprint).write "lean-toolchain" [])
  obtain ⟨gen, hgen⟩ : ∃ gen, bankInputs.renderGenFiles (v.gen.getD []) =
      .ok (("Bank.lean", utf8 (bankModule "BoundedInc")) :: gen) :=
    rendered_first rfl (show bankInputs.expectedModules = .ok ["Bank"] from rfl)
      (show stemOf "lean" "Bank.lean" = some "Bank" by decide) rfl
  refine ⟨_, bind_eq_ok.2 ⟨fingerprint, h, bind_eq_ok.2 ⟨[], rfl, bind_eq_ok.2 ⟨v, hv,
    bind_eq_ok.2 ⟨_, hgen, rfl⟩⟩⟩⟩, ?_⟩
  simp [Package.read, Package.genFile, Package.write]

theorem forged_body (fingerprint : UInt64) :
    (forgedPackage fingerprint).read (.gen "Bank.lean") = some (utf8 (bankModule "True")) := by
  simp [Package.read, Package.genFile, forgedPackage]

/-- The annotation stays and the body says something else; the gate lets it pass. -/
theorem forged_statement_passes :
    ¬∀ (sha : Digest) (i : Inputs) (p : Package), TamperEvident sha i p := by
  intro hclaim
  obtain ⟨fingerprint, hf⟩ := fingerprint_total (i := bankInputs) fun _ => rfl
  obtain ⟨q, hq, hgenerated⟩ := bank_regenerated hf
  have hdecides : Decides q (.gen "Bank.lean") := by
    refine .inr ⟨by decide, ?_⟩
    show (q.read (.gen "Bank.lean")).isSome
    rw [hgenerated]
    rfl
  have hsame := hclaim bankDigest bankInputs _ _ _ (forged_passes hf) q hq _ hdecides
  rw [forged_body, hgenerated, Option.some_inj, utf8_inj] at hsame
  exact absurd hsame (by decide)

end Tyu.LeanPackage

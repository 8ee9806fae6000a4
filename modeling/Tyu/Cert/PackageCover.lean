import Tyu.Cert.IndexParsed
import Tyu.Cert.VerifyPackage
import Tyu.Verifier.VerdictFileRoundTrip

/-!
# What the check of a package covers

The check reads the index, its signature, the members and the verdicts, and nothing else.
-/

namespace Tyu

open Lib Lib.Json

namespace Cert

section

variable {sha : Bytes → String} {hmac : Bytes → Bytes → Bytes}

/-! ## What an accepted package has passed -/

structure Accepted (sha : Bytes → String) (hmac : Bytes → Bytes → Bytes) (image : ImageArg)
    (key : Bytes) (pkg : Package) (index : CertIndex) : Prop where
  read : readIndex pkg = .ok index
  digest : index.packageDigest = some (sha (canonicalPreDigest index))
  signature : ∃ digest, index.packageDigest = some digest ∧
    checkSignature hmac pkg digest key = .ok ()
  image : ∃ bytes bound manifests, imageBytes image = .ok bytes ∧
    bindImage sha index bytes = .ok bound ∧
    index.modules.foldlM (bindManifest sha (bytes.getD [])) 0 = .ok manifests
  members : ∀ m ∈ index.members, checkMember sha pkg m = .ok ()
  proofs : ∀ m ∈ index.modules, checkProofs pkg m = .ok ()

theorem checkDigest_eq_ok {index : CertIndex} {digest : String} :
    checkDigest sha index = .ok digest ↔
      index.packageDigest = some digest ∧ sha (canonicalPreDigest index) = digest := by
  unfold checkDigest
  simp only [bind_eq_ok, expect_eq_ok, require_eq_ok, pure_eq_ok]
  constructor
  · rintro ⟨d, hd, _, hsha, rfl⟩
    exact ⟨hd, hsha⟩
  · rintro ⟨hd, hsha⟩
    exact ⟨digest, hd, ⟨⟩, hsha, rfl⟩

theorem verifyPackageSigned_eq_ok {pkg : Package} {image : ImageArg} {key : Bytes} :
    (∃ lines, verifyPackageSigned sha hmac pkg image (some key) = .ok lines) ↔
      ∃ index, Accepted sha hmac image key pkg index := by
  unfold verifyPackageSigned verifyPackageInner signatureLines
  simp only [bind_eq_ok, pure_eq_ok, checkDigest_eq_ok, forM_eq_ok, Option.getD_none]
  constructor
  · rintro ⟨_, index, hindex, digest, ⟨hdigest, hsha⟩, _, ⟨_, hsig, _⟩, bytes, hbytes, bound, hbound,
      manifests, hmanifests, _, hmembers, _, hproofs, _⟩
    exact ⟨index, hindex, by rw [hdigest, hsha], ⟨digest, hdigest, hsig⟩,
      ⟨bytes, bound, manifests, hbytes, hbound, hmanifests⟩, hmembers, hproofs⟩
  · rintro ⟨index, h⟩
    obtain ⟨digest, hdigest, hsig⟩ := h.signature
    obtain ⟨bytes, bound, manifests, hbytes, hbound, hmanifests⟩ := h.image
    have hsha : sha (canonicalPreDigest index) = digest :=
      Option.some.inj (h.digest.symm.trans hdigest)
    exact ⟨_, index, h.read, digest, ⟨hdigest, hsha⟩, _, ⟨(), hsig, rfl⟩, bytes, hbytes, bound,
      hbound, manifests, hmanifests, ⟨⟩, h.members, ⟨⟩, h.proofs, rfl⟩

theorem readIndex_eq_ok {pkg : Package} {index : CertIndex} :
    readIndex pkg = .ok index ↔
      ∃ bytes, pkg.read "cert.json" = some bytes ∧ parseIndex bytes = .ok index := by
  unfold readIndex
  simp only [bind_eq_ok, expect_eq_ok]
  constructor
  · rintro ⟨bytes, hbytes, hparse⟩
    refine ⟨bytes, hbytes, ?_⟩
    cases hindex : parseIndex bytes with
    | ok index' =>
      rw [hindex] at hparse
      rw [pure_eq_ok.mp hparse]
    | error e =>
      rw [hindex] at hparse
      cases hparse
  · rintro ⟨bytes, hbytes, hparse⟩
    refine ⟨bytes, hbytes, ?_⟩
    rw [hparse]
    rfl

theorem checkMember_eq_ok {pkg : Package} {m : Member} :
    checkMember sha pkg m = .ok () ↔
      ∃ bytes, pkg.read m.path = some bytes ∧ bytes.length.toUInt64 = m.size ∧
        sha bytes = m.sha256 := by
  unfold checkMember
  simp only [bind_eq_ok, expect_eq_ok, require_eq_ok]

theorem checkSignature_eq_ok {pkg : Package} {digest : String} {key : Bytes} :
    checkSignature hmac pkg digest key = .ok () ↔
      pkg.read "package.sig" = some (SCHEME_HMAC_SHA256 :: hmac key (utf8 digest)) ∧
        (hmac key (utf8 digest)).length = 32 := by
  unfold checkSignature
  simp only [bind_eq_ok, expect_eq_ok, require_eq_ok]
  constructor
  · rintro ⟨sig, hread, _, ⟨hhead, hlen⟩, htail⟩
    cases sig with
    | nil => cases hhead
    | cons b tail =>
      obtain rfl := Option.some.inj hhead
      obtain rfl : tail = hmac key (utf8 digest) := htail
      exact ⟨hread, Nat.succ.inj hlen⟩
  · rintro ⟨hread, hlen⟩
    exact ⟨_, hread, ⟨⟩, ⟨rfl, by rw [List.length_cons, hlen]⟩, rfl⟩

/-- The certificates among a module's verdicts, in the file that the package has now. -/
def Certificate (pkg : Package) (module : String) (idHash : String) : Prop :=
  ∃ bytes verdicts, pkg.read (verdictsPath module) = some bytes ∧
    VerdictFile.readVerdicts bytes = .ok verdicts ∧
    ∃ r ∈ verdicts.records, needsProof r = true ∧ r.idHash = idHash

theorem checkProofs_eq_ok {pkg : Package} {m : CertModule} :
    checkProofs pkg m = .ok () ↔
      (∀ bytes, pkg.read (verdictsPath m.name) = some bytes →
        ∃ verdicts, VerdictFile.readVerdicts bytes = .ok verdicts) ∧
      ∀ idHash, Certificate pkg m.name idHash → (pkg.read (proofPath m.name idHash)).isSome := by
  unfold checkProofs Certificate
  cases hread : pkg.read (verdictsPath m.name) with
  | none => simp [pure, Except.pure]
  | some bytes =>
    dsimp only
    cases hdoc : VerdictFile.readVerdicts bytes with
    | error e =>
      constructor
      · intro h
        cases h
      · intro h
        obtain ⟨verdicts, hverdicts⟩ := h.1 bytes rfl
        rw [hdoc] at hverdicts
        cases hverdicts
    | ok verdicts =>
      dsimp only
      rw [forM_eq_ok]
      constructor
      · intro hall
        refine ⟨fun bytes' hbytes => ⟨verdicts, by rw [← Option.some.inj hbytes, hdoc]⟩, ?_⟩
        rintro idHash ⟨bytes', verdicts', hbytes, hverdicts, r, hr, hneeds, rfl⟩
        rw [← Option.some.inj hbytes, hdoc] at hverdicts
        obtain rfl := Except.ok.inj hverdicts
        have hproof := hall r hr
        unfold checkProof at hproof
        rw [if_pos hneeds] at hproof
        exact require_eq_ok.mp hproof
      · intro h r hr
        unfold checkProof
        by_cases hneeds : needsProof r = true
        · rw [if_pos hneeds]
          exact require_eq_ok.mpr (h.2 r.idHash ⟨bytes, verdicts, rfl, hdoc, r, hr, hneeds, rfl⟩)
        · rw [if_neg hneeds]
          rfl

theorem accepted_of_verify {pkg : Package} {image : ImageArg} {key : Bytes} {lines : List String}
    {index : CertIndex} (h : verifyPackageSigned sha hmac pkg image (some key) = .ok lines)
    (hindex : readIndex pkg = .ok index) : Accepted sha hmac image key pkg index := by
  obtain ⟨index', haccepted⟩ := verifyPackageSigned_eq_ok.mp ⟨lines, h⟩
  have hread := haccepted.read
  rw [hindex] at hread
  rw [Except.ok.inj hread]
  exact haccepted

/-- Every signature of the key that verifies in the directory was issued for the digest of
`index`: nobody else has the key, and it has signed nothing else. -/
def Unforged (hmac : Bytes → Bytes → Bytes) (key : Bytes) (index : CertIndex) (pkg : Package) :
    Prop :=
  ∀ digest, checkSignature hmac pkg digest key = .ok () → index.packageDigest = some digest

/-- The files a package is about: each module's obligations, verdicts and proofs, and the
members. -/
inductive Covered (pkg : Package) (index : CertIndex) : String → Prop where
  | obligations {m : CertModule} : m ∈ index.modules → Covered pkg index (oblPath m.name)
  | verdicts {m : CertModule} : m ∈ index.modules → Covered pkg index (verdictsPath m.name)
  | proof {m : CertModule} {idHash : String} : m ∈ index.modules →
      Certificate pkg m.name idHash → Covered pkg index (proofPath m.name idHash)
  | member {m : Member} : m ∈ index.members → Covered pkg index m.path

/-- What a package claims of its files, and that no other package passes for it. -/
structure Covers (sha : Bytes → String) (hmac : Bytes → Bytes → Bytes) (key : Bytes)
    (pkg : Package) (index : CertIndex) : Prop where
  obligations : ∀ m ∈ index.modules, ∃ bytes,
    pkg.read (oblPath m.name) = some bytes ∧ m.oblDigest = sha bytes
  verdicts : ∀ m ∈ index.modules, ∃ bytes,
    pkg.read (verdictsPath m.name) = some bytes ∧ m.verdictsDigest = sha bytes
  proofs : ∀ m ∈ index.modules, ∀ idHash, Certificate pkg m.name idHash →
    ∃ member ∈ index.members, member.path = proofPath m.name idHash ∧
      ∃ bytes, pkg.read (proofPath m.name idHash) = some bytes ∧ member.sha256 = sha bytes
  inside : ∀ member ∈ index.members, staysInside member.path = true
  unaltered : ∀ pkg' image' lines' index',
    verifyPackageSigned sha hmac pkg' image' (some key) = .ok lines' →
    readIndex pkg' = .ok index' → Unforged hmac key index pkg' →
    index' = index ∧ ∀ path, Covered pkg index path → pkg'.read path = pkg.read path

/-- The index lists what its modules are about, under the hashes of its entries. -/
structure Listed (pkg : Package) (index : CertIndex) : Prop where
  obligations : ∀ m ∈ index.modules, ∃ member ∈ index.members,
    member.path = oblPath m.name ∧ member.sha256 = m.oblDigest
  verdicts : ∀ m ∈ index.modules, ∃ member ∈ index.members,
    member.path = verdictsPath m.name ∧ member.sha256 = m.verdictsDigest
  proofs : ∀ m ∈ index.modules, ∀ idHash, Certificate pkg m.name idHash →
    ∃ member ∈ index.members, member.path = proofPath m.name idHash
  inside : ∀ member ∈ index.members, staysInside member.path = true

section

variable {image : ImageArg} {key : Bytes} {pkg : Package} {index : CertIndex}

theorem Accepted.member_read (h : Accepted sha hmac image key pkg index) {m : Member}
    (hm : m ∈ index.members) : ∃ bytes, pkg.read m.path = some bytes ∧ m.sha256 = sha bytes := by
  obtain ⟨bytes, hread, -, hsha⟩ := checkMember_eq_ok.mp (h.members m hm)
  exact ⟨bytes, hread, hsha.symm⟩

theorem index_eq_of_unforged (hsha : Function.Injective sha)
    (h : Accepted sha hmac image key pkg index) {pkg' : Package} {image' : ImageArg}
    {index' : CertIndex} (h' : Accepted sha hmac image' key pkg' index')
    (hunforged : Unforged hmac key index pkg') : index' = index := by
  obtain ⟨digest, hdigest, hsig⟩ := h'.signature
  have hsigned := hunforged digest hsig
  have hhash : sha (canonicalPreDigest index') = sha (canonicalPreDigest index) := by
    have hnew := h'.digest
    have hold := h.digest
    rw [hdigest] at hnew
    rw [hsigned] at hold
    exact (Option.some.inj hnew).symm.trans (Option.some.inj hold)
  obtain ⟨_, _, hparse⟩ := readIndex_eq_ok.mp h.read
  obtain ⟨_, _, hparse'⟩ := readIndex_eq_ok.mp h'.read
  have hfree := digestFree_inj (readBack_of_parseIndex hparse') (readBack_of_parseIndex hparse)
    (hsha hhash)
  exact eq_of_digestFree hfree (hdigest.trans hsigned.symm)

theorem member_unaltered (hsha : Function.Injective sha)
    (h : Accepted sha hmac image key pkg index) {pkg' : Package} {image' : ImageArg}
    (h' : Accepted sha hmac image' key pkg' index) {m : Member} (hm : m ∈ index.members) :
    pkg'.read m.path = pkg.read m.path := by
  obtain ⟨bytes, hread, hhash⟩ := h.member_read hm
  obtain ⟨bytes', hread', hhash'⟩ := h'.member_read hm
  rw [hread, hread', hsha (hhash'.symm.trans hhash)]

theorem covers_of_listed (hsha : Function.Injective sha)
    (h : Accepted sha hmac image key pkg index) (hlisted : Listed pkg index) :
    Covers sha hmac key pkg index where
  obligations := by
    intro m hm
    obtain ⟨member, hmember, hpath, hdigest⟩ := hlisted.obligations m hm
    obtain ⟨bytes, hread, hhash⟩ := h.member_read hmember
    exact ⟨bytes, by rw [← hpath, hread], by rw [← hdigest, hhash]⟩
  verdicts := by
    intro m hm
    obtain ⟨member, hmember, hpath, hdigest⟩ := hlisted.verdicts m hm
    obtain ⟨bytes, hread, hhash⟩ := h.member_read hmember
    exact ⟨bytes, by rw [← hpath, hread], by rw [← hdigest, hhash]⟩
  proofs := by
    intro m hm idHash hcert
    obtain ⟨member, hmember, hpath⟩ := hlisted.proofs m hm idHash hcert
    obtain ⟨bytes, hread, hhash⟩ := h.member_read hmember
    exact ⟨member, hmember, hpath, bytes, by rw [← hpath, hread], hhash⟩
  inside := hlisted.inside
  unaltered := by
    intro pkg' image' lines' index' hverify hindex hunforged
    have h' := accepted_of_verify hverify hindex
    have heq := index_eq_of_unforged hsha h h' hunforged
    rw [heq] at h'
    refine ⟨heq, fun path hpath => ?_⟩
    cases hpath with
    | obligations hm =>
      obtain ⟨member, hmember, hpath, -⟩ := hlisted.obligations _ hm
      rw [← hpath]
      exact member_unaltered hsha h h' hmember
    | verdicts hm =>
      obtain ⟨member, hmember, hpath, -⟩ := hlisted.verdicts _ hm
      rw [← hpath]
      exact member_unaltered hsha h h' hmember
    | proof hm hcert =>
      obtain ⟨member, hmember, hpath⟩ := hlisted.proofs _ hm _ hcert
      rw [← hpath]
      exact member_unaltered hsha h h' hmember
    | member hmember => exact member_unaltered hsha h h' hmember

/-! ## Other files can be changed -/

def Package.put (pkg : Package) (path : String) (content : Option Bytes) : Package :=
  { pkg with read := fun p => if p = path then content else pkg.read p }

theorem put_self (pkg : Package) (path : String) (content : Option Bytes) :
    (pkg.put path content).read path = content := if_pos rfl

theorem put_of_ne (pkg : Package) {path p : String} (content : Option Bytes) (h : p ≠ path) :
    (pkg.put path content).read p = pkg.read p := if_neg h

theorem ne_of_start {p p' : String} (h : p.toList.take 2 ≠ p'.toList.take 2) : p ≠ p' :=
  fun heq => h (by rw [heq])

theorem oblPath_start (module : String) : (oblPath module).toList.take 2 = ['o', 'b'] := by
  simp [oblPath]

theorem verdictsPath_start (module : String) :
    (verdictsPath module).toList.take 2 = ['v', 'e'] := by
  simp [verdictsPath]

theorem proofPath_start (module idHash : String) :
    (proofPath module idHash).toList.take 2 = ['p', 'r'] := by
  simp [proofPath]

theorem accepted_put (h : Accepted sha hmac image key pkg index) {path : String}
    {content : Option Bytes} (hcert : path ≠ "cert.json") (hsig : path ≠ "package.sig")
    (hmember : ∀ m ∈ index.members, m.path ≠ path)
    (hproofs : ∀ m ∈ index.modules, checkProofs (pkg.put path content) m = .ok ()) :
    Accepted sha hmac image key (pkg.put path content) index where
  read := by
    obtain ⟨bytes, hread, hparse⟩ := readIndex_eq_ok.mp h.read
    exact readIndex_eq_ok.mpr ⟨bytes, by rw [put_of_ne pkg content hcert.symm, hread], hparse⟩
  digest := h.digest
  signature := by
    obtain ⟨digest, hdigest, hcheck⟩ := h.signature
    refine ⟨digest, hdigest, checkSignature_eq_ok.mpr ?_⟩
    rw [put_of_ne pkg content hsig.symm]
    exact checkSignature_eq_ok.mp hcheck
  image := h.image
  members := by
    intro m hm
    refine checkMember_eq_ok.mpr ?_
    rw [put_of_ne pkg content (hmember m hm)]
    exact checkMember_eq_ok.mp (h.members m hm)
  proofs := hproofs

theorem unforged_put (h : Unforged hmac key index pkg) {path : String} {content : Option Bytes}
    (hsig : path ≠ "package.sig") : Unforged hmac key index (pkg.put path content) := by
  intro digest hcheck
  refine h digest (checkSignature_eq_ok.mpr ?_)
  rw [← put_of_ne pkg content hsig.symm]
  exact checkSignature_eq_ok.mp hcheck

theorem unaltered_put (h : Accepted sha hmac image key pkg index)
    (hunforged : Unforged hmac key index pkg) (hcovers : Covers sha hmac key pkg index)
    {path : String} {content : Option Bytes} (hpath : Covered pkg index path)
    (hcert : path ≠ "cert.json") (hsig : path ≠ "package.sig")
    (hmember : ∀ m ∈ index.members, m.path ≠ path)
    (hproofs : ∀ m ∈ index.modules, checkProofs (pkg.put path content) m = .ok ()) :
    pkg.read path = content := by
  have hput := accepted_put h hcert hsig hmember hproofs
  obtain ⟨lines, hverify⟩ := verifyPackageSigned_eq_ok.mpr ⟨index, hput⟩
  have hsame := (hcovers.unaltered _ _ _ _ hverify hput.read (unforged_put hunforged hsig)).2
    path hpath
  rw [put_self] at hsame
  exact hsame.symm

theorem certificate_congr {pkg' : Package} {module idHash : String}
    (h : pkg'.read (verdictsPath module) = pkg.read (verdictsPath module)) :
    Certificate pkg' module idHash ↔ Certificate pkg module idHash := by
  unfold Certificate
  rw [h]

theorem checkProofs_of_agree {pkg' : Package} {m : CertModule} (h : checkProofs pkg m = .ok ())
    (hverdicts : pkg'.read (verdictsPath m.name) = pkg.read (verdictsPath m.name))
    (hproofs : ∀ idHash, (pkg.read (proofPath m.name idHash)).isSome →
      (pkg'.read (proofPath m.name idHash)).isSome) : checkProofs pkg' m = .ok () := by
  obtain ⟨hdoc, hfiles⟩ := checkProofs_eq_ok.mp h
  refine checkProofs_eq_ok.mpr ⟨?_, fun idHash hcert => ?_⟩
  · rw [hverdicts]
    exact hdoc
  · exact hproofs idHash (hfiles idHash ((certificate_congr hverdicts).mp hcert))

section Converse

variable (h : Accepted sha hmac image key pkg index) (hunforged : Unforged hmac key index pkg)
  (hcovers : Covers sha hmac key pkg index)

include h hunforged hcovers

theorem obligations_listed {m : CertModule} (hm : m ∈ index.modules) :
    ∃ member ∈ index.members, member.path = oblPath m.name := by
  by_contra hnone
  have hmember : ∀ member ∈ index.members, member.path ≠ oblPath m.name :=
    fun member hmember hpath => hnone ⟨member, hmember, hpath⟩
  have hcert : oblPath m.name ≠ "cert.json" := ne_of_start (by rw [oblPath_start]; decide)
  have hsig : oblPath m.name ≠ "package.sig" := ne_of_start (by rw [oblPath_start]; decide)
  have hproofs : ∀ m' ∈ index.modules,
      checkProofs (pkg.put (oblPath m.name) none) m' = .ok () := by
    intro m' hm'
    refine checkProofs_of_agree (h.proofs m' hm') (put_of_ne _ _ ?_) fun idHash hsome => ?_
    · exact ne_of_start (by rw [oblPath_start, verdictsPath_start]; decide)
    · rwa [put_of_ne _ _ (ne_of_start (by rw [oblPath_start, proofPath_start]; decide))]
  have hgone := unaltered_put h hunforged hcovers (.obligations hm) hcert hsig hmember hproofs
  obtain ⟨bytes, hread, -⟩ := hcovers.obligations m hm
  rw [hgone] at hread
  cases hread

theorem verdicts_listed {m : CertModule} (hm : m ∈ index.modules) :
    ∃ member ∈ index.members, member.path = verdictsPath m.name := by
  by_contra hnone
  have hmember : ∀ member ∈ index.members, member.path ≠ verdictsPath m.name :=
    fun member hmember hpath => hnone ⟨member, hmember, hpath⟩
  have hcert : verdictsPath m.name ≠ "cert.json" :=
    ne_of_start (by rw [verdictsPath_start]; decide)
  have hsig : verdictsPath m.name ≠ "package.sig" :=
    ne_of_start (by rw [verdictsPath_start]; decide)
  have hproofs : ∀ m' ∈ index.modules,
      checkProofs (pkg.put (verdictsPath m.name) none) m' = .ok () := by
    intro m' hm'
    by_cases hsame : verdictsPath m'.name = verdictsPath m.name
    · unfold checkProofs
      rw [hsame, put_self]
      rfl
    · refine checkProofs_of_agree (h.proofs m' hm') (put_of_ne _ _ hsame) fun idHash hsome => ?_
      rwa [put_of_ne _ _ (ne_of_start (by rw [verdictsPath_start, proofPath_start]; decide))]
  have hgone := unaltered_put h hunforged hcovers (.verdicts hm) hcert hsig hmember hproofs
  obtain ⟨bytes, hread, -⟩ := hcovers.verdicts m hm
  rw [hgone] at hread
  cases hread

theorem listed_of_covers : Listed pkg index where
  obligations := by
    intro m hm
    obtain ⟨member, hmember, hpath⟩ := obligations_listed h hunforged hcovers hm
    obtain ⟨bytes, hread, hdigest⟩ := hcovers.obligations m hm
    obtain ⟨bytes', hread', hhash⟩ := h.member_read hmember
    rw [hpath, hread] at hread'
    exact ⟨member, hmember, hpath, by rw [hhash, hdigest, Option.some.inj hread']⟩
  verdicts := by
    intro m hm
    obtain ⟨member, hmember, hpath⟩ := verdicts_listed h hunforged hcovers hm
    obtain ⟨bytes, hread, hdigest⟩ := hcovers.verdicts m hm
    obtain ⟨bytes', hread', hhash⟩ := h.member_read hmember
    rw [hpath, hread] at hread'
    exact ⟨member, hmember, hpath, by rw [hhash, hdigest, Option.some.inj hread']⟩
  proofs := by
    intro m hm idHash hcert
    obtain ⟨member, hmember, hpath, -⟩ := hcovers.proofs m hm idHash hcert
    exact ⟨member, hmember, hpath⟩
  inside := hcovers.inside

end Converse

/-- A package that passes with a key covers what it claims exactly when its index lists the
obligations, the verdicts and the proofs of its modules. -/
theorem package_covers_iff (hsha : Function.Injective sha) {lines : List String}
    (hverify : verifyPackageSigned sha hmac pkg image (some key) = .ok lines)
    (hindex : readIndex pkg = .ok index) (hunforged : Unforged hmac key index pkg) :
    Covers sha hmac key pkg index ↔ Listed pkg index := by
  have h := accepted_of_verify hverify hindex
  exact ⟨listed_of_covers h hunforged, covers_of_listed hsha h⟩

end

end

def tableSha (table : List (Bytes × String)) (bytes : Bytes) : String :=
  match table.find? fun e => e.1 = bytes with
  | some e => e.2
  | none => String.ofList ('#' :: bytes.map fun b => Char.ofNat b.toNat)

theorem tableSha_of_mem {table : List (Bytes × String)} (hkeys : (table.map Prod.fst).Nodup)
    {e : Bytes × String} (he : e ∈ table) : tableSha table e.1 = e.2 := by
  unfold tableSha
  cases hfind : table.find? fun e' => e'.1 = e.1 with
  | none =>
    have hno := List.find?_eq_none.mp hfind e he
    exact absurd (decide_eq_true rfl) hno
  | some e' =>
    have hkey : e'.1 = e.1 := by simpa using List.find?_some hfind
    rw [List.inj_on_of_nodup_map hkeys (List.mem_of_find?_eq_some hfind) he hkey]

theorem tableSha_injective {table : List (Bytes × String)} (hvalues : (table.map Prod.snd).Nodup)
    (hmark : ∀ e ∈ table, e.2.toList.head? ≠ some '#') : Function.Injective (tableSha table) := by
  have hchar : Function.Injective fun b : UInt8 => Char.ofNat b.toNat := by
    intro b b' h
    have hnat : ∀ c : UInt8, (Char.ofNat c.toNat).toNat = c.toNat := by
      intro c
      have hvalid : c.toNat.isValidChar := .inl (by have := c.toNat_lt; omega)
      unfold Char.ofNat
      rw [dif_pos hvalid]
      rfl
    have h' := congrArg Char.toNat h
    rw [hnat, hnat] at h'
    exact UInt8.toNat_inj.mp h'
  intro bytes bytes' h
  unfold tableSha at h
  cases hfind : table.find? fun e => e.1 = bytes with
  | none =>
    cases hfind' : table.find? fun e => e.1 = bytes' with
    | none =>
      rw [hfind, hfind'] at h
      have hlist := congrArg String.toList h
      simp only [String.toList_ofList, List.cons.injEq, true_and] at hlist
      exact List.map_injective_iff.mpr hchar hlist
    | some e =>
      rw [hfind, hfind'] at h
      have htext : String.ofList ('#' :: bytes.map fun b => Char.ofNat b.toNat) = e.2 := h
      exact absurd (by rw [← htext]; simp) (hmark e (List.mem_of_find?_eq_some hfind'))
  | some e =>
    have hkey : e.1 = bytes := by simpa using List.find?_some hfind
    cases hfind' : table.find? fun e => e.1 = bytes' with
    | none =>
      rw [hfind, hfind'] at h
      have htext : e.2 = String.ofList ('#' :: bytes'.map fun b => Char.ofNat b.toNat) := h
      exact absurd (by rw [htext]; simp) (hmark e (List.mem_of_find?_eq_some hfind))
    | some e' =>
      have hkey' : e'.1 = bytes' := by simpa using List.find?_some hfind'
      rw [hfind, hfind'] at h
      rw [← hkey, ← hkey', List.inj_on_of_nodup_map hvalues (List.mem_of_find?_eq_some hfind)
        (List.mem_of_find?_eq_some hfind') h]

/-! ## Two packages of one module -/

def certifiedRecord : VerdictFile.VerdictRecord where
  id := "App::main::contract::0"
  idHash := "8d1f0c5e2b7a4913"
  status := .discharged
  trust := .proof
  method := some .certificate
  surface := none
  statementHash := some "5ebc3ea22d4b97a1"
  authored := some .developer
  proof := some
    ⟨.certificate, "5ebc3ea22d4b97a1", some "App.main_ok", none, some "proofs/App.lean", none⟩
  claimed := none
  justification := none
  witnessReason := none
  note := none

def certifiedInput : VerdictFile.VerdictsInput where
  certifier := none
  target := "wasm32"
  modelSemantics := "wasm-mvp"
  concurrency := "unmodeled"
  records := [certifiedRecord]
  staleVerdicts := 0
  emitted := ⟨0, 0, 0⟩

def sampleVerdicts : Bytes := write (VerdictFile.verdictsTree certifiedInput)

def sampleProof : Bytes := utf8 "theorem App.main_ok : True := trivial\n"

/-- The verdicts, and in the good package also the obligations and the proof. -/
def sampleMembers (listed : Bool) : List Member :=
  let verdicts : Member := ⟨"verdicts/App.verdicts.json",
    "a0e75d6d42b520ae172eebf434273beb25f79c4ac6a392e6cf616ee0c38e9dfa", 474⟩
  if listed then
    [⟨"obligations/App.obl.json",
        "44136fa355b3678a1146ad16f7e8649e94fb4fc21fe77e8310c060f61caaff8a", 2⟩,
      ⟨"proofs/App/8d1f0c5e2b7a4913/proof.lean",
        "d6ebfe17f8b611e4bd4a8d6e90ae6af93513c8c8e91cc8c9ddd948344bf2c9c3", 38⟩, verdicts]
  else [verdicts]

def sampleDigest (listed : Bool) : String :=
  if listed then "e505dee5fc754d68dd1246d0f05ac7c387b48ff9bb678b8605bfe90cf4a41fd6"
  else "fa68ea589c0fa0b4f7c520b2c9e0b1bbd3f0b7f00213bfb7e08524b81a6431b6"

def sampleModule (listed : Bool) : CertModule where
  name := "App"
  moduleDigest := some "eadede9d5c7ef2070ac8fb231dea0d84c4e11cd6d8f7ca801c687cf73c5ff5ca"
  manifestDigest := none
  oblDigest :=
    if listed then "44136fa355b3678a1146ad16f7e8649e94fb4fc21fe77e8310c060f61caaff8a" else ""
  verdictsDigest := "a0e75d6d42b520ae172eebf434273beb25f79c4ac6a392e6cf616ee0c38e9dfa"
  target := "wasm32"
  model := "wasm-mvp"
  counts := ⟨1, 0, 0, 0⟩
  candidateRatio := 0
  claims := {}

def sampleIndex (listed : Bool) : CertIndex where
  schema := CERT_SCHEMA
  imageName := "app.lmod"
  imageFingerprint := "eadede9d5c7ef2070ac8fb231dea0d84c4e11cd6d8f7ca801c687cf73c5ff5ca"
  semantics := SEMANTICS_VERSION
  stmt := STMT_SCHEMA
  policy := "no-open"
  modules := [sampleModule listed]
  certifiers := []
  members := sampleMembers listed
  packageDigest := some (sampleDigest listed)

def sampleTable (listed : Bool) : List (Bytes × String) :=
  [(canonicalPreDigest (sampleIndex listed), sampleDigest listed),
    (sampleVerdicts, "a0e75d6d42b520ae172eebf434273beb25f79c4ac6a392e6cf616ee0c38e9dfa"),
    (sampleProof, "d6ebfe17f8b611e4bd4a8d6e90ae6af93513c8c8e91cc8c9ddd948344bf2c9c3"),
    (utf8 "\x7b\x7d", "44136fa355b3678a1146ad16f7e8649e94fb4fc21fe77e8310c060f61caaff8a"),
    (utf8 "LM", "eadede9d5c7ef2070ac8fb231dea0d84c4e11cd6d8f7ca801c687cf73c5ff5ca")]

def sampleKey : Bytes := List.replicate 32 0x2A

def sampleTag (listed : Bool) : Bytes :=
  if listed then
    [94, 68, 34, 197, 50, 219, 99, 140, 89, 3, 75, 247, 19, 44, 68, 146, 35, 195, 36, 110, 63, 60,
      73, 4, 12, 131, 69, 106, 221, 113, 43, 188]
  else
    [105, 88, 136, 253, 25, 211, 225, 249, 199, 216, 111, 101, 52, 36, 95, 19, 195, 163, 4, 89,
      152, 149, 185, 144, 76, 22, 104, 55, 28, 21, 57, 210]

def sampleHmac (listed : Bool) (key message : Bytes) : Bytes :=
  if key = sampleKey ∧ message = utf8 (sampleDigest listed) then sampleTag listed else []

def samplePackage (listed : Bool) : Package where
  name := "app.lmod.tyucert"
  read path :=
    if path = "cert.json" then some (canonical (sampleIndex listed))
    else if path = "package.sig" then some (SCHEME_HMAC_SHA256 :: sampleTag listed)
    else if path = "obligations/App.obl.json" then some (utf8 "\x7b\x7d")
    else if path = "proofs/App/8d1f0c5e2b7a4913/proof.lean" then some sampleProof
    else if path = "verdicts/App.verdicts.json" then some sampleVerdicts
    else none

def sampleImage : ImageArg := .given (some (utf8 "LM"))

theorem sampleTable_keys (listed : Bool) : ((sampleTable listed).map Prod.fst).Nodup := by
  have hstarts : (((sampleTable listed).map Prod.fst).map (List.take 16)).Nodup := by
    cases listed <;> decide
  exact hstarts.of_map

theorem sampleSha_injective (listed : Bool) : Function.Injective (tableSha (sampleTable listed)) := by
  refine tableSha_injective ?_ ?_
  · cases listed <;> decide
  · cases listed <;> decide

theorem sampleSha (listed : Bool) {bytes : Bytes} {digest : String}
    (h : (bytes, digest) ∈ sampleTable listed) : tableSha (sampleTable listed) bytes = digest :=
  tableSha_of_mem (e := (bytes, digest)) (sampleTable_keys listed) h

theorem sampleSha_index (listed : Bool) :
    tableSha (sampleTable listed) (canonicalPreDigest (sampleIndex listed)) = sampleDigest listed :=
  sampleSha listed (List.mem_cons_self ..)

theorem sample_assembled (listed : Bool) :
    Assembled (tableSha (sampleTable listed)) (sampleIndex listed) where
  schema := rfl
  modules := List.pairwise_singleton _ _
  claims := by
    intro m hm
    rw [List.mem_singleton.mp hm]
    exact ⟨List.Pairwise.nil, List.Pairwise.nil⟩
  members := by
    show (sampleMembers listed).Pairwise _
    cases listed <;> decide
  sizes := by
    show ∀ m ∈ sampleMembers listed, _
    cases listed <;> decide
  digest := by
    rw [sampleSha_index]
    rfl

theorem sample_read (listed : Bool) :
    readIndex (samplePackage listed) = .ok (sampleIndex listed) := by
  have hpaths : ShortPaths (sampleIndex listed) := by
    show ∀ m ∈ sampleMembers listed, _
    cases listed <;> decide
  have hweight : weight (indexTree (sampleIndex listed)) ≤ 20000 := by
    cases listed <;> decide
  have hlen : (canonical (sampleIndex listed)).length ≤ INDEX_MAX_BYTES := by
    rw [canonical_eq]
    exact le_trans (length_text_le _) (le_trans hweight (by decide))
  exact readIndex_eq_ok.mpr ⟨canonical (sampleIndex listed), rfl,
    (parseIndex_canonical (sample_assembled listed)).mpr ⟨hlen, hpaths⟩⟩

theorem sample_signature (listed : Bool) (digest : String) :
    checkSignature (sampleHmac listed) (samplePackage listed) digest sampleKey = .ok () ↔
      digest = sampleDigest listed := by
  rw [checkSignature_eq_ok]
  have hread : (samplePackage listed).read "package.sig" =
      some (SCHEME_HMAC_SHA256 :: sampleTag listed) := rfl
  unfold sampleHmac
  constructor
  · rintro ⟨-, hlen⟩
    by_contra hne
    rw [if_neg fun h => hne (utf8_inj.mp h.2)] at hlen
    cases hlen
  · rintro rfl
    rw [if_pos ⟨rfl, rfl⟩]
    refine ⟨hread, ?_⟩
    cases listed <;> rfl

theorem sample_verdicts :
    ∃ verdicts, VerdictFile.readVerdicts sampleVerdicts = .ok verdicts ∧
      verdicts.records = [certifiedRecord] := by
  have hwf : ∀ r ∈ certifiedInput.records, r.WellFormed := by
    intro r hr
    rw [List.mem_singleton.mp hr]
    exact ⟨fun _ => by decide, fun _ => by simp [certifiedRecord],
      fun _ _ _ => by simp [certifiedRecord]⟩
  have hsize : (VerdictFile.verdictsTree certifiedInput).size ≤
      VerdictFile.VERDICTS_FILE_MAX_BYTES := by decide
  have hsome : ∀ text : String, VerdictFile.Readable text →
      ∀ t ∈ some text, VerdictFile.Readable t := by
    intro text htext t ht
    rw [← Option.some.inj ht]
    exact htext
  have hnone : ∀ {α : Type} {P : α → Prop}, ∀ a ∈ (none : Option α), P a :=
    fun a ha => absurd ha (by simp)
  have hrecord : certifiedRecord.Readable := by
    refine ⟨by decide, by decide, hsome _ (by decide), fun p hp => ?_, hnone, hnone, hnone, hnone⟩
    rw [← Option.some.inj hp]
    exact ⟨by decide, hsome _ (by decide), hnone, hsome _ (by decide), hnone⟩
  have hreadable : certifiedInput.Readable := by
    refine ⟨fun c hc => absurd hc (by simp [certifiedInput]), by decide, by decide, by decide,
      fun r hr => ?_⟩
    rw [List.mem_singleton.mp hr]
    exact hrecord
  obtain ⟨verdicts, hread, hperm, -⟩ :=
    (VerdictFile.readVerdicts_verdictsTree hwf hsize).mpr hreadable
  exact ⟨verdicts, hread, List.perm_singleton.mp hperm⟩

theorem sample_certificate (listed : Bool) {idHash : String} :
    Certificate (samplePackage listed) "App" idHash ↔ idHash = "8d1f0c5e2b7a4913" := by
  obtain ⟨verdicts, hverdicts, hrecords⟩ := sample_verdicts
  constructor
  · rintro ⟨bytes, verdicts', hread, hverdicts', r, hr, -, rfl⟩
    have hbytes : bytes = sampleVerdicts := Option.some.inj (hread.symm.trans rfl)
    rw [hbytes, hverdicts] at hverdicts'
    rw [← Except.ok.inj hverdicts', hrecords, List.mem_singleton] at hr
    rw [hr]
    rfl
  · rintro rfl
    exact ⟨sampleVerdicts, verdicts, rfl, hverdicts, certifiedRecord,
      by rw [hrecords]; exact List.mem_singleton.mpr rfl, rfl, rfl⟩

theorem sample_accepted (listed : Bool) :
    Accepted (tableSha (sampleTable listed)) (sampleHmac listed) sampleImage sampleKey
      (samplePackage listed) (sampleIndex listed) where
  read := sample_read listed
  digest := (sample_assembled listed).digest
  signature := ⟨sampleDigest listed, rfl, (sample_signature listed _).mpr rfl⟩
  image := by
    have hsha : tableSha (sampleTable listed) (utf8 "LM") =
        "eadede9d5c7ef2070ac8fb231dea0d84c4e11cd6d8f7ca801c687cf73c5ff5ca" :=
      sampleSha listed (by simp [sampleTable])
    have hmodule : bindModule (tableSha (sampleTable listed)) (some (utf8 "LM")) 0
        (sampleModule listed) = .ok 1 :=
      bind_eq_ok.mpr ⟨utf8 "LM", rfl, bind_eq_ok.mpr ⟨⟨⟩, require_eq_ok.mpr hsha, rfl⟩⟩
    refine ⟨some (utf8 "LM"), 1, 0, rfl, ?_, rfl⟩
    show (List.foldlM (bindModule _ _) 0 [sampleModule listed] >>= _) = _
    rw [List.foldlM_cons, hmodule]
    rfl
  members := by
    have hverdicts : sampleVerdicts.length = 474 := by
      rw [sampleVerdicts, length_write]
      decide
    have hmember : ∀ (m : Member) (bytes : Bytes), (samplePackage listed).read m.path = some bytes →
        bytes.length.toUInt64 = m.size → (bytes, m.sha256) ∈ sampleTable listed →
        checkMember (tableSha (sampleTable listed)) (samplePackage listed) m = .ok () :=
      fun m bytes hread hsize hsha =>
        checkMember_eq_ok.mpr ⟨bytes, hread, hsize, sampleSha listed hsha⟩
    have hlast : checkMember (tableSha (sampleTable listed)) (samplePackage listed)
        ⟨"verdicts/App.verdicts.json",
          "a0e75d6d42b520ae172eebf434273beb25f79c4ac6a392e6cf616ee0c38e9dfa", 474⟩ = .ok () :=
      hmember _ sampleVerdicts rfl (by rw [hverdicts]; rfl) (by simp [sampleTable])
    show ∀ m ∈ sampleMembers listed, _
    intro m hm
    cases listed with
    | false =>
      rw [List.mem_singleton.mp hm]
      exact hlast
    | true =>
      rcases List.mem_cons.mp hm with rfl | hm
      · exact hmember _ (utf8 "\x7b\x7d") rfl rfl (by simp [sampleTable])
      rcases List.mem_cons.mp hm with rfl | hm
      · exact hmember _ sampleProof rfl (by decide) (by simp [sampleTable])
      · rw [List.mem_singleton.mp hm]
        exact hlast
  proofs := by
    intro m hm
    rw [List.mem_singleton.mp hm]
    obtain ⟨verdicts, hverdicts, -⟩ := sample_verdicts
    refine checkProofs_eq_ok.mpr ⟨fun bytes hread => ⟨verdicts, ?_⟩, fun idHash hcert => ?_⟩
    · rw [show bytes = sampleVerdicts from Option.some.inj (hread.symm.trans rfl), hverdicts]
    · rw [(sample_certificate listed).mp hcert]
      rfl

theorem sample_unforged (listed : Bool) :
    Unforged (sampleHmac listed) sampleKey (sampleIndex listed) (samplePackage listed) := by
  intro digest hcheck
  rw [(sample_signature listed digest).mp hcheck]
  rfl

theorem sample_listed : Listed (samplePackage true) (sampleIndex true) where
  obligations := by
    intro m hm
    rw [List.mem_singleton.mp hm]
    exact ⟨_, List.mem_cons_self .., rfl, rfl⟩
  verdicts := by
    intro m hm
    rw [List.mem_singleton.mp hm]
    exact ⟨_, List.mem_cons_of_mem _ (List.mem_cons_of_mem _ (List.mem_cons_self ..)), rfl, rfl⟩
  proofs := by
    intro m hm idHash hcert
    rw [List.mem_singleton.mp hm] at hcert ⊢
    rw [(sample_certificate true).mp hcert]
    exact ⟨_, List.mem_cons_of_mem _ (List.mem_cons_self ..), rfl⟩
  inside := by
    show ∀ member ∈ sampleMembers true, _
    decide

/-- The package whose index lists everything covers what it claims. -/
theorem listed_package_covered :
    Covers (tableSha (sampleTable true)) (sampleHmac true) sampleKey (samplePackage true)
      (sampleIndex true) := by
  obtain ⟨lines, hverify⟩ := verifyPackageSigned_eq_ok.mpr ⟨_, sample_accepted true⟩
  exact (package_covers_iff (sampleSha_injective true) hverify (sample_read true)
    (sample_unforged true)).mpr sample_listed

/-- The package whose index lists the verdicts only passes the check, although its entry has
not the hash of the obligations and the proof is no member. -/
theorem loose_package_passes :
    Function.Injective (tableSha (sampleTable false)) ∧
      Unforged (sampleHmac false) sampleKey (sampleIndex false) (samplePackage false) ∧
      readIndex (samplePackage false) = .ok (sampleIndex false) ∧
      (∃ lines, verifyPackageSigned (tableSha (sampleTable false)) (sampleHmac false)
        (samplePackage false) sampleImage (some sampleKey) = .ok lines) ∧
      ¬ Covers (tableSha (sampleTable false)) (sampleHmac false) sampleKey (samplePackage false)
        (sampleIndex false) := by
  refine ⟨sampleSha_injective false, sample_unforged false, sample_read false,
    verifyPackageSigned_eq_ok.mpr ⟨_, sample_accepted false⟩, fun hcovers => ?_⟩
  obtain ⟨bytes, hread, hdigest⟩ := hcovers.obligations (sampleModule false) (List.mem_cons_self ..)
  have hbytes : bytes = utf8 "\x7b\x7d" := Option.some.inj (hread.symm.trans rfl)
  have hsha : tableSha (sampleTable false) (utf8 "\x7b\x7d") =
      "44136fa355b3678a1146ad16f7e8649e94fb4fc21fe77e8310c060f61caaff8a" :=
    sampleSha false (by simp [sampleTable])
  rw [hbytes, hsha] at hdigest
  exact absurd hdigest (by decide)

end Cert

end Tyu

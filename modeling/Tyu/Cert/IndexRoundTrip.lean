import Tyu.Cert.Assemble
import Tyu.Cert.IndexTree

/-!
# The certification index read back

The reader of trees takes a well-ordered index out of its tree; with the reading of texts
this gives the round trip, and that the text determines the index.
-/

namespace Tyu

open Lib Lib.Json

namespace Cert

/-! ## Reading trees -/

theorem objStrOrNull_orNull (o : Option String) (field : String) :
    objStrOrNull (orNull o) field = .ok o := by
  cases o <;> rfl

theorem objU64_nat {n : UInt64} (field : String) : objU64 (.num n.toNat) field = .ok n := by
  have hn : (0 : Int) ≤ n.toNat := Int.natCast_nonneg _
  unfold objU64
  dsimp only
  rw [if_pos hn, Int.toNat_natCast]
  exact congrArg Except.ok UInt64.ofNat_toNat

theorem objU32_nat {n : UInt32} (field : String) : objU32 (.num n.toNat) field = .ok n := by
  have hlt := n.toNat_lt
  have hread : objU64 (.num n.toNat) field = .ok n.toUInt64 := by
    rw [← UInt32.toNat_toUInt64]
    exact objU64_nat field
  unfold objU32
  rw [hread]
  show (if n.toUInt64.toNat < 2 ^ 32 then _ else _) = _
  rw [UInt32.toNat_toUInt64, if_pos hlt, UInt32.toUInt32_toUInt64]

theorem mapM_map {α β : Type} {parse : β → Except CertError α} {tree : α → β} {xs : List α}
    (h : ∀ x ∈ xs, parse (tree x) = .ok x) : (xs.map tree).mapM parse = .ok xs := by
  induction xs with
  | nil => rfl
  | cons x xs ih =>
    have hrest := ih fun y hy => h y (List.mem_cons_of_mem _ hy)
    rw [List.map_cons, List.mapM_cons, h x (List.mem_cons_self ..), hrest]
    rfl

theorem parseCounts_tree (c : Counts) : parseCounts (countsTree c) = .ok c := by
  show List.foldlM countsField ⟨0, 0, 0, 0⟩ _ = _
  simp only [List.foldlM_cons, List.foldlM_nil, countsField, objU32_nat]
  rfl

theorem sortKinds_ordered {kinds : List (String × UInt32)}
    (h : kinds.Pairwise fun a b => a.1 < b.1) : sortKinds kinds = kinds :=
  sortOn_of_pairwise h

theorem sortIntents_ordered {intents : List String} (h : intents.Pairwise (· < ·)) :
    sortIntents intents = intents := by
  have hsort : (intents.mergeSort fun a b => !decide (b < a)) = intents :=
    @sortOn_of_pairwise _ id _ h
  have hchain : intents.IsChain (· ≠ ·) := by
    refine (h.imp fun {a b} hab => ?_).isChain
    rintro rfl
    exact String.lt_irrefl _ hab
  unfold sortIntents
  rw [hsort]
  exact List.destutter_of_isChain _ _ hchain

structure Claims.Sorted (c : Claims) : Prop where
  kinds : sortKinds c.kinds = c.kinds
  intents : sortIntents c.intents = c.intents

theorem Claims.Ordered.sorted {c : Claims} (h : c.Ordered) : c.Sorted :=
  ⟨sortKinds_ordered h.kinds, sortIntents_ordered h.intents⟩

theorem parseClaims_tree {c : Claims} (h : c.Sorted) : parseClaims (claimsTree c) = .ok c := by
  have hkinds : (c.kinds.map fun k => (k.1, Json.num k.2.toNat)).mapM kindCount = .ok c.kinds := by
    refine mapM_map fun k _ => ?_
    unfold kindCount
    rw [objU32_nat]
    rfl
  have hintents : (c.intents.map Json.str).mapM (fun i => objStr i "claims.intents entry") =
      .ok c.intents := mapM_map fun _ _ => rfl
  have hfirst : claimsField {} ("kinds", kindsTree c.kinds) = .ok { kinds := c.kinds } := by
    show ((c.kinds.map fun k => (k.1, Json.num k.2.toNat)).mapM kindCount >>= fun kinds =>
      Except.ok ({ kinds := sortKinds ([] ++ kinds) } : Claims)) = _
    rw [hkinds]
    show Except.ok ({ kinds := sortKinds c.kinds } : Claims) = _
    rw [h.kinds]
  have hsecond : claimsField { kinds := c.kinds } ("intents", stringsTree c.intents) = .ok c := by
    show ((c.intents.map Json.str).mapM (fun i => objStr i "claims.intents entry") >>= fun intents =>
      Except.ok ({ kinds := c.kinds, intents := sortIntents ([] ++ intents) } : Claims)) = _
    rw [hintents]
    show Except.ok ({ kinds := c.kinds, intents := sortIntents c.intents } : Claims) = _
    rw [h.intents]
  show List.foldlM claimsField {} _ = _
  rw [List.foldlM_cons, hfirst]
  show (List.foldlM claimsField { kinds := c.kinds } _) = _
  rw [List.foldlM_cons, hsecond]
  rfl

theorem parseModule_tree {m : CertModule} (h : m.claims.Sorted) :
    parseModule (moduleTree m) = .ok m := by
  have hratio : ∀ s : ModuleFields,
      moduleField s ("candidate_ratio", .num m.candidateRatio.toNat) =
        .ok { s with candidateRatio := some m.candidateRatio } := by
    intro s
    have hlt := m.candidateRatio.toNat_lt
    have hread : objU64 (.num m.candidateRatio.toNat) "modules[].candidate_ratio" =
        .ok m.candidateRatio.toUInt64 := by
      rw [← UInt16.toNat_toUInt64]
      exact objU64_nat _
    show (objU64 _ _ >>= _) = _
    rw [hread]
    show (if m.candidateRatio.toUInt64.toNat > 65535 then _ else _) = _
    rw [UInt16.toNat_toUInt64, if_neg (by omega)]
    show Except.ok { s with candidateRatio := some m.candidateRatio.toUInt64.toUInt16 } = _
    rw [UInt16.toUInt16_toUInt64]
  have hmodule : ∀ s : ModuleFields, moduleField s ("module_digest", orNull m.moduleDigest) =
      .ok { s with moduleDigest := m.moduleDigest } := by
    intro s
    show (objStrOrNull _ _ >>= _) = _
    rw [objStrOrNull_orNull]
    rfl
  have hmanifest : ∀ s : ModuleFields, moduleField s ("manifest_digest", orNull m.manifestDigest) =
      .ok { s with manifestDigest := m.manifestDigest } := by
    intro s
    show (objStrOrNull _ _ >>= _) = _
    rw [objStrOrNull_orNull]
    rfl
  have hcounts : ∀ s : ModuleFields, moduleField s ("counts", countsTree m.counts) =
      .ok { s with counts := some m.counts } := by
    intro s
    show (parseCounts _ >>= _) = _
    rw [parseCounts_tree]
    rfl
  have hclaims : ∀ s : ModuleFields, moduleField s ("claims", claimsTree m.claims) =
      .ok { s with claims := m.claims } := by
    intro s
    show (parseClaims _ >>= _) = _
    rw [parseClaims_tree h]
    rfl
  show (List.foldlM moduleField {} _ >>= ModuleFields.finish) = _
  simp only [List.foldlM_cons, List.foldlM_nil, hratio, hmodule, hmanifest, hcounts, hclaims]
  rfl

theorem parseCertifier_tree (c : CertificateId) : parseCertifier (certifierTree c) = .ok c := by
  have hmethods : ∀ s : CertifierFields, certifierField s ("methods", stringsTree c.methods) =
      .ok { s with methods := s.methods ++ c.methods } := by
    intro s
    have hread : (c.methods.map Json.str).mapM (fun m => objStr m "certifier method") =
        .ok c.methods := mapM_map fun _ _ => rfl
    show ((c.methods.map Json.str).mapM (fun m => objStr m "certifier method") >>= _) = _
    rw [hread]
    rfl
  show (List.foldlM certifierField {} _ >>= CertifierFields.finish) = _
  simp only [List.foldlM_cons, List.foldlM_nil, hmethods]
  rfl

theorem parseMember_tree (m : Member) : parseMember (memberTree m) = .ok m := by
  have hsize : ∀ s : MemberFields, memberField s ("size", .num m.size.toNat) =
      .ok { s with size := some m.size } := by
    intro s
    show (objU64 _ _ >>= _) = _
    rw [objU64_nat]
    rfl
  show (List.foldlM memberField {} [("path", .str m.path), ("sha256", .str m.sha256),
    ("size", .num m.size.toNat)] >>= MemberFields.finish) = _
  simp only [List.foldlM_cons, List.foldlM_nil, hsize]
  rfl

/-! ## The whole index -/

def fieldsOf (index : CertIndex) : IndexFields :=
  { schema := some index.schema, imageName := some index.imageName
    imageFingerprint := some index.imageFingerprint, semantics := some index.semantics
    stmt := some index.stmt, policy := some index.policy, modules := index.modules
    certifiers := index.certifiers, members := index.members }

theorem foldlM_body {index : CertIndex} (h : ∀ m ∈ index.modules, m.claims.Sorted)
    (rest : List (String × Json)) :
    List.foldlM indexField {} (("schema", .str index.schema) :: (bodyMembers index ++ rest)) =
      List.foldlM indexField (fieldsOf index) rest := by
  have hmodules : ∀ s : IndexFields, indexField s ("modules", .arr (index.modules.map moduleTree)) =
      .ok { s with modules := index.modules } := by
    intro s
    have hread : (index.modules.map moduleTree).mapM parseModule = .ok index.modules :=
      mapM_map fun m hm => parseModule_tree (h m hm)
    show ((index.modules.map moduleTree).mapM parseModule >>= _) = _
    rw [hread]
    rfl
  have hcertifiers : ∀ s : IndexFields,
      indexField s ("certifiers", .arr (index.certifiers.map certifierTree)) =
        .ok { s with certifiers := index.certifiers } := by
    intro s
    have hread : (index.certifiers.map certifierTree).mapM parseCertifier = .ok index.certifiers :=
      mapM_map fun c _ => parseCertifier_tree c
    show ((index.certifiers.map certifierTree).mapM parseCertifier >>= _) = _
    rw [hread]
    rfl
  have hmembers : ∀ s : IndexFields, indexField s ("members", .arr (index.members.map memberTree)) =
      .ok { s with members := index.members } := by
    intro s
    have hread : (index.members.map memberTree).mapM parseMember = .ok index.members :=
      mapM_map fun m _ => parseMember_tree m
    show ((index.members.map memberTree).mapM parseMember >>= _) = _
    rw [hread]
    rfl
  have hregistries : ∀ s : IndexFields, indexField s ("registries", registriesTree) = .ok s :=
    fun _ => rfl
  unfold bodyMembers
  simp only [List.cons_append, List.nil_append, List.foldlM_cons, hmodules, hcertifiers, hmembers,
    hregistries]
  rfl

theorem checkMembers_ok {members : List Member} {prev : Option String}
    (hprev : ∀ p ∈ prev, ∀ m ∈ members, p < m.path)
    (horder : members.Pairwise fun a b => a.path < b.path)
    (hshort : ∀ m ∈ members, m.path.utf8ByteSize ≤ MEMBER_PATH_MAX) :
    checkMembers prev members = .ok () := by
  induction members generalizing prev with
  | nil => rfl
  | cons m members ih =>
    obtain ⟨hhead, htail⟩ := List.pairwise_cons.mp horder
    have hlen : require (m.path.utf8ByteSize ≤ MEMBER_PATH_MAX)
        (CertError.malformed "member path too long") = .ok ⟨⟩ :=
      require_eq_ok.mpr (hshort m (List.mem_cons_self ..))
    have hlt : require (∀ p ∈ prev, p < m.path)
        (CertError.malformed "members not in canonical (sorted) order") = .ok ⟨⟩ :=
      require_eq_ok.mpr fun p hp => hprev p hp m (List.mem_cons_self ..)
    have hrest := @ih (some m.path) (fun p hp => by
      rw [← Option.some.inj hp]
      exact hhead) htail fun m hm => hshort m (List.mem_cons_of_mem _ hm)
    rw [checkMembers, hlen, hlt, hrest]
    rfl

theorem short_of_checkMembers {members : List Member} {prev : Option String}
    (h : checkMembers prev members = .ok ()) :
    ∀ m ∈ members, m.path.utf8ByteSize ≤ MEMBER_PATH_MAX := by
  induction members generalizing prev with
  | nil => exact fun m hm => absurd hm List.not_mem_nil
  | cons m members ih =>
    simp only [checkMembers, bind_eq_ok, require_eq_ok] at h
    obtain ⟨_, hlen, _, _, hrest⟩ := h
    intro m' hm'
    rcases List.mem_cons.mp hm' with rfl | hm'
    · exact hlen
    · exact ih hrest m' hm'

theorem checkModules_ok {modules : List CertModule} {prev : Option String}
    (hprev : ∀ p ∈ prev, ∀ m ∈ modules, p < m.name)
    (horder : modules.Pairwise fun a b => a.name < b.name) :
    checkModules prev modules = .ok () := by
  induction modules generalizing prev with
  | nil => rfl
  | cons m modules ih =>
    obtain ⟨hhead, htail⟩ := List.pairwise_cons.mp horder
    have hlt : require (∀ p ∈ prev, p < m.name)
        (CertError.malformed "modules not in canonical (sorted) order") = .ok ⟨⟩ :=
      require_eq_ok.mpr fun p hp => hprev p hp m (List.mem_cons_self ..)
    have hrest := @ih (some m.name) (fun p hp => by
      rw [← Option.some.inj hp]
      exact hhead) htail
    rw [checkModules, hlt, hrest]
    rfl

theorem fitsItems_map {α : Type} {tree : α → Json} {depth : Nat} {xs : List α}
    (h : ∀ x ∈ xs, Fits depth (tree x)) : FitsItems depth (xs.map tree) := by
  induction xs with
  | nil => trivial
  | cons x xs ih =>
    exact ⟨h x (List.mem_cons_self ..), ih fun y hy => h y (List.mem_cons_of_mem _ hy)⟩

theorem fitsMembers_map {α : Type} {key : α → String} {tree : α → Json} {depth : Nat} {xs : List α}
    (h : ∀ x ∈ xs, Fits depth (tree x)) : FitsMembers depth (xs.map fun x => (key x, tree x)) := by
  induction xs with
  | nil => trivial
  | cons x xs ih =>
    exact ⟨h x (List.mem_cons_self ..), ih fun y hy => h y (List.mem_cons_of_mem _ hy)⟩

theorem fitsMembers_append {depth : Nat} {ms ms' : List (String × Json)}
    (h : FitsMembers depth ms) (h' : FitsMembers depth ms') : FitsMembers depth (ms ++ ms') := by
  induction ms with
  | nil => exact h'
  | cons m ms ih => exact ⟨h.1, ih h.2⟩

theorem fits_nat {depth n : Nat} (hdepth : depth < JSON_DEPTH_CAP) (hn : n < 2 ^ 63) :
    Fits depth (.num n) := ⟨hdepth, by omega, by omega⟩

theorem fits_u32 {depth : Nat} (hdepth : depth < JSON_DEPTH_CAP) (n : UInt32) :
    Fits depth (.num n.toNat) := fits_nat hdepth (lt_trans n.toNat_lt (by decide))

theorem fits_orNull {depth : Nat} (hdepth : depth < JSON_DEPTH_CAP) (o : Option String) :
    Fits depth (orNull o) := by
  cases o <;> exact hdepth

theorem fits_stringsTree {depth : Nat} (hdepth : depth + 1 < JSON_DEPTH_CAP) (xs : List String) :
    Fits depth (stringsTree xs) :=
  ⟨by omega, fitsItems_map fun _ _ => hdepth⟩

theorem fits_moduleTree (m : CertModule) : Fits 2 (moduleTree m) := by
  have hcounts : Fits 3 (countsTree m.counts) :=
    ⟨by decide, fits_u32 (by decide) _, fits_u32 (by decide) _, fits_u32 (by decide) _,
      fits_u32 (by decide) _, trivial⟩
  have hclaims : Fits 3 (claimsTree m.claims) :=
    ⟨by decide, ⟨by decide, fitsMembers_map fun _ _ => fits_u32 (by decide) _⟩,
      fits_stringsTree (by decide) _, trivial⟩
  have hratio : Fits 3 (.num m.candidateRatio.toNat) :=
    fits_nat (by decide) (lt_trans m.candidateRatio.toNat_lt (by decide))
  have hstr : ∀ s, Fits 3 (.str s) := fun _ => (by decide : 3 < JSON_DEPTH_CAP)
  exact ⟨by decide, hstr _, fits_orNull (by decide) _, fits_orNull (by decide) _, hstr _, hstr _,
    hstr _, hstr _, hcounts, hratio, hclaims, trivial⟩

theorem fits_certifierTree (c : CertificateId) : Fits 2 (certifierTree c) := by
  have hstr : ∀ depth < 5, ∀ s, Fits depth (.str s) := fun depth hdepth s =>
    lt_trans hdepth (by decide)
  exact ⟨by decide, hstr 3 (by decide) _, hstr 3 (by decide) _, hstr 3 (by decide) _,
    ⟨by decide, hstr 4 (by decide) _, hstr 4 (by decide) _, trivial⟩, hstr 3 (by decide) _,
    fits_stringsTree (by decide) _, trivial⟩

theorem fits_memberTree {m : Member} (h : m.size.toNat < 2 ^ 63) : Fits 2 (memberTree m) := by
  have hstr : ∀ s, Fits 3 (.str s) := fun _ => (by decide : 3 < JSON_DEPTH_CAP)
  exact ⟨by decide, hstr _, hstr _, fits_nat (by decide) h, trivial⟩

theorem fits_body {index : CertIndex} (h : ∀ m ∈ index.members, m.size.toNat < 2 ^ 63) :
    FitsMembers 1 (("schema", .str index.schema) :: bodyMembers index) := by
  have hstr : ∀ depth < 5, ∀ s, Fits depth (.str s) := fun depth hdepth s =>
    lt_trans hdepth (by decide)
  have hdoc : ∀ s, Fits 2 (.obj [("doc", .str s), ("rev", .str "1")]) := fun s =>
    ⟨by decide, hstr 3 (by decide) _, hstr 3 (by decide) _, trivial⟩
  exact ⟨hstr 1 (by decide) _,
    ⟨by decide, hstr 2 (by decide) _, hstr 2 (by decide) _, trivial⟩,
    hstr 1 (by decide) _, hstr 1 (by decide) _,
    ⟨by decide, hdoc _, hdoc _, trivial⟩, hstr 1 (by decide) _,
    ⟨by decide, fitsItems_map fun m _ => fits_moduleTree m⟩,
    ⟨by decide, fitsItems_map fun c _ => fits_certifierTree c⟩,
    ⟨by decide, fitsItems_map fun m hm => fits_memberTree (h m hm)⟩, trivial⟩

theorem fits_preDigestTree {index : CertIndex}
    (h : ∀ m ∈ index.members, m.size.toNat < 2 ^ 63) : Fits 0 (preDigestTree index) :=
  ⟨by decide, fits_body h⟩

theorem fits_indexTree {index : CertIndex} (h : ∀ m ∈ index.members, m.size.toNat < 2 ^ 63) :
    Fits 0 (indexTree index) := by
  have hdigest : FitsMembers 1 [("package_digest", orNull index.packageDigest)] :=
    ⟨fits_orNull (by decide) _, trivial⟩
  exact ⟨by decide, fitsMembers_append (fits_body h) hdigest⟩

/-! ## The round trip -/

def CertIndex.digestFree (index : CertIndex) : CertIndex := { index with packageDigest := none }

def ShortPaths (index : CertIndex) : Prop :=
  ∀ m ∈ index.members, m.path.utf8ByteSize ≤ MEMBER_PATH_MAX

/-- What the reader knows of an index it has read, and the assembler of one it has built: the
text of such an index has all of it but the digest. -/
structure ReadBack (index : CertIndex) : Prop where
  schema : index.schema = CERT_SCHEMA
  claims : ∀ m ∈ index.modules, m.claims.Sorted
  sizes : ∀ m ∈ index.members, m.size.toNat < 2 ^ 63

section

variable {sha : Bytes → String} {index : CertIndex}

theorem Assembled.readBack (h : Assembled sha index) : ReadBack index :=
  ⟨h.schema, fun m hm => (h.claims m hm).sorted, h.sizes⟩

theorem finish_fieldsOf (h : ReadBack index) (digest : Option String) :
    ({ fieldsOf index with packageDigest := digest } : IndexFields).finish =
      .ok { index with packageDigest := digest } := by
  have hschema : require (index.schema = CERT_SCHEMA) (CertError.malformed
      ("unsupported cert schema '" ++ index.schema ++ "' (expected " ++ CERT_SCHEMA ++ ")")) =
      .ok ⟨⟩ := require_eq_ok.mpr h.schema
  show (require _ _ >>= _) = _
  rw [hschema]
  rfl

theorem foldlM_preDigestTree (h : ReadBack index) :
    List.foldlM indexField {} (("schema", .str index.schema) :: bodyMembers index) =
      .ok (fieldsOf index) := by
  have hbody := foldlM_body h.claims []
  rw [List.append_nil] at hbody
  exact hbody

theorem foldlM_indexTree (h : Assembled sha index) :
    List.foldlM indexField {} (("schema", .str index.schema) ::
      (bodyMembers index ++ [("package_digest", orNull index.packageDigest)])) =
      .ok { fieldsOf index with packageDigest := index.packageDigest } := by
  rw [foldlM_body h.readBack.claims, h.digest]
  rfl

theorem checks_ok_iff (h : Assembled sha index) (result : CertIndex) :
    (do checkMembers none index.members; checkModules none index.modules; pure result) =
      Except.ok result ↔ ShortPaths index := by
  have hnone : ∀ {p : String}, p ∉ (none : Option String) := fun h => nomatch h
  constructor
  · intro hrun
    simp only [bind_eq_ok] at hrun
    obtain ⟨_, hmembers, _⟩ := hrun
    exact short_of_checkMembers hmembers
  · intro hshort
    rw [checkMembers_ok (fun p hp => absurd hp hnone) h.members hshort,
      checkModules_ok (fun p hp => absurd hp hnone) h.modules]
    rfl

theorem parseIndex_text {j : Json} (hfits : Fits 0 j) {result : CertIndex} :
    parseIndex (text j) = .ok result ↔
      (text j).length ≤ INDEX_MAX_BYTES ∧ indexOf j = .ok result := by
  unfold parseIndex
  rw [parseJson_text hfits]
  constructor
  · intro h
    obtain ⟨_, hlen, hindex⟩ := bind_eq_ok.mp h
    exact ⟨require_eq_ok.mp hlen, hindex⟩
  · intro h
    exact bind_eq_ok.mpr ⟨⟨⟩, require_eq_ok.mpr h.1, h.2⟩

theorem parseIndex_canonical (h : Assembled sha index) :
    parseIndex (canonical index) = .ok index ↔
      (canonical index).length ≤ INDEX_MAX_BYTES ∧ ShortPaths index := by
  have hindex : indexOf (indexTree index) =
      (do checkMembers none index.members; checkModules none index.modules; pure index) := by
    show (List.foldlM indexField {} _ >>= _) = _
    rw [foldlM_indexTree h]
    show (IndexFields.finish { fieldsOf index with packageDigest := index.packageDigest } >>= _) = _
    rw [finish_fieldsOf h.readBack]
    rfl
  rw [canonical_eq, parseIndex_text (fits_indexTree h.sizes), hindex, checks_ok_iff h]

theorem parseIndex_canonicalPreDigest (h : Assembled sha index) :
    parseIndex (canonicalPreDigest index) = .ok index.digestFree ↔
      (canonicalPreDigest index).length ≤ INDEX_MAX_BYTES ∧ ShortPaths index := by
  have hindex : indexOf (preDigestTree index) =
      (do checkMembers none index.members; checkModules none index.modules
          pure index.digestFree) := by
    show (List.foldlM indexField {} _ >>= _) = _
    rw [foldlM_preDigestTree h.readBack]
    show (IndexFields.finish { fieldsOf index with packageDigest := none } >>= _) = _
    rw [finish_fieldsOf h.readBack]
    rfl
  rw [canonicalPreDigest_eq, parseIndex_text (fits_preDigestTree h.sizes), hindex, checks_ok_iff h]

theorem digestFree_inj (h : ReadBack index) {other : CertIndex} (h' : ReadBack other)
    (heq : canonicalPreDigest index = canonicalPreDigest other) :
    index.digestFree = other.digestFree := by
  rw [canonicalPreDigest_eq, canonicalPreDigest_eq] at heq
  have htree := text_inj (fits_preDigestTree h.sizes) (fits_preDigestTree h'.sizes) heq
  have hmembers : ("schema", Json.str index.schema) :: bodyMembers index =
      ("schema", Json.str other.schema) :: bodyMembers other := Json.obj.inj htree
  have hfields : fieldsOf index = fieldsOf other := by
    have hread := foldlM_preDigestTree h
    rw [hmembers, foldlM_preDigestTree h'] at hread
    exact (Except.ok.inj hread).symm
  have hfinish := finish_fieldsOf h none
  rw [hfields, finish_fieldsOf h'] at hfinish
  exact (Except.ok.inj hfinish).symm

theorem eq_of_digestFree {other : CertIndex} (h : index.digestFree = other.digestFree)
    (hdigest : index.packageDigest = other.packageDigest) : index = other := by
  have hindex : index = { index.digestFree with packageDigest := index.packageDigest } := rfl
  rw [hindex, h, hdigest]
  rfl

theorem canonicalPreDigest_inj (h : Assembled sha index) {other : CertIndex}
    (h' : Assembled sha other) (heq : canonicalPreDigest index = canonicalPreDigest other) :
    index = other := by
  have hdigest : index.packageDigest = other.packageDigest := by
    rw [h.digest, h'.digest, heq]
  exact eq_of_digestFree (digestFree_inj h.readBack h'.readBack heq) hdigest

theorem length_canonical (index : CertIndex) :
    (canonical index).length =
      (canonicalPreDigest index).length + 18 + (jstrOrNull index.packageDigest).length := by
  have hdigest : (utf8 ",\"package_digest\":").length = 18 := by decide
  unfold canonical canonicalPreDigest
  simp only [List.length_append, hdigest]
  omega

theorem length_canonicalPreDigest_le (index : CertIndex) :
    (canonicalPreDigest index).length ≤ weight (preDigestTree index) := by
  rw [canonicalPreDigest_eq]
  exact length_text_le _

/-- An assembled index reads back exactly when no path is too long and the text not too big,
with and without its digest; and its digest-free text is the text of no other index. -/
theorem index_read_back (h : Assembled sha index) :
    (parseIndex (canonical index) = .ok index ↔
      (canonical index).length ≤ INDEX_MAX_BYTES ∧ ShortPaths index) ∧
    (parseIndex (canonicalPreDigest index) = .ok index.digestFree ↔
      (canonicalPreDigest index).length ≤ INDEX_MAX_BYTES ∧ ShortPaths index) ∧
    ∀ other, Assembled sha other → index ≠ other →
      canonicalPreDigest index ≠ canonicalPreDigest other :=
  ⟨parseIndex_canonical h, parseIndex_canonicalPreDigest h,
    fun _ h' hne heq => hne (canonicalPreDigest_inj h h' heq)⟩

end

/-! ## Two packages -/

/-- A root module, and the package with a proof of it kept under `proof`. -/
def appState : ModuleState :=
  { name := "App", target := "wasm32", model := "wasm-mvp", counts := ⟨1, 0, 0, 2⟩
    candidateRatio := 2500, obl := none, verdicts := utf8 "\x7b\x7d" }

def appRoot : RootModule := ⟨"App", utf8 "LM", none⟩

def appFiles (proof : String) : List StagedMember :=
  [⟨"proofs/App/" ++ proof ++ "/proof.lean", []⟩, ⟨"verdicts/App.verdicts.json", utf8 "\x7b\x7d"⟩]

def appSha (bytes : Bytes) : String :=
  if bytes = [] then "e3b0c44298fc1c149afbf4c8996fb92427ae41e4649b934ca495991b7852b855"
  else if bytes = utf8 "\x7b\x7d" then
    "44136fa355b3678a1146ad16f7e8649e94fb4fc21fe77e8310c060f61caaff8a"
  else if bytes = utf8 "LM" then
    "eadede9d5c7ef2070ac8fb231dea0d84c4e11cd6d8f7ca801c687cf73c5ff5ca"
  else "a5944a8b6a66bfc7df664cfc16ccfa9de47af8fba909febba91d8d6d706a97b3"

def appIndex (proof : String) : CertIndex :=
  assembleIndex appSha "app.lmod" appRoot .noOpen [appState] [] (appFiles proof)

theorem assembled_appIndex {proof : String}
    (hne : "proofs/App/" ++ proof ++ "/proof.lean" ≠ "verdicts/App.verdicts.json") :
    Assembled appSha (appIndex proof) := by
  refine assembled_assembleIndex appSha _ _ _ _ (List.nodup_singleton _) ?_ ?_
  · exact List.nodup_cons.mpr ⟨fun h => hne (List.mem_singleton.mp h), List.nodup_singleton _⟩
  · intro m hm
    rcases List.mem_cons.mp hm with rfl | hm
    · exact Nat.two_pow_pos 63
    · rw [List.mem_singleton.mp hm]
      decide

theorem shortPaths_appIndex {proof : String} :
    ShortPaths (appIndex proof) ↔
      ("proofs/App/" ++ proof ++ "/proof.lean").utf8ByteSize ≤ MEMBER_PATH_MAX := by
  have hmem : ∀ m, m ∈ (appIndex proof).members ↔ m ∈ (appFiles proof).map (memberRecord appSha) :=
    fun m => (sortOn_perm _ _).mem_iff
  constructor
  · exact fun h => h _ ((hmem _).mpr (List.mem_cons_self ..))
  · intro h m hm
    rcases List.mem_cons.mp ((hmem m).mp hm) with rfl | hm
    · exact h
    · rw [List.mem_singleton.mp hm]
      exact (by decide : "verdicts/App.verdicts.json".utf8ByteSize ≤ MEMBER_PATH_MAX)

theorem appIndex_eq : appIndex "8d1f" = CertIndex.withDigest appSha
    { schema := CERT_SCHEMA, imageName := "app.lmod", imageFingerprint := appSha appRoot.imageBytes
      semantics := SEMANTICS_VERSION, stmt := STMT_SCHEMA, policy := deployPolicyStr .noOpen
      modules := [moduleEntry appSha appRoot appState], certifiers := []
      members := (appFiles "8d1f").map (memberRecord appSha), packageDigest := none } := by
  have hmembers : sortOn Member.path ((appFiles "8d1f").map (memberRecord appSha)) =
      (appFiles "8d1f").map (memberRecord appSha) := sortOn_of_pairwise (by decide)
  have hmodules : sortOn CertModule.name ([appState].map (moduleEntry appSha appRoot)) =
      [moduleEntry appSha appRoot appState] := sortOn_of_pairwise (List.pairwise_singleton _ _)
  have hcertifiers : sortOn CertificateId.recognition [] = [] := sortOn_of_pairwise List.Pairwise.nil
  unfold appIndex assembleIndex
  rw [hmembers, hmodules, hcertifiers]
  rfl

theorem length_appSha (bytes : Bytes) : (appSha bytes).utf8ByteSize = 64 := by
  unfold appSha
  split
  · decide
  split
  · decide
  split <;> decide

theorem app_read_back :
    parseIndex (canonical (appIndex "8d1f")) = .ok (appIndex "8d1f") ∧
      parseIndex (canonicalPreDigest (appIndex "8d1f")) = .ok (appIndex "8d1f").digestFree := by
  have happ : Assembled appSha (appIndex "8d1f") := assembled_appIndex (by decide)
  have h := index_read_back happ
  have hpaths : ShortPaths (appIndex "8d1f") := shortPaths_appIndex.mpr (by decide)
  have hweight : weight (preDigestTree (appIndex "8d1f")) ≤ 10000 := by
    rw [appIndex_eq]
    decide
  have hpre := length_canonicalPreDigest_le (appIndex "8d1f")
  have hlen := length_canonical (appIndex "8d1f")
  rw [happ.digest, jstrOrNull] at hlen
  have hdigest := length_jstr_le (appSha (canonicalPreDigest (appIndex "8d1f")))
  rw [length_appSha] at hdigest
  have hmax : 20000 ≤ INDEX_MAX_BYTES := by decide
  exact ⟨h.1.mpr ⟨by omega, hpaths⟩, h.2.1.mpr ⟨by omega, hpaths⟩⟩

def deepProof : String := String.join (List.replicate 256 "a/")

/-- An index the assembler builds and the reader refuses: a proof lies too deep. -/
theorem deep_path_refused :
    Assembled appSha (appIndex deepProof) ∧
      parseIndex (canonical (appIndex deepProof)) ≠ .ok (appIndex deepProof) := by
  have h : Assembled appSha (appIndex deepProof) := assembled_appIndex (by decide)
  refine ⟨h, fun hread => ?_⟩
  have hpaths := shortPaths_appIndex.mp ((parseIndex_canonical h).mp hread).2
  have hlong : ¬ ("proofs/App/" ++ deepProof ++ "/proof.lean").utf8ByteSize ≤ MEMBER_PATH_MAX := by
    decide +kernel
  exact hlong hpaths

end Cert

end Tyu

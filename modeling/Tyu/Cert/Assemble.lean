import Tyu.Cert.Index

/-! # Assembling the certification index -/

namespace Tyu

open Lib Lib.Json

namespace Cert

def isWhiteSpace (c : Char) : Bool :=
  (0x09 ≤ c.toNat && c.toNat ≤ 0x0D) || c.toNat == 0x20 || c.toNat == 0x85 || c.toNat == 0xA0 ||
    c.toNat == 0x1680 || (0x2000 ≤ c.toNat && c.toNat ≤ 0x200A) || c.toNat == 0x2028 ||
    c.toNat == 0x2029 || c.toNat == 0x202F || c.toNat == 0x205F || c.toNat == 0x3000

def trim (s : String) : String :=
  String.ofList ((s.toList.dropWhile isWhiteSpace).reverse.dropWhile isWhiteSpace).reverse

def bump (kind : String) : List (String × UInt32) → List (String × UInt32)
  | [] => [(kind, 1)]
  | (k, n) :: rest =>
    if kind < k then (kind, 1) :: (k, n) :: rest
    else if kind = k then (k, n + 1) :: rest
    else (k, n) :: bump kind rest

def claimsStep (c : Claims) (o : Manifest.Obligation) : Claims :=
  let label := trim o.intent.label
  { kinds := bump o.kind.asStr c.kinds
    intents :=
      if o.intent.authored ∧ label ≠ "" ∧ label ∉ c.intents then c.intents ++ [label]
      else c.intents }

def claimsFrom (set : Manifest.OblSet) : Claims :=
  let c := set.obligations.foldl claimsStep {}
  { c with intents := c.intents.mergeSort fun a b => !decide (b < a) }

/-- A module with verification state: its summary, its obligation artifact when the build has
one, and the verdicts document that goes into the package. -/
structure ModuleState where
  name : String
  target : String
  model : String
  counts : Counts
  candidateRatio : UInt16
  obl : Option (Bytes × Manifest.OblSet)
  verdicts : Bytes

/-- The root module's bytes are the image, and only they are shipped on their own. -/
structure RootModule where
  name : String
  imageBytes : Bytes
  manifestDigest : Option String

structure StagedMember where
  rel : String
  bytes : Bytes

inductive DeployVerifyPolicy where
  | openOk | noOpen | proven

def deployPolicyStr : DeployVerifyPolicy → String
  | .openOk => "open-ok"
  | .noOpen => "no-open"
  | .proven => "proven"

variable (sha : Bytes → String)

def moduleEntry (root : RootModule) (m : ModuleState) : CertModule :=
  let isRoot := m.name = root.name
  { name := m.name
    moduleDigest := if isRoot then some (sha root.imageBytes) else none
    manifestDigest := if isRoot then root.manifestDigest else none
    oblDigest := (m.obl.map fun o => sha o.1).getD ""
    verdictsDigest := sha m.verdicts
    target := (m.obl.map fun o => o.2.target).getD m.target
    model := (m.obl.map fun o => o.2.modelSemantics).getD m.model
    counts := m.counts
    candidateRatio := m.candidateRatio
    claims := (m.obl.map fun o => claimsFrom o.2).getD {} }

def memberRecord (m : StagedMember) : Member :=
  ⟨m.rel, sha m.bytes, m.bytes.length.toUInt64⟩

def sortOn {α : Type} (key : α → String) (xs : List α) : List α :=
  xs.mergeSort fun a b => !decide (key b < key a)

def CertIndex.withDigest (index : CertIndex) : CertIndex :=
  { index with packageDigest := some (sha (canonicalPreDigest index)) }

def assembleIndex (imageName : String) (root : RootModule) (policy : DeployVerifyPolicy)
    (states : List ModuleState) (certifiers : List CertificateId) (staged : List StagedMember) :
    CertIndex :=
  CertIndex.withDigest sha
    { schema := CERT_SCHEMA
      imageName
      imageFingerprint := sha root.imageBytes
      semantics := SEMANTICS_VERSION
      stmt := STMT_SCHEMA
      policy := deployPolicyStr policy
      modules := sortOn CertModule.name (states.map (moduleEntry sha root))
      certifiers := (sortOn CertificateId.recognition certifiers).destutter
        fun a b => a.recognition ≠ b.recognition
      members := sortOn Member.path (staged.map (memberRecord sha))
      packageDigest := none }

/-! ## Order -/

structure Claims.Ordered (c : Claims) : Prop where
  kinds : c.kinds.Pairwise fun a b => a.1 < b.1
  intents : c.intents.Pairwise (· < ·)

structure Assembled (index : CertIndex) : Prop where
  schema : index.schema = CERT_SCHEMA
  modules : index.modules.Pairwise fun a b => a.name < b.name
  claims : ∀ m ∈ index.modules, m.claims.Ordered
  members : index.members.Pairwise fun a b => a.path < b.path
  sizes : ∀ m ∈ index.members, m.size.toNat < 2 ^ 63
  digest : index.packageDigest = some (sha (canonicalPreDigest index))

theorem sortOn_perm {α : Type} (key : α → String) (xs : List α) : (sortOn key xs).Perm xs :=
  List.mergeSort_perm _ _

theorem sortOn_of_pairwise {α : Type} {key : α → String} {xs : List α}
    (h : xs.Pairwise fun a b => key a < key b) : sortOn key xs = xs :=
  List.mergeSort_of_pairwise (h.imp fun {a b} hab => by simp [String.lt_asymm hab])

theorem sortOn_pairwise {α : Type} {key : α → String} {xs : List α} (h : (xs.map key).Nodup) :
    (sortOn key xs).Pairwise fun a b => key a < key b := by
  have hsorted : (sortOn key xs).Pairwise fun a b => (!decide (key b < key a)) = true := by
    refine List.pairwise_mergeSort ?_ ?_ xs
    · intro a b c hab hbc
      simp only [Bool.not_eq_true', decide_eq_false_iff_not, String.not_lt] at hab hbc ⊢
      exact String.le_trans hab hbc
    · intro a b
      simp only [Bool.or_eq_true, Bool.not_eq_true', decide_eq_false_iff_not, String.not_lt]
      exact String.le_total _ _
  have hne : (sortOn key xs).Pairwise fun a b => key a ≠ key b := by
    have hnodup : ((sortOn key xs).map key).Nodup := ((sortOn_perm key xs).map key).nodup_iff.mpr h
    exact List.pairwise_map.mp hnodup
  refine (hsorted.and hne).imp fun {a b} hab => ?_
  have hle := hab.1
  simp only [Bool.not_eq_true', decide_eq_false_iff_not, not_lt] at hle
  exact lt_of_le_of_ne hle hab.2

theorem bump_keys {kind : String} {kinds : List (String × UInt32)} {k : String × UInt32}
    (h : k ∈ bump kind kinds) : k.1 = kind ∨ ∃ k' ∈ kinds, k'.1 = k.1 := by
  induction kinds with
  | nil =>
    rw [bump, List.mem_singleton] at h
    exact .inl (by rw [h])
  | cons k' kinds ih =>
    rw [bump] at h
    split at h
    · rcases List.mem_cons.mp h with rfl | h
      · exact .inl rfl
      · exact .inr ⟨k, h, rfl⟩
    split at h
    · rcases List.mem_cons.mp h with rfl | h
      · exact .inr ⟨k', List.mem_cons_self .., rfl⟩
      · exact .inr ⟨k, List.mem_cons_of_mem _ h, rfl⟩
    · rcases List.mem_cons.mp h with rfl | h
      · exact .inr ⟨_, List.mem_cons_self .., rfl⟩
      · rcases ih h with h | ⟨k'', hk'', heq⟩
        · exact .inl h
        · exact .inr ⟨k'', List.mem_cons_of_mem _ hk'', heq⟩

theorem bump_pairwise (kind : String) {kinds : List (String × UInt32)}
    (h : kinds.Pairwise fun a b => a.1 < b.1) :
    (bump kind kinds).Pairwise fun a b => a.1 < b.1 := by
  induction kinds with
  | nil => exact List.pairwise_singleton _ _
  | cons k kinds ih =>
    obtain ⟨hhead, htail⟩ := List.pairwise_cons.mp h
    rw [bump]
    split
    next hlt =>
      refine List.pairwise_cons.mpr ⟨fun k' hk' => ?_, h⟩
      rcases List.mem_cons.mp hk' with rfl | hk'
      · exact hlt
      · exact lt_trans hlt (hhead k' hk')
    next hnlt =>
      split
      next => exact List.pairwise_cons.mpr ⟨hhead, htail⟩
      next hne =>
        refine List.pairwise_cons.mpr ⟨fun k' hk' => ?_, ih htail⟩
        rcases bump_keys hk' with heq | ⟨k'', hk'', heq⟩
        · rw [heq]
          exact lt_of_le_of_ne (not_lt.mp hnlt) (Ne.symm hne)
        · rw [← heq]
          exact hhead k'' hk''

theorem claimsStep_ordered {c : Claims} (o : Manifest.Obligation)
    (h : (c.kinds.Pairwise fun a b => a.1 < b.1) ∧ c.intents.Nodup) :
    ((claimsStep c o).kinds.Pairwise fun a b => a.1 < b.1) ∧ (claimsStep c o).intents.Nodup := by
  refine ⟨bump_pairwise _ h.1, ?_⟩
  unfold claimsStep
  dsimp only
  split
  next hnew =>
    refine List.nodup_append.mpr ⟨h.2, List.nodup_singleton _, fun a ha b hb => ?_⟩
    rw [List.mem_singleton.mp hb]
    exact ne_of_mem_of_not_mem ha hnew.2.2
  next => exact h.2

theorem claimsFrom_ordered (set : Manifest.OblSet) : (claimsFrom set).Ordered := by
  have hrun : ∀ (os : List Manifest.Obligation) (c : Claims),
      (c.kinds.Pairwise fun a b => a.1 < b.1) ∧ c.intents.Nodup →
      ((os.foldl claimsStep c).kinds.Pairwise fun a b => a.1 < b.1) ∧
        (os.foldl claimsStep c).intents.Nodup := by
    intro os
    induction os with
    | nil => exact fun c h => h
    | cons o os ih => exact fun c h => ih _ (claimsStep_ordered o h)
  obtain ⟨hkinds, hintents⟩ := hrun set.obligations {} ⟨List.Pairwise.nil, List.nodup_nil⟩
  exact ⟨hkinds, @sortOn_pairwise _ id _ (by rwa [List.map_id])⟩

theorem moduleEntry_ordered (root : RootModule) (m : ModuleState) :
    (moduleEntry sha root m).claims.Ordered := by
  show ((m.obl.map fun o => claimsFrom o.2).getD {}).Ordered
  cases m.obl with
  | none => exact ⟨List.Pairwise.nil, List.Pairwise.nil⟩
  | some o => exact claimsFrom_ordered o.2

theorem assembled_assembleIndex (imageName : String) (root : RootModule)
    (policy : DeployVerifyPolicy) {states : List ModuleState} (certifiers : List CertificateId)
    {staged : List StagedMember} (hnames : (states.map ModuleState.name).Nodup)
    (hpaths : (staged.map StagedMember.rel).Nodup)
    (hsizes : ∀ m ∈ staged, m.bytes.length < 2 ^ 63) :
    Assembled sha (assembleIndex sha imageName root policy states certifiers staged) where
  schema := rfl
  modules := by
    refine sortOn_pairwise ?_
    rw [List.map_map]
    exact hnames
  claims := by
    intro m hm
    obtain ⟨state, _, rfl⟩ := List.mem_map.mp ((sortOn_perm _ _).mem_iff.mp hm)
    exact moduleEntry_ordered sha root state
  members := by
    refine sortOn_pairwise ?_
    rw [List.map_map]
    exact hpaths
  sizes := by
    intro m hm
    obtain ⟨s, hs, rfl⟩ := List.mem_map.mp ((sortOn_perm _ _).mem_iff.mp hm)
    have hlen := hsizes s hs
    show (s.bytes.length.toUInt64).toNat < 2 ^ 63
    rw [Nat.toUInt64, UInt64.toNat_ofNat']
    exact lt_of_le_of_lt (Nat.mod_le _ _) hlen
  digest := rfl

end Cert

end Tyu

import Tyu.Lib.Wire
import Tyu.Proof.LeanPackage
import Tyu.Verifier.Refinements

/-!
# The names of verdict slots

Verdicts are cached under a name made of the module, the fingerprint of its inputs and everything
else they are said to depend on: versions, the toolchain pin, the model and its refinements, the
concurrency declaration and the developer's proofs.
-/

namespace Tyu.VerdictSlots

open Lib Lib.Json Summary Refinements
open Lib.Wire (put16 put32)

/-! ## What a slot depends on -/

def refinementDeclsSerialization (decls : List DeviceRefinement) : Bytes :=
  decls.flatMap fun r =>
    utf8 r.register ++ [0] ++ utf8 r.refinement ++ [0] ++ put16 r.width ++ put32 r.mask ++ [0] ++
      utf8 r.mode ++ [0]

/-- A file under `proofs/`: the directories on the way to it, its name and its bytes. -/
structure ProofFile where
  dirs : List Bytes
  name : Bytes
  content : Bytes
  readable : Bool
deriving DecidableEq

namespace ProofFile

def rel (f : ProofFile) : String := (toStr f.name).getD "?"

def read (f : ProofFile) : Option Bytes := if f.readable then some f.content else none

def contentHash (f : ProofFile) : UInt64 :=
  match f.read with
  | some data => fnv1a64 data
  | none => 0

end ProofFile

/-- The files under `proofs/`, in the order in which the directories list them. -/
structure ProofsTree where
  files : List ProofFile
  distinct : (files.map fun f => (f.dirs, f.name)).Nodup

namespace ProofsTree

def top (t : ProofsTree) : List ProofFile := t.files.filter fun f => f.dirs = []

def items (t : ProofsTree) : List (String × UInt64) := t.top.map fun f => (f.rel, f.contentHash)

def proofFilesHash (t : ProofsTree) : UInt64 := LeanPackage.Inputs.foldItems t.items

end ProofsTree

structure Environment where
  semantics : String
  stmt : String
  toolchainPin : Bytes
  modelId : String
  refinements : List DeviceRefinement
  concurrency : String
  proofs : ProofsTree

def Environment.compute (e : Environment) : VerifyEnvKey where
  semantics := e.semantics
  stmt := e.stmt
  toolchainHash := fnv1a64 e.toolchainPin
  modelId := e.modelId
  refinementsHash := fnv1a64 (refinementDeclsSerialization e.refinements)
  concurrencyHash := fnv1a64 (utf8 e.concurrency)
  proofFilesHash := e.proofs.proofFilesHash

structure Slot where
  module : String
  inputsFp : UInt64
  env : Environment

def Slot.name (s : Slot) : String := verdictsSlotName s.module s.inputsFp s.env.compute

def splitOnce (c : Char) (s : List Char) : List Char × Option (List Char) :=
  match s.dropWhile (· ≠ c) with
  | [] => (s, none)
  | _ :: rest => (s.takeWhile (· ≠ c), some rest)

/-- The module and the fingerprint of a name: its first two parts between dashes. -/
def parseAnyVerdictsName (name : String) : Option (String × UInt64) := do
  let stem ← stripSuffix ".verdicts.json".toList name.toList
  let (module, rest) := splitOnce '-' stem
  let fp := (splitOnce '-' (← rest)).1
  if fp.length ≠ 16 ∨ ¬ fp.all (fun c => (hexValue c).isSome) then none
  let inputsFp ← fromStrRadix16 fp
  some (String.ofList module, UInt64.ofNat inputsFp)

def isIdentStart (c : Char) : Bool := c.isAlpha || c == '_' || c == '@' || c == '!'

def isIdentContinue (c : Char) : Bool :=
  isIdentStart c || c.isDigit || c == '-' || c == '?' || c == '!'

def KEYWORDS : List String :=
  ["module", "import", "export", "end", "type", "subtype", "struct", "enum", "const", "resource",
    "register-map", "owned", "iso", "requires", "ensures", "needs", "performs", "board"]

/-- A word that is read as one identifier.  There are a few more: they begin with an operator. -/
def isIdent (s : List Char) : Bool :=
  match s with
  | [] => false
  | c :: rest => isIdentStart c && rest.all isIdentContinue && !KEYWORDS.contains (String.ofList s)

def isModuleName (s : List Char) : Bool := (s.splitOn '/').all isIdent

theorem hexValue_digitChar {d : Nat} (h : d < 16) : hexValue d.digitChar = some d := by
  have hall : ∀ d : Fin 16, hexValue (Nat.digitChar d.val) = some d.val := by decide
  exact hall ⟨d, h⟩

theorem foldlM_zeros (k : Nat) : (List.replicate k '0').foldlM pushHexDigit 0 = some 0 := by
  induction k with
  | zero => rfl
  | succ k ih =>
    rw [List.replicate_succ, List.foldlM_cons]
    exact ih

theorem foldlM_toDigits (n : Nat) (h : n < 2 ^ 64) :
    (Nat.toDigits 16 n).foldlM pushHexDigit 0 = some n := by
  induction n using Nat.strongRecOn with
  | ind n ih =>
    by_cases hsmall : n < 16
    · rw [Nat.toDigits_of_lt_base hsmall, List.foldlM_cons, pushHexDigit,
        hexValue_digitChar hsmall]
      simpa using h
    · have hquot : n / 16 < n := by omega
      rw [Nat.toDigits_of_base_le (by decide) (by omega), List.foldlM_append,
        ih (n / 16) hquot (by omega)]
      show (List.foldlM pushHexDigit (n / 16) [(n % 16).digitChar]) = some n
      rw [List.foldlM_cons, pushHexDigit, hexValue_digitChar (Nat.mod_lt n (by decide))]
      have hback : n / 16 * 16 + n % 16 = n := by omega
      simpa [hback] using h

theorem hexValue_of_mem_toDigits {n : Nat} {c : Char} (h : c ∈ Nat.toDigits 16 n) :
    (hexValue c).isSome = true := by
  induction n using Nat.strongRecOn with
  | ind n ih =>
    by_cases hsmall : n < 16
    · rw [Nat.toDigits_of_lt_base hsmall, List.mem_singleton] at h
      rw [h, hexValue_digitChar hsmall]
      rfl
    · rw [Nat.toDigits_of_base_le (by decide) (by omega), List.mem_append,
        List.mem_singleton] at h
      rcases h with h | h
      · exact ih (n / 16) (by omega) h
      · rw [h, hexValue_digitChar (Nat.mod_lt n (by decide))]
        rfl

theorem toList_hex16 (n : UInt64) : (hex16 n).toList =
    List.replicate (16 - (Nat.toDigits 16 n.toNat).length) '0' ++ Nat.toDigits 16 n.toNat := by
  rw [hex16, String.toList_ofList]

theorem length_hex16 (n : UInt64) : (hex16 n).toList.length = 16 := by
  have hle : (Nat.toDigits 16 n.toNat).length ≤ 16 :=
    Nat.toDigits_length 16 n.toNat 16 (by decide) (by have := n.toNat_lt; omega)
  rw [toList_hex16, List.length_append, List.length_replicate]
  omega

theorem hexValue_of_mem_hex16 {n : UInt64} {c : Char} (h : c ∈ (hex16 n).toList) :
    (hexValue c).isSome = true := by
  rw [toList_hex16, List.mem_append] at h
  rcases h with h | h
  · rw [(List.mem_replicate.mp h).2]
    decide
  · exact hexValue_of_mem_toDigits h

theorem fromStrRadix16_hex16 (n : UInt64) :
    fromStrRadix16 (hex16 n).toList = some n.toNat := by
  have hne : (hex16 n).toList ≠ [] := by
    intro h
    have := length_hex16 n
    rw [h] at this
    cases this
  have hplus : (hex16 n).toList.head? ≠ some '+' := by
    intro h
    have := hexValue_of_mem_hex16 (List.mem_of_mem_head? h)
    revert this
    decide
  rw [fromStrRadix16, if_neg hplus, if_neg hne, toList_hex16, List.foldlM_append, foldlM_zeros]
  exact foldlM_toDigits n.toNat n.toNat_lt

theorem hex16_inj {a b : UInt64} : hex16 a = hex16 b ↔ a = b := by
  constructor
  · intro h
    have hnat : some a.toNat = some b.toNat := by
      rw [← fromStrRadix16_hex16, ← fromStrRadix16_hex16, h]
    exact UInt64.toNat_inj.mp (Option.some.inj hnat)
  · intro h
    rw [h]

theorem stripSuffix_append (suffix s : List Char) : stripSuffix suffix (s ++ suffix) = some s := by
  rw [stripSuffix, if_pos (by rw [List.isSuffixOf_iff_suffix]; exact List.suffix_append s suffix),
    List.length_append, Nat.add_sub_cancel, List.take_left]

theorem splitOnce_append {c : Char} {s : List Char} (h : c ∉ s) (rest : List Char) :
    splitOnce c (s ++ c :: rest) = (s, some rest) := by
  have hne : ∀ d ∈ s, decide (d ≠ c) = true := fun d hd =>
    decide_eq_true fun e => h (e ▸ hd)
  have hdrop : (s ++ c :: rest).dropWhile (· ≠ c) = c :: rest := by
    rw [List.dropWhile_append_of_pos hne]
    simp
  have htake : (s ++ c :: rest).takeWhile (· ≠ c) = s := by
    rw [List.takeWhile_append_of_pos hne]
    simp
  rw [splitOnce, hdrop, htake]

theorem not_mem_splitOnce (c : Char) (s : List Char) : c ∉ (splitOnce c s).1 := by
  unfold splitOnce
  split
  · rename_i hdrop
    intro hmem
    have hall := List.dropWhile_eq_nil_iff.mp hdrop c hmem
    simp at hall
  · intro hmem
    have hhere := List.mem_takeWhile_imp hmem
    simp at hhere

def Environment.idText (e : Environment) : List Char :=
  (sanitizeComponent e.semantics).toList ++ "-stmt-".toList ++
    (sanitizeComponent e.stmt).toList ++ "-tc-".toList ++ (hex16 (fnv1a64 e.toolchainPin)).toList ++
    "-model-".toList ++ (sanitizeComponent e.modelId).toList

theorem toList_slug (e : Environment) : e.compute.slug.toList =
    "-sem-".toList ++ (e.idText ++ ("-ref-".toList ++
      ((hex16 (fnv1a64 (refinementDeclsSerialization e.refinements))).toList ++ ("-conc-".toList ++
        ((hex16 (fnv1a64 (utf8 e.concurrency))).toList ++ ("-proofs-".toList ++
          (hex16 e.proofs.proofFilesHash).toList)))))) := by
  unfold VerifyEnvKey.slug Environment.idText
  simp only [String.toList_append, List.append_assoc, Environment.compute]

theorem toList_name (s : Slot) : s.name.toList =
    (s.module.toList ++ '-' :: ((hex16 s.inputsFp).toList ++ s.env.compute.slug.toList)) ++
      ".verdicts.json".toList := by
  have hdash : "-".toList = ['-'] := toList_of_ofList rfl
  simp only [Slot.name, verdictsSlotName, String.toList_append, hdash, List.append_assoc,
    List.cons_append, List.nil_append]

theorem parseAnyVerdictsName_name (s : Slot) :
    parseAnyVerdictsName s.name = some (s.module, s.inputsFp) ↔ '-' ∉ s.module.toList := by
  constructor
  · intro h hdash
    simp only [parseAnyVerdictsName, Option.bind_eq_bind, Option.bind_eq_some_iff] at h
    obtain ⟨stem, -, rest, -, h⟩ := h
    split at h
    · cases h
    · obtain ⟨fp, -, h⟩ := Option.bind_eq_some_iff.mp h
      have hmodule : String.ofList (splitOnce '-' stem).1 = s.module :=
        congrArg Prod.fst (Option.some.inj h)
      rw [← hmodule, String.toList_ofList] at hdash
      exact not_mem_splitOnce '-' stem hdash
  · intro hdash
    have hfp : '-' ∉ (hex16 s.inputsFp).toList := by
      intro h
      have := hexValue_of_mem_hex16 h
      revert this
      decide
    have hslug : ∃ tail, s.env.compute.slug.toList = '-' :: tail := by
      have hsem : "-sem-".toList = ['-', 's', 'e', 'm', '-'] := toList_of_ofList rfl
      exact ⟨_, by rw [toList_slug, hsem]; rfl⟩
    obtain ⟨tail, htail⟩ := hslug
    have hall : (hex16 s.inputsFp).toList.all (fun c => (hexValue c).isSome) = true :=
      List.all_eq_true.mpr fun c hc => hexValue_of_mem_hex16 hc
    have hfits : ¬ ((hex16 s.inputsFp).toList.length ≠ 16 ∨
        ¬ (hex16 s.inputsFp).toList.all (fun c => (hexValue c).isSome) = true) := by
      rintro (h | h)
      · exact h (length_hex16 _)
      · exact h hall
    simp only [parseAnyVerdictsName, toList_name, stripSuffix_append, splitOnce_append hdash,
      htail, splitOnce_append hfp, Option.bind_eq_bind, Option.bind_some, if_neg hfits,
      fromStrRadix16_hex16, String.ofList_toList, UInt64.ofNat_toNat]

/-! ## What two equal names say -/

structure Same (s t : Slot) : Prop where
  module : s.module = t.module
  inputsFp : s.inputsFp = t.inputsFp
  semantics : s.env.semantics = t.env.semantics
  stmt : s.env.stmt = t.env.stmt
  toolchainPin : s.env.toolchainPin = t.env.toolchainPin
  modelId : s.env.modelId = t.env.modelId
  refinements : s.env.refinements = t.env.refinements
  concurrency : s.env.concurrency = t.env.concurrency
  proofs : s.env.proofs.files.Perm t.env.proofs.files

/-- What of a file at the top of `proofs/` goes into a name. -/
def ProofFile.shown (f : ProofFile) : String × Option Bytes := (f.rel, f.read)

/-- The two slots are the same as far as their names show: slashes of the ids read as
underscores, the refinements only as they are serialized, and the proofs only at the top of
their directory, under the names and with the bytes that can be read. -/
structure Alike (s t : Slot) : Prop where
  module : s.module = t.module
  inputsFp : s.inputsFp = t.inputsFp
  ids : s.env.idText = t.env.idText
  refinements : refinementDeclsSerialization s.env.refinements =
    refinementDeclsSerialization t.env.refinements
  concurrency : s.env.concurrency = t.env.concurrency
  proofs : (s.env.proofs.top.map ProofFile.shown).Perm (t.env.proofs.top.map ProofFile.shown)

structure CollisionFree (s t : Slot) : Prop where
  refinements : fnv1a64 (refinementDeclsSerialization s.env.refinements) =
      fnv1a64 (refinementDeclsSerialization t.env.refinements) →
    refinementDeclsSerialization s.env.refinements =
      refinementDeclsSerialization t.env.refinements
  concurrency : fnv1a64 (utf8 s.env.concurrency) = fnv1a64 (utf8 t.env.concurrency) →
    s.env.concurrency = t.env.concurrency
  contents : ∀ f ∈ s.env.proofs.top, ∀ g ∈ t.env.proofs.top,
    f.contentHash = g.contentHash → f.read = g.read
  proofs : s.env.proofs.proofFilesHash = t.env.proofs.proofFilesHash →
    s.env.proofs.items.Perm t.env.proofs.items

theorem keyLe_trans (a b c : String × UInt64) (hab : LeanPackage.Inputs.keyLe a b = true)
    (hbc : LeanPackage.Inputs.keyLe b c = true) : LeanPackage.Inputs.keyLe a c = true := by
  simp only [LeanPackage.Inputs.keyLe, decide_eq_true_eq] at hab hbc ⊢
  rcases hab with hab | ⟨hab, hle⟩ <;> rcases hbc with hbc | ⟨hbc, hle'⟩
  · exact .inl (lt_trans hab hbc)
  · exact .inl (hbc ▸ hab)
  · exact .inl (hab ▸ hbc)
  · exact .inr ⟨hab.trans hbc, UInt64.le_trans hle hle'⟩

theorem keyLe_total (a b : String × UInt64) :
    (LeanPackage.Inputs.keyLe a b || LeanPackage.Inputs.keyLe b a) = true := by
  simp only [LeanPackage.Inputs.keyLe, Bool.or_eq_true, decide_eq_true_eq]
  rcases lt_trichotomy a.1 b.1 with h | h | h
  · exact .inl (.inl h)
  · rcases UInt64.le_total a.2 b.2 with h' | h'
    · exact .inl (.inr ⟨h, h'⟩)
    · exact .inr (.inr ⟨h.symm, h'⟩)
  · exact .inr (.inl h)

theorem keyLe_antisymm (a b : String × UInt64) (hab : LeanPackage.Inputs.keyLe a b = true)
    (hba : LeanPackage.Inputs.keyLe b a = true) : a = b := by
  simp only [LeanPackage.Inputs.keyLe, decide_eq_true_eq] at hab hba
  rcases hab with hab | ⟨hab, hle⟩ <;> rcases hba with hba | ⟨hba, hle'⟩
  · exact absurd hba (lt_asymm hab)
  · exact absurd hba.symm (ne_of_lt hab)
  · exact absurd hab.symm (ne_of_lt hba)
  · exact Prod.ext hab (UInt64.le_antisymm hle hle')

theorem foldItems_perm {l m : List (String × UInt64)} (h : l.Perm m) :
    LeanPackage.Inputs.foldItems l = LeanPackage.Inputs.foldItems m := by
  have hsort : l.mergeSort LeanPackage.Inputs.keyLe = m.mergeSort LeanPackage.Inputs.keyLe := by
    refine List.Perm.eq_of_pairwise ?_ (List.pairwise_mergeSort keyLe_trans keyLe_total l)
      (List.pairwise_mergeSort keyLe_trans keyLe_total m)
      (((List.mergeSort_perm l _).trans h).trans (List.mergeSort_perm m _).symm)
    intro a b _ _ hab hba
    exact keyLe_antisymm a b hab hba
  rw [LeanPackage.Inputs.foldItems, LeanPackage.Inputs.foldItems, hsort]

/-- Where equal images under one map mean equal images under another, the same holds of lists
up to their order. -/
theorem map_perm_of_map_perm {α β γ : Type} [DecidableEq α] {φ : α → β} {ψ : α → γ} {l m : List α}
    (hφ : ∀ a ∈ l, ∀ b ∈ m, φ a = φ b → ψ a = ψ b) (h : (l.map φ).Perm (m.map φ)) :
    (l.map ψ).Perm (m.map ψ) := by
  induction l generalizing m with
  | nil =>
    have hnil : m = [] := List.map_eq_nil_iff.mp (List.nil_perm.mp h)
    rw [hnil]
  | cons a l ih =>
    have hmem : φ a ∈ m.map φ := h.mem_iff.mp List.mem_cons_self
    obtain ⟨b, hb, hba⟩ := List.mem_map.mp hmem
    have hm := List.perm_cons_erase hb
    have hrest : (l.map φ).Perm ((m.erase b).map φ) := by
      have hall := h.trans (hm.map φ)
      rw [List.map_cons, List.map_cons, hba] at hall
      exact hall.cons_inv
    have hψ := ih (fun c hc d hd => hφ c (List.mem_cons_of_mem a hc) d (List.mem_of_mem_erase hd))
      hrest
    rw [List.map_cons, hφ a List.mem_cons_self b hb hba.symm]
    exact (hψ.cons (ψ b)).trans (hm.map ψ).symm

theorem shown_perm_iff {s t : Slot} (hfree : CollisionFree s t) :
    s.env.proofs.proofFilesHash = t.env.proofs.proofFilesHash ↔
      (s.env.proofs.top.map ProofFile.shown).Perm (t.env.proofs.top.map ProofFile.shown) := by
  constructor
  · intro h
    have hshown : ∀ f ∈ s.env.proofs.top, ∀ g ∈ t.env.proofs.top,
        (f.rel, f.contentHash) = (g.rel, g.contentHash) → f.shown = g.shown :=
      fun f hf g hg hfg => Prod.ext (Prod.ext_iff.mp hfg).1
        (hfree.contents f hf g hg (Prod.ext_iff.mp hfg).2)
    exact map_perm_of_map_perm hshown (hfree.proofs h)
  · intro h
    have hitem : ∀ f ∈ s.env.proofs.top, ∀ g ∈ t.env.proofs.top,
        f.shown = g.shown → (f.rel, f.contentHash) = (g.rel, g.contentHash) := by
      intro f _ g _ hfg
      have hread : f.read = g.read := (Prod.ext_iff.mp hfg).2
      refine Prod.ext (Prod.ext_iff.mp hfg).1 ?_
      show f.contentHash = g.contentHash
      rw [ProofFile.contentHash, ProofFile.contentHash, hread]
    exact foldItems_perm (map_perm_of_map_perm hitem h)

theorem slug_eq_iff (d e : Environment) : d.compute.slug = e.compute.slug ↔
    d.idText = e.idText ∧
      fnv1a64 (refinementDeclsSerialization d.refinements) =
        fnv1a64 (refinementDeclsSerialization e.refinements) ∧
      fnv1a64 (utf8 d.concurrency) = fnv1a64 (utf8 e.concurrency) ∧
      d.proofs.proofFilesHash = e.proofs.proofFilesHash := by
  rw [← String.toList_inj, toList_slug, toList_slug, List.append_right_inj]
  have hlen : ∀ a b : UInt64, (hex16 a).toList.length = (hex16 b).toList.length := fun a b => by
    rw [length_hex16, length_hex16]
  have htail : ∀ a b c a' b' c' : UInt64,
      ("-ref-".toList ++ ((hex16 a).toList ++ ("-conc-".toList ++ ((hex16 b).toList ++
        ("-proofs-".toList ++ (hex16 c).toList))))).length =
      ("-ref-".toList ++ ((hex16 a').toList ++ ("-conc-".toList ++ ((hex16 b').toList ++
        ("-proofs-".toList ++ (hex16 c').toList))))).length := by
    intro a b c a' b' c'
    simp only [List.length_append, length_hex16]
  constructor
  · intro h
    obtain ⟨hids, h⟩ := List.append_inj' h (htail _ _ _ _ _ _)
    obtain ⟨href, h⟩ := List.append_inj (List.append_cancel_left h) (hlen _ _)
    obtain ⟨hconc, h⟩ := List.append_inj (List.append_cancel_left h) (hlen _ _)
    have hproofs := List.append_cancel_left h
    exact ⟨hids, hex16_inj.mp (String.toList_inj.mp href), hex16_inj.mp (String.toList_inj.mp hconc),
      hex16_inj.mp (String.toList_inj.mp hproofs)⟩
  · rintro ⟨hids, href, hconc, hproofs⟩
    rw [hids, href, hconc, hproofs]

theorem name_eq_iff {s t : Slot} (hs : '-' ∉ s.module.toList) (ht : '-' ∉ t.module.toList)
    (hfree : CollisionFree s t) : s.name = t.name ↔ Alike s t := by
  constructor
  · intro h
    have hparse : some (s.module, s.inputsFp) = some (t.module, t.inputsFp) := by
      rw [← (parseAnyVerdictsName_name s).mpr hs, ← (parseAnyVerdictsName_name t).mpr ht, h]
    obtain ⟨hmodule, hfp⟩ := Prod.ext_iff.mp (Option.some.inj hparse)
    simp only at hmodule hfp
    have hlist : s.name.toList = t.name.toList := congrArg String.toList h
    rw [toList_name, toList_name, hmodule, hfp] at hlist
    have hslug := List.append_cancel_left
      (List.cons.inj (List.append_cancel_left (List.append_cancel_right hlist))).2
    obtain ⟨hids, href, hconc, hproofs⟩ := (slug_eq_iff s.env t.env).mp (String.toList_inj.mp hslug)
    exact ⟨hmodule, hfp, hids, hfree.refinements href, hfree.concurrency hconc,
      (shown_perm_iff hfree).mp hproofs⟩
  · rintro ⟨hmodule, hfp, hids, href, hconc, hproofs⟩
    have hslug := (slug_eq_iff s.env t.env).mpr
      ⟨hids, congrArg fnv1a64 href, by rw [hconc], (shown_perm_iff hfree).mpr hproofs⟩
    rw [Slot.name, Slot.name, verdictsSlotName, verdictsSlotName, hmodule, hfp, hslug]

/-- The names of the two slots can be taken apart, and they are equal only for slots that
depend on the same. -/
def Named (s t : Slot) : Prop :=
  parseAnyVerdictsName s.name = some (s.module, s.inputsFp) ∧
    parseAnyVerdictsName t.name = some (t.module, t.inputsFp) ∧ (s.name = t.name → Same s t)

/-- Slots are named by what they depend on exactly when their modules have no dash and they do
not differ in what a name leaves out alone. -/
theorem slots_named_iff (s t : Slot) (hfree : CollisionFree s t) : Named s t ↔
    '-' ∉ s.module.toList ∧ '-' ∉ t.module.toList ∧ ¬ (Alike s t ∧ ¬ Same s t) := by
  rw [Named, parseAnyVerdictsName_name, parseAnyVerdictsName_name]
  constructor
  · rintro ⟨hs, ht, hsame⟩
    refine ⟨hs, ht, ?_⟩
    rintro ⟨halike, hdiff⟩
    exact hdiff (hsame ((name_eq_iff hs ht hfree).mpr halike))
  · rintro ⟨hs, ht, hshown⟩
    refine ⟨hs, ht, fun hname => ?_⟩
    by_contra hdiff
    exact hshown ⟨(name_eq_iff hs ht hfree).mp hname, hdiff⟩

/-- A slot of a module under a toolchain pin, with these files under `proofs/`. -/
def bankSlot (module : String) (pin : Bytes) (proofs : ProofsTree) : Slot where
  module := module
  inputsFp := 0x4d2
  env := {
    semantics := "tyu.ir-sem/1.0"
    stmt := "tyu.stmt/1"
    toolchainPin := pin
    modelId := "unmodeled"
    refinements := []
    concurrency := "unmodeled"
    proofs := proofs }

def candidate (content : Bytes) : ProofsTree where
  files := [⟨[utf8 "candidates"], utf8 "Bank.lean", content, true⟩]
  distinct := List.nodup_singleton _

theorem collisionFree_bank (module module' : String) (pin pin' v w : Bytes) :
    CollisionFree (bankSlot module pin (candidate v)) (bankSlot module' pin' (candidate w)) where
  refinements := fun _ => rfl
  concurrency := fun _ => rfl
  contents := fun _ hf => nomatch hf
  proofs := fun _ => .refl _

theorem slots_named_bank :
    CollisionFree (bankSlot "Bank" [0x34] (candidate [])) (bankSlot "Bank" [0x35] (candidate [])) ∧
      (Named (bankSlot "Bank" [0x34] (candidate [])) (bankSlot "Bank" [0x35] (candidate [])) ↔
        '-' ∉ "Bank".toList ∧ '-' ∉ "Bank".toList ∧
          ¬ (Alike (bankSlot "Bank" [0x34] (candidate [])) (bankSlot "Bank" [0x35] (candidate [])) ∧
            ¬ Same (bankSlot "Bank" [0x34] (candidate []))
              (bankSlot "Bank" [0x35] (candidate [])))) :=
  ⟨collisionFree_bank _ _ _ _ _ _, slots_named_iff _ _ (collisionFree_bank _ _ _ _ _ _)⟩

/-- A module with a dash in its name is not found again, and a candidate may be rewritten
without a new slot. -/
theorem candidate_not_named :
    (isModuleName "my-mod".toList = true ∧
      ¬ Named (bankSlot "my-mod" [] (candidate [])) (bankSlot "my-mod" [] (candidate []))) ∧
    (isModuleName "Bank".toList = true ∧
      CollisionFree (bankSlot "Bank" [] (candidate [1])) (bankSlot "Bank" [] (candidate [2])) ∧
      ¬ Named (bankSlot "Bank" [] (candidate [1])) (bankSlot "Bank" [] (candidate [2]))) := by
  have hmy : "my-mod".toList = ['m', 'y', '-', 'm', 'o', 'd'] := toList_of_ofList rfl
  have hbank : "Bank".toList = ['B', 'a', 'n', 'k'] := toList_of_ofList rfl
  have hfree := collisionFree_bank "Bank" "Bank" [] [] [1] [2]
  refine ⟨⟨by rw [hmy]; decide, ?_⟩, by rw [hbank]; decide, hfree, ?_⟩
  · rintro ⟨hparse, -, -⟩
    have hdash := (parseAnyVerdictsName_name _).mp hparse
    apply hdash
    show '-' ∈ "my-mod".toList
    rw [hmy]
    decide
  · rintro ⟨-, -, hsame⟩
    have hdash : '-' ∉ "Bank".toList := by
      rw [hbank]
      decide
    have hname := (name_eq_iff hdash hdash hfree).mpr ⟨rfl, rfl, rfl, rfl, rfl, .refl _⟩
    have hfiles := List.perm_singleton.mp (hsame hname).proofs
    revert hfiles
    simp [bankSlot, candidate]

end Tyu.VerdictSlots

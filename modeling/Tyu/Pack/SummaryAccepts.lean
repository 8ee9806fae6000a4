import Tyu.Pack.SummaryRoundTrip

/-!
# Summaries that are accepted

The reader looks at a member only when it is there: what is missing, and a certifier or counts
that are no objects, leave the value they started from.
-/

namespace Tyu

open Lib Lib.Json Manifest Summary

namespace SummaryReader

/-- A member of an object: its key, the first character of its value, and the value without the
quotes. -/
structure Member where
  key : String
  lead : Option Char
  value : List Char

def memberOf (pair : List Char) : Except String Member := do
  let pair := trim pair
  require (':' ∈ pair) "expected ':'"
  let raw := trim ((pair.dropWhile (· ≠ ':')).tail)
  let value ← parseValue raw
  pure ⟨word (unquote (trim (pair.takeWhile (· ≠ ':')))), raw.head?, value⟩

def objectMembers (text : List Char) : Except String (List Member) := do
  let text := trim text
  require (text.head? = some '\x7b') "expected '\x7b'"
  let (front, _) ← splitBalanced text '\x7b' '\x7d'
  let parts := (splitTopLevel front.tail ',').filter fun part => trim part ≠ []
  parts.mapM fun part => memberOf (trim part)

def Member.pair (m : Member) : List Char × List Char := (m.key.toList, m.value)

theorem parsePair_eq (pair : List Char) : parsePair pair = (memberOf pair).map Member.pair := by
  unfold parsePair memberOf
  dsimp only
  cases require (':' ∈ trim pair) "expected ':'" with
  | error e => rfl
  | ok u =>
    show (parseValue _ >>= fun value => _) = Except.map _ (parseValue _ >>= fun value => _)
    cases parseValue (trim ((trim pair).dropWhile (· ≠ ':')).tail) with
    | error e => rfl
    | ok value =>
      show Except.ok (_, value) = Except.ok (Member.pair _)
      unfold Member.pair word
      rw [String.toList_ofList]

theorem mapM_map_result {ε α β γ : Type} (f : α → Except ε β) (g : β → γ) (l : List α) :
    l.mapM (fun a => (f a).map g) = (l.mapM f).map (List.map g) := by
  induction l with
  | nil => rfl
  | cons a l ih =>
    rw [List.mapM_cons, List.mapM_cons, ih]
    cases f a with
    | error e => rfl
    | ok b => cases l.mapM f <;> rfl

theorem parseObject_eq (text : List Char) :
    parseObject text = (objectMembers text).map (List.map Member.pair) := by
  unfold parseObject objectMembers
  dsimp only
  cases require ((trim text).head? = some '\x7b') "expected '\x7b'" with
  | error e => rfl
  | ok u =>
    show (splitBalanced _ _ _ >>= fun p => _) = Except.map _ (splitBalanced _ _ _ >>= fun p => _)
    cases splitBalanced (trim text) '\x7b' '\x7d' with
    | error e => rfl
    | ok p =>
      show List.mapM _ _ = Except.map _ (List.mapM _ _)
      rw [← mapM_map_result]
      exact mapM_congr_of_mem fun part _ => parsePair_eq (trim part)

def lastValue (key : String) (ms : List Member) : Option (List Char) :=
  ms.foldl (fun found m => if m.key = key then some m.value else found) none

def objectAt (key : String) (ms : List Member) : Option (List Member) :=
  (lastValue key ms).bind fun value => (objectMembers value).toOption

/-! ## What is checked -/

def ObligationOk (ms : List Member) : Prop :=
  ∀ m ∈ ms, (m.key = "id_hash" → (parseUnsigned 64 m.value).isSome = true) ∧
    (m.key = "status" → (statusOf m.value).isSome = true) ∧
    (m.key = "trust" → (trustOf m.value).isSome = true) ∧
    (m.key = "statement_hash" → (parseHex32 m.value).isSome = true)

def ObligationsOk (text : List Char) : Prop :=
  ∃ parts, arrayParts text = .ok parts ∧
    ∀ part ∈ parts, ∃ ms, objectMembers part = .ok ms ∧ ObligationOk ms

def MemberOk (m : Member) : Prop :=
  (m.key = "schema" → word m.value = VM_SCHEMA) ∧
    (m.key = "policy" → (policyOf m.value).isSome = true) ∧
    (m.key = "candidate_ratio" → (parseUnsigned 16 m.value).isSome = true) ∧
    (m.key = "obligations" → ObligationsOk m.value)

structure Checked (ms : List Member) : Prop where
  schema : ∃ m ∈ ms, m.key = "schema"
  members : ∀ m ∈ ms, MemberOk m
  counts : ∀ cs, objectAt "counts" ms = some cs →
    ∀ c ∈ cs, (parseUnsigned 32 c.value).isSome = true
  certifier : ∀ cs, objectAt "certifier" ms = some cs →
    ∀ c ∈ cs, c.key = "class" → (certifierClassOf c.value).isSome = true

theorem foldlM_ok_iff {ε α β : Type} {f : β → α → Except ε β} {P : α → Prop}
    (h : ∀ b a, (∃ b', f b a = .ok b') ↔ P a) (l : List α) (b : β) :
    (∃ b', l.foldlM f b = .ok b') ↔ ∀ a ∈ l, P a := by
  induction l generalizing b with
  | nil => exact ⟨(fun _ _ ha => nomatch ha), fun _ => ⟨b, rfl⟩⟩
  | cons a l ih =>
    rw [List.forall_mem_cons, List.foldlM_cons]
    constructor
    · rintro ⟨b', hfold⟩
      obtain ⟨mid, hmid, hfold⟩ := bind_eq_ok.mp hfold
      exact ⟨(h b a).mp ⟨mid, hmid⟩, (ih mid).mp ⟨b', hfold⟩⟩
    · rintro ⟨ha, hl⟩
      obtain ⟨mid, hmid⟩ := (h b a).mpr ha
      obtain ⟨b', hfold⟩ := (ih mid).mpr hl
      exact ⟨b', bind_eq_ok.mpr ⟨mid, hmid, hfold⟩⟩

theorem expect_isSome {ε α β : Type} {o : Option α} {e : ε} {f : α → β} :
    (∃ b, (expect o e >>= fun a => pure (f a)) = Except.ok b) ↔ o.isSome = true := by
  cases o with
  | none => exact ⟨(fun ⟨_, h⟩ => nomatch h), fun h => nomatch h⟩
  | some a => exact ⟨fun _ => rfl, fun _ => ⟨f a, rfl⟩⟩

theorem obligationMember_ok_iff (o : ObligationSpec) (m : Member) :
    (∃ o', obligationMember o m.pair = .ok o') ↔
      (m.key = "id_hash" → (parseUnsigned 64 m.value).isSome = true) ∧
      (m.key = "status" → (statusOf m.value).isSome = true) ∧
      (m.key = "trust" → (trustOf m.value).isSome = true) ∧
      (m.key = "statement_hash" → (parseHex32 m.value).isSome = true) := by
  have hkey : word m.pair.1 = m.key := word_toList m.key
  unfold obligationMember
  split
  · rename_i h
    rw [hkey] at h
    rw [h]
    exact iff_of_true ⟨_, rfl⟩ (by simp)
  · rename_i h
    rw [hkey] at h
    rw [h]
    exact expect_isSome.trans (by simp [Member.pair])
  · rename_i h
    rw [hkey] at h
    rw [h]
    exact expect_isSome.trans (by simp [Member.pair])
  · rename_i h
    rw [hkey] at h
    rw [h]
    exact expect_isSome.trans (by simp [Member.pair])
  · rename_i h
    rw [hkey] at h
    rw [h]
    exact expect_isSome.trans (by simp [Member.pair])
  · rename_i hid hhash hstatus htrust hstatement
    rw [hkey] at hid hhash hstatus htrust hstatement
    exact iff_of_true ⟨_, rfl⟩ ⟨fun h => (hhash h).elim, fun h => (hstatus h).elim,
      fun h => (htrust h).elim, fun h => (hstatement h).elim⟩

theorem parseObligationObj_ok_iff (text : List Char) :
    (∃ o, parseObligationObj text = .ok o) ↔
      ∃ ms, objectMembers text = .ok ms ∧ ObligationOk ms := by
  unfold parseObligationObj
  rw [parseObject_eq]
  cases objectMembers text with
  | error e => exact ⟨(fun ⟨_, h⟩ => nomatch h), (fun ⟨_, h, _⟩ => nomatch h)⟩
  | ok ms =>
    have hfold : (∃ o, (ms.map Member.pair).foldlM obligationMember ObligationSpec.blank = .ok o) ↔
        ObligationOk ms := by
      simp only [List.foldlM_map]
      exact foldlM_ok_iff (fun o m => obligationMember_ok_iff o m) ms _
    refine Iff.trans hfold ⟨fun h => ⟨ms, rfl, h⟩, ?_⟩
    rintro ⟨ms', hms, h⟩
    cases hms
    exact h

theorem mapM_ok_iff {ε α β : Type} {f : α → Except ε β} {l : List α} :
    (∃ bs, l.mapM f = .ok bs) ↔ ∀ a ∈ l, ∃ b, f a = .ok b := by
  induction l with
  | nil => exact ⟨(fun _ _ ha => nomatch ha), fun _ => ⟨[], rfl⟩⟩
  | cons a l ih =>
    rw [List.forall_mem_cons, ← ih]
    constructor
    · rintro ⟨bs, h⟩
      obtain ⟨b, rest, ha, hl, -⟩ := mapM_cons_eq_ok.mp h
      exact ⟨⟨b, ha⟩, rest, hl⟩
    · rintro ⟨⟨b, ha⟩, rest, hl⟩
      exact ⟨b :: rest, mapM_cons_eq_ok.mpr ⟨b, rest, ha, hl, rfl⟩⟩

theorem parseObligations_ok_iff (text : List Char) :
    (∃ os, parseObligations text = .ok os) ↔ ObligationsOk text := by
  unfold parseObligations ObligationsOk
  cases arrayParts text with
  | error e => exact ⟨(fun ⟨_, h⟩ => nomatch h), (fun ⟨_, h, _⟩ => nomatch h)⟩
  | ok parts =>
    have hall : (∃ os, parts.mapM parseObligationObj = .ok os) ↔
        ∀ part ∈ parts, ∃ ms, objectMembers part = .ok ms ∧ ObligationOk ms := by
      rw [mapM_ok_iff]
      exact forall₂_congr fun part _ => parseObligationObj_ok_iff part
    refine Iff.trans hall ⟨fun h => ⟨parts, rfl, h⟩, ?_⟩
    rintro ⟨parts', hparts, h⟩
    cases hparts
    exact h

theorem summaryMember_ok_iff (r : Reading) (m : Member) :
    (∃ r', summaryMember r m.pair = .ok r') ↔ MemberOk m := by
  have hkey : word m.pair.1 = m.key := word_toList m.key
  unfold summaryMember MemberOk
  split
  case h_11 hschema _ _ _ _ hpolicy _ hratio _ hobligations =>
    rw [hkey] at hschema hpolicy hratio hobligations
    exact iff_of_true ⟨_, rfl⟩ ⟨fun h => (hschema h).elim, fun h => (hpolicy h).elim,
      fun h => (hratio h).elim, fun h => (hobligations h).elim⟩
  all_goals
    rename_i h
    rw [hkey] at h
    rw [h]
  · refine Iff.trans ?_ (b := word m.value = VM_SCHEMA) (by simp)
    constructor
    · rintro ⟨r', hr⟩
      obtain ⟨_, hrequire, -⟩ := bind_eq_ok.mp hr
      exact require_eq_ok.mp hrequire
    · intro hschema
      exact ⟨_, bind_eq_ok.mpr ⟨⟨⟩, require_eq_ok.mpr hschema, rfl⟩⟩
  · exact iff_of_true ⟨_, rfl⟩ (by simp)
  · exact iff_of_true ⟨_, rfl⟩ (by simp)
  · exact iff_of_true ⟨_, rfl⟩ (by simp)
  · exact iff_of_true ⟨_, rfl⟩ (by simp)
  · exact expect_isSome.trans (by simp [Member.pair])
  · exact iff_of_true ⟨_, rfl⟩ (by simp)
  · exact expect_isSome.trans (by simp [Member.pair])
  · exact iff_of_true ⟨_, rfl⟩ (by simp)
  · refine Iff.trans ?_ (b := ObligationsOk m.value) (by simp)
    rw [← parseObligations_ok_iff]
    constructor
    · rintro ⟨r', hr⟩
      obtain ⟨os, hos, -⟩ := bind_eq_ok.mp hr
      exact ⟨os, hos⟩
    · rintro ⟨os, hos⟩
      exact ⟨_, bind_eq_ok.mpr ⟨os, hos, rfl⟩⟩

theorem summaryMember_keeps {r r' : Reading} {m : Member} (h : summaryMember r m.pair = .ok r') :
    r'.seenSchema = (r.seenSchema || m.key == "schema") ∧
    r'.counts = (if m.key = "counts" then (parseObject m.value).toOption else r.counts) ∧
    r'.certifier =
      (if m.key = "certifier" then (parseObject m.value).toOption else r.certifier) := by
  have hkey : word m.pair.1 = m.key := word_toList m.key
  unfold summaryMember at h
  split at h
  case h_11 hschema _ _ _ _ _ hcertifier _ hcounts _ =>
    rw [hkey] at hschema hcertifier hcounts
    cases h
    rw [if_neg hcounts, if_neg hcertifier, beq_false_of_ne hschema, Bool.or_false]
    exact ⟨rfl, rfl, rfl⟩
  all_goals
    rename_i hname
    rw [hkey] at hname
    rw [hname]
  · obtain ⟨_, -, h⟩ := bind_eq_ok.mp h
    cases h
    exact ⟨(Bool.or_true _).symm, rfl, rfl⟩
  · cases h
    exact ⟨(Bool.or_false _).symm, rfl, rfl⟩
  · cases h
    exact ⟨(Bool.or_false _).symm, rfl, rfl⟩
  · cases h
    exact ⟨(Bool.or_false _).symm, rfl, rfl⟩
  · cases h
    exact ⟨(Bool.or_false _).symm, rfl, rfl⟩
  · obtain ⟨_, -, h⟩ := bind_eq_ok.mp h
    cases h
    exact ⟨(Bool.or_false _).symm, rfl, rfl⟩
  · cases h
    exact ⟨(Bool.or_false _).symm, rfl, rfl⟩
  · obtain ⟨_, -, h⟩ := bind_eq_ok.mp h
    cases h
    exact ⟨(Bool.or_false _).symm, rfl, rfl⟩
  · cases h
    exact ⟨(Bool.or_false _).symm, rfl, rfl⟩
  · obtain ⟨_, -, h⟩ := bind_eq_ok.mp h
    cases h
    exact ⟨(Bool.or_false _).symm, rfl, rfl⟩

theorem foldlM_keeps {ms : List Member} {r r' : Reading} {counts certifier : Option (List Char)}
    (hcounts : r.counts = counts.bind fun v => (parseObject v).toOption)
    (hcertifier : r.certifier = certifier.bind fun v => (parseObject v).toOption)
    (h : (ms.map Member.pair).foldlM summaryMember r = .ok r') :
    r'.seenSchema = (r.seenSchema || ms.any fun m => m.key == "schema") ∧
    r'.counts = (ms.foldl (fun found m => if m.key = "counts" then some m.value else found)
      counts).bind (fun v => (parseObject v).toOption) ∧
    r'.certifier = (ms.foldl (fun found m => if m.key = "certifier" then some m.value else found)
      certifier).bind (fun v => (parseObject v).toOption) := by
  induction ms generalizing r counts certifier with
  | nil =>
    cases h
    exact ⟨(Bool.or_false _).symm, hcounts, hcertifier⟩
  | cons m ms ih =>
    rw [List.map_cons, List.foldlM_cons] at h
    obtain ⟨mid, hmid, h⟩ := bind_eq_ok.mp h
    obtain ⟨hschema, hcounts', hcertifier'⟩ := summaryMember_keeps hmid
    have hmidCounts : mid.counts = (if m.key = "counts" then some m.value else counts).bind
        fun v => (parseObject v).toOption := by
      rw [hcounts', hcounts]
      split <;> rfl
    have hmidCertifier : mid.certifier =
        (if m.key = "certifier" then some m.value else certifier).bind
          fun v => (parseObject v).toOption := by
      rw [hcertifier', hcertifier]
      split <;> rfl
    obtain ⟨ihschema, ihcounts, ihcertifier⟩ := ih hmidCounts hmidCertifier h
    refine ⟨?_, ihcounts, ihcertifier⟩
    rw [ihschema, hschema, List.any_cons, Bool.or_assoc]

theorem countMember_ok_iff (counts : Vector UInt32 4) (m : Member) :
    (∃ counts', countMember counts m.pair = .ok counts') ↔
      (parseUnsigned 32 m.value).isSome = true := by
  unfold countMember
  show (∃ counts', (expect (parseUnsigned 32 m.value) _ >>= fun n => _) = Except.ok counts') ↔ _
  cases parseUnsigned 32 m.value with
  | none => exact ⟨(fun ⟨_, h⟩ => nomatch h), fun h => nomatch h⟩
  | some n =>
    refine iff_of_true ?_ rfl
    rw [show (expect (some n) "tyu.vm/1: bad count" : Except String Nat) = .ok n from rfl]
    dsimp only [bind, Except.bind]
    split <;> exact ⟨_, rfl⟩

theorem certifierMember_ok_iff (spec : VerifyManifestSpec) (m : Member) :
    (∃ spec', certifierMember spec m.pair = .ok spec') ↔
      (m.key = "class" → (certifierClassOf m.value).isSome = true) := by
  have hkey : word m.pair.1 = m.key := word_toList m.key
  unfold certifierMember
  split
  case h_4 hclass _ _ =>
    rw [hkey] at hclass
    exact iff_of_true ⟨_, rfl⟩ fun h => (hclass h).elim
  all_goals
    rename_i h
    rw [hkey] at h
    rw [h]
  · exact expect_isSome.trans (by simp [Member.pair])
  · exact iff_of_true ⟨_, rfl⟩ (by simp)
  · exact iff_of_true ⟨_, rfl⟩ (by simp)

theorem readCounts_ok_iff {r : Reading} {counts : Option (List Member)}
    (hcounts : r.counts = counts.map (List.map Member.pair)) :
    (∃ spec, readCounts r = .ok spec) ↔
      ∀ cs, counts = some cs → ∀ c ∈ cs, (parseUnsigned 32 c.value).isSome = true := by
  unfold readCounts
  rw [hcounts]
  cases counts with
  | none => exact iff_of_true ⟨r.spec, rfl⟩ fun _ h => nomatch h
  | some cs =>
    have hfold : (∃ counts', (cs.map Member.pair).foldlM countMember #v[0, 0, 0, 0] =
        .ok counts') ↔ ∀ c ∈ cs, (parseUnsigned 32 c.value).isSome = true := by
      simp only [List.foldlM_map]
      exact foldlM_ok_iff (fun counts c => countMember_ok_iff counts c) cs _
    constructor
    · rintro ⟨spec, h⟩ cs' hcs
      cases hcs
      obtain ⟨counts', hcounts', -⟩ := bind_eq_ok.mp h
      exact hfold.mp ⟨counts', hcounts'⟩
    · intro h
      obtain ⟨counts', hcounts'⟩ := hfold.mpr (h cs rfl)
      exact ⟨_, bind_eq_ok.mpr ⟨counts', hcounts', rfl⟩⟩

theorem readCertifier_ok_iff {r : Reading} {certifier : Option (List Member)}
    (hcertifier : r.certifier = certifier.map (List.map Member.pair)) (spec : VerifyManifestSpec) :
    (∃ spec', readCertifier r spec = .ok spec') ↔ ∀ cs, certifier = some cs →
      ∀ c ∈ cs, c.key = "class" → (certifierClassOf c.value).isSome = true := by
  unfold readCertifier
  rw [hcertifier]
  cases certifier with
  | none => exact iff_of_true ⟨spec, rfl⟩ fun _ h => nomatch h
  | some cs =>
    have hfold : (∃ spec', (cs.map Member.pair).foldlM certifierMember spec = .ok spec') ↔
        ∀ c ∈ cs, c.key = "class" → (certifierClassOf c.value).isSome = true := by
      simp only [List.foldlM_map]
      exact foldlM_ok_iff (fun spec c => certifierMember_ok_iff spec c) cs spec
    refine hfold.trans ⟨fun h cs' hcs => ?_, fun h => h cs rfl⟩
    cases hcs
    exact h

/-! ## Which texts are accepted -/

theorem trimmed_trim (text : List Char) : Trimmed (trim text) := by
  have hdrop : ∀ cs : List Char, ∀ c ∈ (cs.dropWhile Cert.isWhiteSpace).head?,
      Cert.isWhiteSpace c = false := by
    intro cs c hc
    have hnot := List.head?_dropWhile_not Cert.isWhiteSpace cs
    rw [Option.mem_def.mp hc] at hnot
    simpa using hnot
  constructor
  · intro c hc
    obtain ⟨front, hfront⟩ := List.dropWhile_suffix (l := (text.dropWhile Cert.isWhiteSpace).reverse)
      Cert.isWhiteSpace
    have htext : trim text ++ front.reverse = text.dropWhile Cert.isWhiteSpace := by
      unfold trim
      rw [← List.reverse_append, hfront, List.reverse_reverse]
    refine hdrop text c ?_
    rw [← htext, List.head?_append, Option.mem_def.mp hc]
    rfl
  · intro c hc
    unfold trim at hc
    rw [List.getLast?_reverse] at hc
    exact hdrop _ c hc

theorem objectAt_eq (key : String) (ms : List Member) :
    ((lastValue key ms).bind fun v => (parseObject v).toOption) =
      (objectAt key ms).map (List.map Member.pair) := by
  unfold objectAt
  cases lastValue key ms with
  | none => rfl
  | some v =>
    show (parseObject v).toOption = ((objectMembers v).toOption).map _
    rw [parseObject_eq]
    cases objectMembers v <;> rfl

theorem finish_ok_iff {ms : List Member} {r : Reading}
    (hr : (ms.map Member.pair).foldlM summaryMember Reading.blank = .ok r) :
    (∃ spec, finish r = .ok spec) ↔ (∃ m ∈ ms, m.key = "schema") ∧
      (∀ cs, objectAt "counts" ms = some cs →
        ∀ c ∈ cs, (parseUnsigned 32 c.value).isSome = true) ∧
      ∀ cs, objectAt "certifier" ms = some cs →
        ∀ c ∈ cs, c.key = "class" → (certifierClassOf c.value).isSome = true := by
  have hblank : ∀ o : Option (List (List Char × List Char)), o = none →
      o = (none : Option (List Char)).bind fun v => (parseObject v).toOption := fun _ h => h
  obtain ⟨hschema, hcounts, hcertifier⟩ := foldlM_keeps (hblank _ rfl) (hblank _ rfl) hr
  have hcounts' := hcounts.trans (objectAt_eq "counts" ms)
  have hcertifier' := hcertifier.trans (objectAt_eq "certifier" ms)
  have hseen : r.seenSchema = true ↔ ∃ m ∈ ms, m.key = "schema" := by
    rw [hschema]
    simp [Reading.blank]
  unfold finish
  constructor
  · rintro ⟨spec, h⟩
    obtain ⟨_, hrequire, h⟩ := bind_eq_ok.mp h
    obtain ⟨mid, hmid, h⟩ := bind_eq_ok.mp h
    exact ⟨hseen.mp (require_eq_ok.mp hrequire), (readCounts_ok_iff hcounts').mp ⟨mid, hmid⟩,
      (readCertifier_ok_iff hcertifier' mid).mp ⟨spec, h⟩⟩
  · rintro ⟨hs, hcs, hce⟩
    obtain ⟨mid, hmid⟩ := (readCounts_ok_iff hcounts').mpr hcs
    obtain ⟨spec, h⟩ := (readCertifier_ok_iff hcertifier' mid).mpr hce
    exact ⟨spec, bind_eq_ok.mpr ⟨⟨⟩, require_eq_ok.mpr (hseen.mpr hs),
      bind_eq_ok.mpr ⟨mid, hmid, h⟩⟩⟩

theorem members_ok_iff (ms : List Member) :
    (∃ spec, ((ms.map Member.pair).foldlM summaryMember Reading.blank >>= finish) = .ok spec) ↔
      Checked ms := by
  have hfold : (∃ r, (ms.map Member.pair).foldlM summaryMember Reading.blank = .ok r) ↔
      ∀ m ∈ ms, MemberOk m := by
    simp only [List.foldlM_map]
    exact foldlM_ok_iff (fun r m => summaryMember_ok_iff r m) ms Reading.blank
  constructor
  · rintro ⟨spec, h⟩
    obtain ⟨r, hr, h⟩ := bind_eq_ok.mp h
    obtain ⟨hs, hcs, hce⟩ := (finish_ok_iff hr).mp ⟨spec, h⟩
    exact ⟨hs, hfold.mp ⟨r, hr⟩, hcs, hce⟩
  · intro h
    obtain ⟨r, hr⟩ := hfold.mpr h.members
    obtain ⟨spec, hspec⟩ := (finish_ok_iff hr).mpr ⟨h.schema, h.counts, h.certifier⟩
    exact ⟨spec, bind_eq_ok.mpr ⟨r, hr, hspec⟩⟩

theorem read_ok_iff (text : List Char) :
    (∃ spec, verifyManifestFromJson text = .ok spec) ↔
      ∃ ms, objectMembers (trim text) = .ok ms ∧ Checked ms := by
  unfold verifyManifestFromJson
  dsimp only
  constructor
  · rintro ⟨spec, h⟩
    obtain ⟨_, -, h⟩ := bind_eq_ok.mp h
    obtain ⟨pairs, hpairs, h⟩ := bind_eq_ok.mp h
    rw [parseObject_eq] at hpairs
    cases hms : objectMembers (trim text) with
    | error e =>
      rw [hms] at hpairs
      cases hpairs
    | ok ms =>
      rw [hms] at hpairs
      cases hpairs
      exact ⟨ms, rfl, (members_ok_iff ms).mp ⟨spec, h⟩⟩
  · rintro ⟨ms, hms, hchecked⟩
    have hhead : (trim text).head? = some '\x7b' := by
      have hms' := hms
      unfold objectMembers at hms'
      obtain ⟨_, hrequire, -⟩ := bind_eq_ok.mp hms'
      rw [trim_of_trimmed (trimmed_trim text)] at hrequire
      exact require_eq_ok.mp hrequire
    obtain ⟨spec, hspec⟩ := (members_ok_iff ms).mpr hchecked
    refine ⟨spec, bind_eq_ok.mpr ⟨⟨⟩, require_eq_ok.mpr hhead, bind_eq_ok.mpr
      ⟨ms.map Member.pair, ?_, hspec⟩⟩⟩
    rw [parseObject_eq, hms]
    rfl

/-! ## What is missing -/

def COUNTS : List String := ["proof", "checked", "assumed", "open"]

def CERTIFIER : List String := ["class", "name", "recognition"]

def Member.Quoted (m : Member) : Prop := m.lead = some '"'

def Member.Bare (m : Member) : Prop := m.lead ≠ some '"' ∧ m.lead ≠ some '+'

def Has (keys : List String) (ms : List Member) : Prop := ∀ k ∈ keys, ∃ m ∈ ms, m.key = k

def obligationsAt (ms : List Member) : List (List Member) :=
  match (lastValue "obligations" ms).bind fun value => (arrayParts value).toOption with
  | some parts => parts.filterMap fun part => (objectMembers part).toOption
  | none => []

/-- A summary with its counts, its certifier and a status for each obligation: none is missing,
malformed or out of range. -/
structure WellFormed (ms : List Member) : Prop where
  counts : ∃ cs, objectAt "counts" ms = some cs ∧ Has COUNTS cs ∧
    ∀ c ∈ cs, c.key ∈ COUNTS → c.Bare ∧ (parseUnsigned 32 c.value).isSome = true
  certifier : ∃ cs, objectAt "certifier" ms = some cs ∧ Has CERTIFIER cs ∧
    ∀ c ∈ cs, c.key ∈ CERTIFIER → c.Quoted ∧
      (c.key = "class" → (certifierClassOf c.value).isSome = true)
  status : ∀ o ∈ obligationsAt ms, Has ["status"] o ∧
    ∀ m ∈ o, m.key = "status" → m.Quoted ∧ (statusOf m.value).isSome = true

/-- A summary in which they are all there, written as numbers and as strings. -/
structure Complete (ms : List Member) : Prop where
  counts : ∃ cs, objectAt "counts" ms = some cs ∧ Has COUNTS cs ∧
    ∀ c ∈ cs, c.key ∈ COUNTS → c.Bare
  certifier : ∃ cs, objectAt "certifier" ms = some cs ∧ Has CERTIFIER cs ∧
    ∀ c ∈ cs, c.key ∈ CERTIFIER → c.Quoted
  status : ∀ o ∈ obligationsAt ms, Has ["status"] o ∧ ∀ m ∈ o, m.key = "status" → m.Quoted

theorem lastValue_mem {key : String} {ms : List Member} {v : List Char}
    (h : lastValue key ms = some v) : ∃ m ∈ ms, m.key = key ∧ m.value = v := by
  have hfold : ∀ found : Option (List Char),
      ms.foldl (fun found m => if m.key = key then some m.value else found) found = some v →
        found = some v ∨ ∃ m ∈ ms, m.key = key ∧ m.value = v := by
    clear h
    induction ms with
    | nil => exact fun found h => .inl h
    | cons m ms ih =>
      intro found h
      rw [List.foldl_cons] at h
      obtain hfound | ⟨m', hm', hkey⟩ := ih _ h
      · by_cases hm : m.key = key
        · rw [if_pos hm] at hfound
          exact .inr ⟨m, List.mem_cons_self, hm, Option.some.inj hfound⟩
        · rw [if_neg hm] at hfound
          exact .inl hfound
      · exact .inr ⟨m', List.mem_cons_of_mem _ hm', hkey⟩
  obtain hnone | hmem := hfold none h
  · cases hnone
  · exact hmem

theorem Checked.wellFormed_iff {ms : List Member} (h : Checked ms) :
    WellFormed ms ↔ Complete ms := by
  constructor
  · intro hwell
    obtain ⟨cs, hcs, hhas, hbare⟩ := hwell.counts
    obtain ⟨ce, hce, hhas', hquoted⟩ := hwell.certifier
    exact ⟨⟨cs, hcs, hhas, fun c hc hk => (hbare c hc hk).1⟩,
      ⟨ce, hce, hhas', fun c hc hk => (hquoted c hc hk).1⟩,
      fun o ho => ⟨(hwell.status o ho).1, fun m hm hk => ((hwell.status o ho).2 m hm hk).1⟩⟩
  · intro hcomplete
    obtain ⟨cs, hcs, hhas, hbare⟩ := hcomplete.counts
    obtain ⟨ce, hce, hhas', hquoted⟩ := hcomplete.certifier
    refine ⟨⟨cs, hcs, hhas, fun c hc hk => ⟨hbare c hc hk, h.counts cs hcs c hc⟩⟩,
      ⟨ce, hce, hhas', fun c hc hk => ⟨hquoted c hc hk, h.certifier ce hce c hc⟩⟩,
      fun o ho => ⟨(hcomplete.status o ho).1, fun m hm hk =>
        ⟨(hcomplete.status o ho).2 m hm hk, ?_⟩⟩⟩
    unfold obligationsAt at ho
    cases hlast : lastValue "obligations" ms with
    | none =>
      rw [hlast] at ho
      cases ho
    | some value =>
      obtain ⟨member, hmember, hkey, rfl⟩ := lastValue_mem hlast
      obtain ⟨parts, hparts, hall⟩ := (h.members member hmember).2.2.2 hkey
      rw [hlast] at ho
      simp only [Option.bind_some, hparts, Except.toOption] at ho
      obtain ⟨part, hpart, hread⟩ := List.mem_filterMap.mp ho
      obtain ⟨ms', hms', hok⟩ := hall part hpart
      rw [hms'] at hread
      cases hread
      exact (hok m hm).2.1 hk

/-- A document with a missing, malformed or out-of-range count, status or certifier. -/
def Faulty (text : List Char) : Prop :=
  ∀ ms, objectMembers (trim text) = .ok ms → ¬WellFormed ms

theorem read_cases (text : List Char) : (∃ spec, verifyManifestFromJson text = .ok spec) ∨
    ∃ e, verifyManifestFromJson text = .error e := by
  cases verifyManifestFromJson text with
  | ok spec => exact .inl ⟨spec, rfl⟩
  | error e => exact .inr ⟨e, rfl⟩

theorem faulty_rejected_iff (text : List Char) :
    (Faulty text → ∃ e, verifyManifestFromJson text = .error e) ↔
      ∀ ms, objectMembers (trim text) = .ok ms → Checked ms → Complete ms := by
  constructor
  · intro hreject ms hms hchecked
    by_contra hincomplete
    have hfaulty : Faulty text := by
      intro ms' hms' hwell
      rw [hms] at hms'
      cases hms'
      exact hincomplete (hchecked.wellFormed_iff.mp hwell)
    obtain ⟨e, he⟩ := hreject hfaulty
    obtain ⟨spec, hspec⟩ := (read_ok_iff text).mpr ⟨ms, hms, hchecked⟩
    rw [he] at hspec
    cases hspec
  · intro hcomplete hfaulty
    obtain hok | herror := read_cases text
    · obtain ⟨ms, hms, hchecked⟩ := (read_ok_iff text).mp hok
      exact absurd (hchecked.wellFormed_iff.mpr (hcomplete ms hms hchecked)) (hfaulty ms hms)
    · exact herror

/-- A summary of the build is read as it was written when its strings need no escape, its hashes
are hashes and its brackets come out even.  A document that is faulty is rejected exactly when it
is not one that passes the checks and lacks something. -/
theorem summary_reader_exact (sha : Digest) (module : String) (policy : Report.VerifyPolicy)
    (set : OblSet) (v : VerdictFile.Verdicts) (text : List Char) :
    (Readable (vmRows sha module set v) set v →
      ∃ spec, verifyManifestFromJson (vmDocument sha module policy set v).toList = .ok spec ∧
        IsSummary (vmRows sha module set v) policy set v spec) ∧
    ((Faulty text → ∃ e, verifyManifestFromJson text = .error e) ↔
      ∀ ms, objectMembers (trim text) = .ok ms → Checked ms → Complete ms) :=
  ⟨fun h => read_summary h, faulty_rejected_iff text⟩

def namedVerdicts (name : String) : VerdictFile.Verdicts :=
  { emptyVerdicts "x86_64" "tyu.model/linux-x86_64-hosted/1" "unmodeled" with
    certifier := some ⟨"port", name, "tyu-port/lean/1", ⟨"lean", "4"⟩, "stable"⟩ }

theorem bank_rows (name : String) : vmRows bankSha "Bank" bankSet (namedVerdicts name) =
    [⟨"Bank::inc::subtype-range::0", idHashOf "Bank::inc::subtype-range::0", .opened, .opened,
      "6e9bef4955d2f000b9526c82ad68f8b914c65e58ba3776608812f5a460ce4cda"⟩] :=
  List.mergeSort_singleton ..

theorem bank_readable (name : String) :
    ∀ r ∈ vmRows bankSha "Bank" bankSet (namedVerdicts name), ReadableRow r := by
  rw [bank_rows]
  intro r hr
  rw [List.mem_singleton.mp hr]
  exact ⟨by decide, rfl, by decide⟩

/-- A plain name: the row is read as it was written. -/
theorem bank_summary_read : ∃ spec,
    verifyManifestFromJson
      (vmDocument bankSha "Bank" .proven bankSet (namedVerdicts "lean")).toList = .ok spec ∧
    List.Forall₂ IsRow (vmRows bankSha "Bank" bankSet (namedVerdicts "lean"))
      spec.obligations := by
  have hreadable : Readable (vmRows bankSha "Bank" bankSet (namedVerdicts "lean")) bankSet
      (namedVerdicts "lean") := by
    have heach := bank_readable "lean"
    rw [bank_rows] at heach ⊢
    exact ⟨by decide, by decide, by decide, rfl, rfl, heach, rfl,
      by decide⟩
  obtain ⟨spec, hspec, hsummary⟩ := (summary_reader_exact bankSha "Bank" .proven bankSet
    (namedVerdicts "lean") []).1 hreadable
  exact ⟨spec, hspec, hsummary.obligations⟩

/-- A certifier with a brace in its name: the object ends at the certifier, the row is not read,
and what is missing is not missed.  Nor is it in a document of a schema alone. -/
theorem members_dropped :
    (¬∀ (sha : Digest) (module : String) (policy : Report.VerifyPolicy) (set : OblSet)
      (v : VerdictFile.Verdicts), ∃ spec,
        verifyManifestFromJson (vmDocument sha module policy set v).toList = .ok spec ∧
        List.Forall₂ IsRow (vmRows sha module set v) spec.obligations) ∧
    ¬∀ text, Faulty text → ∃ e, verifyManifestFromJson text = .error e := by
  constructor
  · intro hclaim
    obtain ⟨spec, hspec, hforall⟩ := hclaim bankSha "Bank" .proven bankSet (namedVerdicts "\x7d")
    have hnone : (verifyManifestFromJson
        (vmDocument bankSha "Bank" .proven bankSet (namedVerdicts "\x7d")).toList).toOption.map
          (fun spec => spec.obligations.length) = some 0 := by
      rw [vmDocument_toList (by decide) (by decide) (by decide)
        (bank_readable "\x7d"), bank_rows]
      decide +kernel
    rw [hspec] at hnone
    have hzero : spec.obligations.length = 0 := Option.some.inj hnone
    have hlength := hforall.length_eq
    rw [bank_rows, hzero] at hlength
    cases hlength
  · intro hclaim
    have hmissing : Faulty "\x7b\"schema\":\"tyu.vm/1\"\x7d".toList := by
      intro ms hms hwell
      obtain ⟨cs, hcs, -⟩ := hwell.counts
      have hno : (objectMembers (trim "\x7b\"schema\":\"tyu.vm/1\"\x7d".toList)).toOption.bind
          (fun ms => lastValue "counts" ms) = none := by decide
      rw [hms] at hno
      unfold objectAt at hcs
      rw [show lastValue "counts" ms = none from hno] at hcs
      cases hcs
    obtain ⟨e, he⟩ := hclaim _ hmissing
    have hread : (verifyManifestFromJson
        "\x7b\"schema\":\"tyu.vm/1\"\x7d".toList).toOption.isSome = true := by decide
    rw [he] at hread
    cases hread

end SummaryReader

end Tyu

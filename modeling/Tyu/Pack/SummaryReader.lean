import Tyu.Cert.Assemble
import Tyu.Cert.VmSummary
import Tyu.Lib.Delimit
import Tyu.Loader.VerifyGate
import Tyu.Pack.VerifyRecord

/-! # Reading a summary -/

namespace Tyu

open Lib Lib.Json Summary

namespace SummaryReader

def trim (text : List Char) : List Char :=
  ((text.dropWhile Cert.isWhiteSpace).reverse.dropWhile Cert.isWhiteSpace).reverse

/-- One character of `split_top_level`: the depth of the brackets, and whether a string is open. -/
def topLevelStep (sep : Char) (s : Int × Bool) (c : Char) : Option (Int × Bool) :=
  if c = '"' then some (s.1, !s.2)
  else if (c = '\x7b' ∨ c = '[') ∧ s.2 = false then some (s.1 + 1, s.2)
  else if (c = '\x7d' ∨ c = ']') ∧ s.2 = false then some (s.1 - 1, s.2)
  else if c = sep ∧ s.2 = false ∧ s.1 = 0 then none
  else some s

def splitTopLevel (text : List Char) (sep : Char) : List (List Char) :=
  pieces (topLevelStep sep) (0, false) text

/-- One character of `split_balanced`: the depth of the one kind of bracket. -/
def balancedStep («open» close : Char) (depth : Nat) (c : Char) : Option Nat :=
  if c = «open» then some (depth + 1)
  else if c = close then if depth - 1 = 0 then none else some (depth - 1)
  else some depth

/-- The text from an opening bracket up to the closing one, and what follows that. -/
def splitBalanced (text : List Char) («open» close : Char) :
    Except String (List Char × List Char) :=
  expect (Lib.cut (balancedStep «open» close) 0 text) "unbalanced braces"

def unquote (text : List Char) : List Char :=
  let text := trim text
  if 2 ≤ text.length ∧ text.head? = some '"' ∧ text.getLast? = some '"' then text.tail.dropLast
  else text

def parseValue (raw : List Char) : Except String (List Char) :=
  if raw.head? = some '\x7b' then do
    let (front, _) ← splitBalanced raw '\x7b' '\x7d'
    pure (front ++ ['\x7d'])
  else if raw.head? = some '[' then do
    let (front, _) ← splitBalanced raw '[' ']'
    pure (front ++ [']'])
  else if raw.head? = some '"' then pure (unquote raw)
  else pure (trim (raw.takeWhile (· ≠ ',')))

def parsePair (pair : List Char) : Except String (List Char × List Char) := do
  let pair := trim pair
  require (':' ∈ pair) "expected ':'"
  let k := unquote (trim (pair.takeWhile (· ≠ ':')))
  let value ← parseValue (trim ((pair.dropWhile (· ≠ ':')).tail))
  pure (k, value)

def parseObject (text : List Char) : Except String (List (List Char × List Char)) := do
  let text := trim text
  require (text.head? = some '\x7b') "expected '\x7b'"
  let (front, _) ← splitBalanced text '\x7b' '\x7d'
  let parts := (splitTopLevel front.tail ',').filter fun part => trim part ≠ []
  parts.mapM fun part => parsePair (trim part)

def parseUnsigned (bits : Nat) (text : List Char) : Option Nat :=
  let digits := if text.head? = some '+' then text.tail else text
  if digits ≠ [] ∧ digits.all Char.isDigit ∧ Nat.ofDigitChars 10 digits 0 < 2 ^ bits then
    some (Nat.ofDigitChars 10 digits 0)
  else none

def hexBytes : List Char → Option Bytes
  | [] => some []
  | [_] => none
  | hi :: lo :: text => do
    let hi ← hexValue hi
    let lo ← hexValue lo
    let bytes ← hexBytes text
    pure (UInt8.ofNat (hi * 16 + lo) :: bytes)

def parseHex32 (text : List Char) : Option Sha256Digest :=
  (hexBytes text).bind fun bytes => if h : bytes.length = 32 then some ⟨bytes, h⟩ else none

def VM_POLICY_OPEN_OK : UInt8 := 0
def VM_POLICY_NO_OPEN_NO_ASSUMPTIONS : UInt8 := 2
def VM_CERTIFIER_NONE : UInt8 := 0

def word (text : List Char) : String := String.ofList text

def policyOf (text : List Char) : Option UInt8 :=
  match word text with
  | "open-ok" => some VM_POLICY_OPEN_OK
  | "no-open" => some VM_POLICY_NO_OPEN
  | "no-open-no-assumptions" => some VM_POLICY_NO_OPEN_NO_ASSUMPTIONS
  | "proven" => some VM_POLICY_PROVEN
  | _ => none

def statusOf (text : List Char) : Option UInt8 :=
  match word text with
  | "open" => some VM_STATUS_OPEN
  | "discharged" => some VM_STATUS_DISCHARGED
  | "assumed" => some VM_STATUS_ASSUMED
  | _ => none

def trustOf (text : List Char) : Option UInt8 :=
  match word text with
  | "open" => some VM_TRUST_OPEN
  | "assumed" => some VM_TRUST_ASSUMED
  | "checked" => some VM_TRUST_CHECKED
  | "proof" => some VM_TRUST_PROOF
  | _ => none

def certifierClassOf (text : List Char) : Option UInt8 :=
  match word text with
  | "port" => some VM_CERTIFIER_PORT
  | "none" => some VM_CERTIFIER_NONE
  | _ => none

theorem length_blankHash : (List.replicate 32 (0 : UInt8)).length = 32 := rfl

def ObligationSpec.blank : ObligationSpec where
  id := []
  idHash := 0
  status := VM_STATUS_OPEN
  trust := VM_TRUST_OPEN
  statementHash := ⟨List.replicate 32 0, length_blankHash⟩

def obligationMember (o : ObligationSpec) (m : List Char × List Char) :
    Except String ObligationSpec :=
  match word m.1 with
  | "id" => pure { o with id := utf8 (word m.2) }
  | "id_hash" => do
    let n ← expect (parseUnsigned 64 m.2) "bad id_hash"
    pure { o with idHash := UInt64.ofNat n }
  | "status" => do
    let status ← expect (statusOf m.2) "unknown status"
    pure { o with status := status }
  | "trust" => do
    let trust ← expect (trustOf m.2) "unknown trust"
    pure { o with trust := trust }
  | "statement_hash" => do
    let hash ← expect (parseHex32 m.2) "bad statement_hash"
    pure { o with statementHash := hash }
  | _ => pure o

def parseObligationObj (text : List Char) : Except String ObligationSpec := do
  let pairs ← parseObject text
  pairs.foldlM obligationMember ObligationSpec.blank

def arrayParts (text : List Char) : Except String (List (List Char)) := do
  let text := trim text
  require (text.head? = some '[') "expected '[' for obligations"
  let (front, _) ← splitBalanced text '[' ']'
  pure ((splitTopLevel front.tail ',').filter fun part => trim part ≠ [])

def parseObligations (text : List Char) : Except String (List ObligationSpec) := do
  let parts ← arrayParts text
  parts.mapM parseObligationObj

/-! ## Summaries -/

structure Reading where
  spec : VerifyManifestSpec
  seenSchema : Bool
  counts : Option (List (List Char × List Char))
  certifier : Option (List (List Char × List Char))

def Reading.blank : Reading where
  spec :=
    { semantics := [], stmt := [], target := [], model := [], policy := 0
      certifierClass := VM_CERTIFIER_NONE, certifierName := [], certifierRecognition := []
      candidateRatio := 0, counts := #v[0, 0, 0, 0], obligations := [] }
  seenSchema := false
  counts := none
  certifier := none

def summaryMember (r : Reading) (m : List Char × List Char) : Except String Reading :=
  match word m.1 with
  | "schema" => do
    require (word m.2 = VM_SCHEMA) "tyu.vm/1: unknown schema"
    pure { r with seenSchema := true }
  | "semantics" => pure { r with spec := { r.spec with semantics := utf8 (word m.2) } }
  | "stmt" => pure { r with spec := { r.spec with stmt := utf8 (word m.2) } }
  | "target" => pure { r with spec := { r.spec with target := utf8 (word m.2) } }
  | "model" => pure { r with spec := { r.spec with model := utf8 (word m.2) } }
  | "policy" => do
    let policy ← expect (policyOf m.2) "tyu.vm/1: unknown policy"
    pure { r with spec := { r.spec with policy := policy } }
  -- an object that cannot be read is as good as none
  | "certifier" => pure { r with certifier := (parseObject m.2).toOption }
  | "candidate_ratio" => do
    let n ← expect (parseUnsigned 16 m.2) "tyu.vm/1: bad candidate_ratio"
    pure { r with spec := { r.spec with candidateRatio := UInt16.ofNat n } }
  | "counts" => pure { r with counts := (parseObject m.2).toOption }
  | "obligations" => do
    let obligations ← parseObligations m.2
    pure { r with spec := { r.spec with obligations := obligations } }
  | _ => pure r

theorem proof_slot : 0 < 4 := by decide
theorem checked_slot : 1 < 4 := by decide
theorem assumed_slot : 2 < 4 := by decide
theorem open_slot : 3 < 4 := by decide

def countMember (counts : Vector UInt32 4) (m : List Char × List Char) :
    Except String (Vector UInt32 4) := do
  let n ← expect (parseUnsigned 32 m.2) "tyu.vm/1: bad count"
  match word m.1 with
  | "proof" => pure (counts.set 0 (UInt32.ofNat n) proof_slot)
  | "checked" => pure (counts.set 1 (UInt32.ofNat n) checked_slot)
  | "assumed" => pure (counts.set 2 (UInt32.ofNat n) assumed_slot)
  | "open" => pure (counts.set 3 (UInt32.ofNat n) open_slot)
  | _ => pure counts

def certifierMember (spec : VerifyManifestSpec) (m : List Char × List Char) :
    Except String VerifyManifestSpec :=
  match word m.1 with
  | "class" => do
    let cls ← expect (certifierClassOf m.2) "tyu.vm/1: unknown certifier class"
    pure { spec with certifierClass := cls }
  | "name" => pure { spec with certifierName := utf8 (word m.2) }
  | "recognition" => pure { spec with certifierRecognition := utf8 (word m.2) }
  | _ => pure spec

def readCounts (r : Reading) : Except String VerifyManifestSpec :=
  match r.counts with
  | some members => do
    let counts ← members.foldlM countMember #v[0, 0, 0, 0]
    pure { r.spec with counts := counts }
  | none => pure r.spec

def readCertifier (r : Reading) (spec : VerifyManifestSpec) : Except String VerifyManifestSpec :=
  match r.certifier with
  | some members => members.foldlM certifierMember spec
  | none => pure spec

def finish (r : Reading) : Except String VerifyManifestSpec := do
  require (r.seenSchema = true) "tyu.vm/1: no schema field"
  let spec ← readCounts r
  readCertifier r spec

def verifyManifestFromJson (text : List Char) : Except String VerifyManifestSpec := do
  let trimmed := trim text
  require (trimmed.head? = some '\x7b') "tyu.vm/1: expected a JSON object"
  let members ← parseObject trimmed
  let reading ← members.foldlM summaryMember Reading.blank
  finish reading

end SummaryReader

/-!
## Texts the summary reader takes apart

Strings without a quote leave the scanner at its level, whatever else they contain.  The count of
the braces and of the brackets sees the strings too, so an object or an array is found only when
its own count comes out.
-/

namespace SummaryReader

structure Trimmed (text : List Char) : Prop where
  head : ∀ c ∈ text.head?, Cert.isWhiteSpace c = false
  last : ∀ c ∈ text.getLast?, Cert.isWhiteSpace c = false

theorem dropWhile_of_head {p : Char → Bool} {text : List Char} (h : ∀ c ∈ text.head?, p c = false) :
    text.dropWhile p = text := by
  cases text with
  | nil => rfl
  | cons c text => exact List.dropWhile_cons_of_neg (by rw [h c rfl]; exact Bool.false_ne_true)

theorem trim_of_trimmed {text : List Char} (h : Trimmed text) : trim text = text := by
  unfold trim
  rw [dropWhile_of_head h.head, dropWhile_of_head, List.reverse_reverse]
  intro c hc
  rw [List.head?_reverse] at hc
  exact h.last c hc

theorem trim_newline {text : List Char} (h : Trimmed text) (hne : text ≠ []) :
    trim (text ++ ['\n']) = text := by
  have hhead : (text ++ ['\n']).dropWhile Cert.isWhiteSpace = text ++ ['\n'] := by
    apply dropWhile_of_head
    intro c hc
    rw [List.head?_append_of_ne_nil _ hne] at hc
    exact h.head c hc
  unfold trim
  rw [hhead, List.reverse_append, List.reverse_singleton, List.singleton_append,
    List.dropWhile_cons_of_pos (by decide), dropWhile_of_head, List.reverse_reverse]
  intro c hc
  rw [List.head?_reverse] at hc
  exact h.last c hc

theorem trimmed_ends {c d : Char} {mid : List Char} (hc : Cert.isWhiteSpace c = false)
    (hd : Cert.isWhiteSpace d = false) : Trimmed (c :: (mid ++ [d])) where
  head := by
    intro b hb
    rw [List.head?_cons, Option.mem_some_iff] at hb
    rw [← hb]
    exact hc
  last := by
    intro b hb
    rw [← List.cons_append, List.getLast?_concat, Option.mem_some_iff] at hb
    rw [← hb]
    exact hd

def quoted (s : List Char) : List Char := '"' :: (s ++ ['"'])

theorem trimmed_quoted (s : List Char) : Trimmed (quoted s) := trimmed_ends (by decide) (by decide)

theorem unquote_quoted (s : List Char) : unquote (quoted s) = s := by
  unfold unquote
  rw [trim_of_trimmed (trimmed_quoted s)]
  dsimp only
  rw [if_pos]
  · unfold quoted
    rw [List.tail_cons, List.dropLast_concat]
  · refine ⟨?_, rfl, ?_⟩
    · unfold quoted
      rw [List.length_cons, List.length_append]
      exact Nat.succ_le_succ (Nat.le_add_left 1 _)
    · unfold quoted
      rw [← List.cons_append, List.getLast?_concat]

/-- A text that is read at one level: it closes what it opens, and no comma outside a bracket
stands in it. -/
def Level (text : List Char) : Prop :=
  ∀ d : Int, 0 ≤ d → scan (topLevelStep ',') (d, false) text = some (d, false)

theorem Level.append {front back : List Char} (hfront : Level front) (hback : Level back) :
    Level (front ++ back) :=
  fun d hd => scan_append_of (hfront d hd) (hback d hd)

theorem step_in_string {sep c : Char} {d : Int} (hc : c ≠ '"') :
    topLevelStep sep (d, true) c = some (d, true) := by
  unfold topLevelStep
  rw [if_neg hc, if_neg (by simp), if_neg (by simp), if_neg (by simp)]

theorem level_quoted {s : List Char} (hs : '"' ∉ s) : Level (quoted s) := by
  intro d _
  have hinside : scan (topLevelStep ',') (d, true) s = some (d, true) :=
    scan_same fun c hc => step_in_string fun h => hs (h ▸ hc)
  have hclose : scan (topLevelStep ',') (d, true) ['"'] = some (d, false) := rfl
  exact scan_append_of (f := ['"']) rfl (scan_append_of hinside hclose)

def DELIMITERS : List Char := ['"', '\x7b', '\x7d', '[', ']', ',']

theorem level_of_plain {text : List Char} (h : ∀ c ∈ text, c ∉ DELIMITERS) : Level text := by
  intro d _
  apply scan_same
  intro c hc
  have hplain := h c hc
  unfold DELIMITERS at hplain
  simp only [List.mem_cons, List.not_mem_nil, or_false, not_or] at hplain
  obtain ⟨hquote, hopen, hclose, hopen', hclose', hcomma⟩ := hplain
  unfold topLevelStep
  rw [if_neg hquote, if_neg fun h => h.1.elim hopen hopen', if_neg fun h => h.1.elim hclose hclose',
    if_neg fun h => hcomma h.1]

theorem scan_joined {d : Int} (hd : 0 < d) {parts : List (List Char)}
    (h : ∀ p ∈ parts, Level p) :
    scan (topLevelStep ',') (d, false) ([','].intercalate parts) = some (d, false) := by
  induction parts with
  | nil => rfl
  | cons p parts ih =>
    have hp := h p List.mem_cons_self d (le_of_lt hd)
    cases parts with
    | nil =>
      rw [List.intercalate_singleton]
      exact hp
    | cons q parts =>
      have hcomma : scan (topLevelStep ',') (d, false) [','] = some (d, false) := by
        rw [scan_cons]
        unfold topLevelStep
        rw [if_neg (by decide), if_neg (by simp), if_neg (by simp),
          if_neg fun h => absurd h.2.2 (ne_of_gt hd)]
        rfl
      rw [List.intercalate_cons_cons, List.append_assoc]
      exact scan_append_of hp (scan_append_of hcomma
        (ih fun p' hp' => h p' (List.mem_cons_of_mem _ hp')))

def object (parts : List (List Char)) : List Char :=
  '\x7b' :: ([','].intercalate parts ++ ['\x7d'])

def array (items : List (List Char)) : List Char := '[' :: ([','].intercalate items ++ [']'])

theorem level_bracketed {«open» close : Char} {parts : List (List Char)}
    (hopen : ∀ d, topLevelStep ',' (d, false) «open» = some (d + 1, false))
    (hclose : ∀ d, topLevelStep ',' (d, false) close = some (d - 1, false))
    (h : ∀ p ∈ parts, Level p) : Level («open» :: ([','].intercalate parts ++ [close])) := by
  intro d hd
  have hfirst : scan (topLevelStep ',') (d, false) [«open»] = some (d + 1, false) := by
    rw [scan_cons, hopen]
    rfl
  have hlast : scan (topLevelStep ',') (d + 1, false) [close] = some (d, false) := by
    rw [scan_cons, hclose]
    simp [scan_nil]
  exact scan_append_of (f := [«open»]) hfirst
    (scan_append_of (scan_joined (by omega) h) hlast)

theorem level_object {parts : List (List Char)} (h : ∀ p ∈ parts, Level p) :
    Level (object parts) := level_bracketed (fun _ => rfl) (fun _ => rfl) h

theorem level_array {items : List (List Char)} (h : ∀ p ∈ items, Level p) :
    Level (array items) := level_bracketed (fun _ => rfl) (fun _ => rfl) h

def Balanced («open» close : Char) (text : List Char) : Prop :=
  scan (balancedStep «open» close) 1 text = some 1

section Balance

variable {«open» close : Char}

theorem scan_absent {text : List Char} (hopen : «open» ∉ text) (hclose : close ∉ text) (d : Nat) :
    scan (balancedStep «open» close) d text = some d := by
  apply scan_same
  intro c hc
  have hne : c ≠ «open» := fun h => hopen (h ▸ hc)
  have hne' : c ≠ close := fun h => hclose (h ▸ hc)
  unfold balancedStep
  rw [if_neg hne, if_neg hne']

theorem scan_deeper {d d' : Nat} (n : Nat) {text : List Char} (hd : 1 ≤ d)
    (h : scan (balancedStep «open» close) d text = some d') :
    scan (balancedStep «open» close) (d + n) text = some (d' + n) := by
  induction text generalizing d with
  | nil =>
    cases h
    rfl
  | cons c text ih =>
    rw [scan_cons] at h ⊢
    obtain ⟨mid, hstep, h⟩ := Option.bind_eq_some_iff.mp h
    have hmid : 1 ≤ mid ∧ balancedStep «open» close (d + n) c = some (mid + n) := by
      unfold balancedStep at hstep ⊢
      by_cases hopen : c = «open»
      · rw [if_pos hopen] at hstep ⊢
        cases hstep
        exact ⟨by omega, by congr 1; omega⟩
      · rw [if_neg hopen] at hstep ⊢
        by_cases hclose : c = close
        · rw [if_pos hclose] at hstep ⊢
          split at hstep
          · cases hstep
          · cases hstep
            rw [if_neg (by omega)]
            exact ⟨by omega, by congr 1; omega⟩
        · rw [if_neg hclose] at hstep ⊢
          cases hstep
          exact ⟨hd, rfl⟩
    rw [hmid.2]
    exact ih hmid.1 h

theorem Balanced.scan {text : List Char} (h : Balanced «open» close text) {d : Nat} (hd : 1 ≤ d) :
    Lib.scan (balancedStep «open» close) d text = some d := by
  obtain ⟨n, rfl⟩ := Nat.exists_eq_add_of_le hd
  exact scan_deeper n (Nat.le_refl 1) h

theorem Balanced.enclosed {text : List Char} (hne : close ≠ «open»)
    (h : Balanced «open» close text) : Balanced «open» close («open» :: (text ++ [close])) := by
  have hopen : Lib.scan (balancedStep «open» close) 1 [«open»] = some 2 := by
    rw [scan_cons]
    unfold balancedStep
    rw [if_pos rfl]
    rfl
  have hclose : Lib.scan (balancedStep «open» close) 2 [close] = some 1 := by
    rw [scan_cons]
    unfold balancedStep
    rw [if_neg hne, if_pos rfl]
    rfl
  exact scan_append_of (f := [«open»]) hopen (scan_append_of (h.scan (by omega)) hclose)

theorem splitBalanced_enclosed {text r : List Char} (hne : close ≠ «open»)
    (h : Balanced «open» close text) :
    splitBalanced («open» :: (text ++ close :: r)) «open» close = .ok («open» :: text, r) := by
  have hopen : Lib.scan (balancedStep «open» close) 0 («open» :: text) = some 1 := by
    rw [scan_cons]
    unfold balancedStep
    rw [if_pos rfl]
    exact h
  have hclose : balancedStep «open» close 1 close = none := by
    unfold balancedStep
    rw [if_neg hne, if_pos rfl]
    rfl
  unfold splitBalanced
  rw [← List.cons_append, cut_append hopen hclose]
  rfl

end Balance

end SummaryReader

end Tyu

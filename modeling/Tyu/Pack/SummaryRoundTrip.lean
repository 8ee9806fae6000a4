import Tyu.Pack.SummaryReader

/-!
# Summaries that are read as they were written

The documents of the build come back whole when their strings need no escape, their hashes are
hex digits and the counts of the braces and brackets in their strings come out even.
-/

namespace Tyu

open Lib Lib.Json Manifest Summary

namespace SummaryReader

/-- A text as a value is written: without white space at its ends, and read at one level. -/
structure Value (v : List Char) : Prop where
  level : Level v
  trimmed : Trimmed v
  ne : v ≠ []

theorem value_quoted {s : List Char} (hs : '"' ∉ s) : Value (quoted s) :=
  ⟨level_quoted hs, trimmed_quoted s, List.cons_ne_nil _ _⟩

theorem value_object {parts : List (List Char)} (h : ∀ p ∈ parts, Level p) :
    Value (object parts) :=
  ⟨level_object h, trimmed_ends (by decide) (by decide), List.cons_ne_nil _ _⟩

theorem value_array {items : List (List Char)} (h : ∀ p ∈ items, Level p) :
    Value (array items) :=
  ⟨level_array h, trimmed_ends (by decide) (by decide), List.cons_ne_nil _ _⟩

variable {n : Nat} {c : Char} {k : List Char} {rows : List Row}

theorem digit_plain (hc : c ∈ Nat.toDigits 10 n) :
    c ∉ DELIMITERS ∧ Cert.isWhiteSpace c = false ∧ c.isDigit = true := by
  have hdigit := Nat.isDigit_of_mem_toDigits (by decide) (by decide) hc
  have hall : ∀ c : Char, c.isDigit = true → c ∉ DELIMITERS ∧ Cert.isWhiteSpace c = false := by
    intro c hc
    obtain ⟨hlo, hhi⟩ : '0' ≤ c ∧ c ≤ '9' := by
      rw [Char.isDigit, Bool.and_eq_true, decide_eq_true_eq, decide_eq_true_eq] at hc
      exact ⟨hc.1, hc.2⟩
    have hlo' : 48 ≤ c.toNat := hlo
    have hhi' : c.toNat ≤ 57 := hhi
    constructor
    · intro hmem
      have hdel : ∀ d ∈ DELIMITERS, d.toNat < 48 ∨ 57 < d.toNat := by decide
      have := hdel c hmem
      omega
    · unfold Cert.isWhiteSpace
      simp only [Bool.or_eq_false_iff, Bool.and_eq_false_iff, decide_eq_false_iff_not, beq_eq_false_iff_ne]
      omega
  exact ⟨(hall c hdigit).1, (hall c hdigit).2, hdigit⟩

theorem value_number (n : Nat) : Value (Nat.toDigits 10 n) where
  level := level_of_plain fun _ hc => (digit_plain hc).1
  trimmed :=
    ⟨fun _ hc => (digit_plain (List.mem_of_mem_head? hc)).2.1,
      fun _ hc => (digit_plain (List.mem_of_mem_getLast? hc)).2.1⟩
  ne := Nat.toDigits_ne_nil

theorem parseValue_quoted (s : List Char) : parseValue (quoted s) = .ok s := by
  unfold parseValue
  have hhead : (quoted s).head? = some '"' := rfl
  rw [hhead, if_neg (by decide), if_neg (by decide), if_pos rfl, unquote_quoted]
  rfl

theorem parseValue_object {parts : List (List Char)}
    (h : Balanced '\x7b' '\x7d' ([','].intercalate parts)) :
    parseValue (object parts) = .ok (object parts) := by
  have hhead : (object parts).head? = some '\x7b' := rfl
  unfold parseValue
  rw [hhead, if_pos rfl]
  unfold object
  rw [splitBalanced_enclosed (by decide) h]
  rfl

theorem parseValue_array {items : List (List Char)}
    (h : Balanced '[' ']' ([','].intercalate items)) :
    parseValue (array items) = .ok (array items) := by
  have hhead : (array items).head? = some '[' := rfl
  unfold parseValue
  rw [hhead, if_neg (by decide), if_pos rfl]
  unfold array
  rw [splitBalanced_enclosed (by decide) h]
  rfl

theorem parseValue_number (n : Nat) : parseValue (Nat.toDigits 10 n) = .ok (Nat.toDigits 10 n) := by
  have hhead : ∀ c, (Nat.toDigits 10 n).head? = some c → c ∉ DELIMITERS :=
    fun c hc => (digit_plain (List.mem_of_mem_head? hc)).1
  have htake : (Nat.toDigits 10 n).takeWhile (· ≠ ',') = Nat.toDigits 10 n := by
    rw [List.takeWhile_eq_self_iff]
    intro c hc
    have hne : c ≠ ',' := fun h => (digit_plain hc).1 (by rw [h]; decide)
    simpa using hne
  unfold parseValue
  rw [if_neg fun h => hhead _ h (by decide), if_neg fun h => hhead _ h (by decide),
    if_neg fun h => hhead _ h (by decide), htake, trim_of_trimmed (value_number n).trimmed]
  rfl

/-! ## Members and objects -/

def member (k v : List Char) : List Char := quoted k ++ ':' :: v

theorem level_member {v : List Char} (hk : '"' ∉ k) (hv : Level v) : Level (member k v) := by
  have hcolon : Level [':'] := level_of_plain (by decide)
  unfold member
  rw [← List.singleton_append]
  exact (level_quoted hk).append (hcolon.append hv)

theorem trimmed_member {v : List Char} (hv : Value v) : Trimmed (member k v) where
  head := fun c hc => (trimmed_quoted k).head c hc
  last := by
    intro c hc
    unfold member at hc
    rw [List.getLast?_append_of_ne_nil _ (List.cons_ne_nil _ _)] at hc
    rw [List.getLast?_cons_of_ne_nil hv.ne] at hc
    exact hv.trimmed.last c hc

theorem parsePair_member {v : List Char} (hk : ':' ∉ k) (hv : Value v) :
    parsePair (member k v) = (parseValue v).map fun value => (k, value) := by
  have hquoted : ∀ c ∈ quoted k, (decide (c ≠ ':')) = true := by
    intro c hc
    unfold quoted at hc
    rw [List.mem_cons, List.mem_append, List.mem_singleton] at hc
    have hne : c ≠ ':' := by
      rintro rfl
      rcases hc with hc | hc | hc
      · exact absurd hc (by decide)
      · exact hk hc
      · exact absurd hc (by decide)
    simpa using hne
  have hfront : (member k v).takeWhile (· ≠ ':') = quoted k := by
    unfold member
    rw [List.takeWhile_append_of_pos hquoted, List.takeWhile_cons_of_neg (by simp),
      List.append_nil]
  have hback : ((member k v).dropWhile (· ≠ ':')).tail = v := by
    unfold member
    rw [List.dropWhile_append_of_pos hquoted, List.dropWhile_cons_of_neg (by simp), List.tail_cons]
  have hcolon : ':' ∈ member k v := List.mem_append_right _ List.mem_cons_self
  have hrequire : require (':' ∈ member k v) "expected ':'" = .ok ⟨⟩ := require_eq_ok.mpr hcolon
  unfold parsePair
  rw [trim_of_trimmed (trimmed_member hv)]
  dsimp only
  rw [hfront, hback, hrequire, trim_of_trimmed (trimmed_quoted k), unquote_quoted,
    trim_of_trimmed hv.trimmed]
  cases parseValue v <;> rfl

theorem mapM_congr_of_mem {ε α β : Type} {f g : α → Except ε β} {l : List α}
    (h : ∀ a ∈ l, f a = g a) : l.mapM f = l.mapM g := by
  induction l with
  | nil => rfl
  | cons a l ih =>
    rw [List.mapM_cons, List.mapM_cons, h a List.mem_cons_self,
      ih fun b hb => h b (List.mem_cons_of_mem a hb)]

abbrev Members := List (List Char × List Char)

def objectOf (ms : Members) : List Char := object (ms.map fun m => member m.1 m.2)

structure Writable (ms : Members) : Prop where
  ne : ms ≠ []
  keys : ∀ m ∈ ms, '"' ∉ m.1 ∧ ':' ∉ m.1
  values : ∀ m ∈ ms, Value m.2

theorem Writable.level {ms : Members} (h : Writable ms) :
    ∀ p ∈ ms.map fun m => member m.1 m.2, Level p := by
  intro p hp
  obtain ⟨m, hm, rfl⟩ := List.mem_map.mp hp
  exact level_member (h.keys m hm).1 (h.values m hm).level

theorem parseObject_objectOf {ms : Members} (h : Writable ms)
    (hbraces : Balanced '\x7b' '\x7d' ([','].intercalate (ms.map fun m => member m.1 m.2))) :
    parseObject (objectOf ms) =
      ms.mapM fun m => (parseValue m.2).map fun value => (m.1, value) := by
  have hparts : splitTopLevel ([','].intercalate (ms.map fun m => member m.1 m.2)) ',' =
      ms.map fun m => member m.1 m.2 :=
    pieces_join rfl (by simpa using h.ne) fun p hp => h.level p hp 0 (Int.le_refl 0)
  have htrim : ∀ m ∈ ms, trim (member m.1 m.2) = member m.1 m.2 := fun m hm =>
    trim_of_trimmed (trimmed_member (h.values m hm))
  have hfilter : (ms.map fun m => member m.1 m.2).filter (fun part => trim part ≠ []) =
      ms.map fun m => member m.1 m.2 := by
    rw [List.filter_eq_self]
    intro p hp
    obtain ⟨m, hm, rfl⟩ := List.mem_map.mp hp
    rw [htrim m hm]
    simp [member, quoted]
  have htext : trim (objectOf ms) = objectOf ms := trim_of_trimmed (value_object h.level).trimmed
  have hhead : require ((objectOf ms).head? = some '\x7b') "expected '\x7b'" = .ok ⟨⟩ :=
    require_eq_ok.mpr rfl
  have hsplit := splitBalanced_enclosed (r := []) (by decide) hbraces
  unfold parseObject
  rw [htext]
  dsimp only
  rw [hhead, show splitBalanced (objectOf ms) '\x7b' '\x7d' = _ from hsplit]
  show ((splitTopLevel ([','].intercalate (ms.map fun m => member m.1 m.2)) ',').filter
    fun part => trim part ≠ []).mapM (fun part => parsePair (trim part)) = _
  rw [hparts, hfilter, List.mapM_map]
  refine mapM_congr_of_mem fun m hm => ?_
  show parsePair (trim (member m.1 m.2)) = _
  rw [htrim m hm, parsePair_member (h.keys m hm).2 (h.values m hm)]

def Plain (s : String) : Prop := ∀ c ∈ s.toList, c ∉ ['"', '\\', '\n', '\r', '\t']

instance (s : String) : Decidable (Plain s) :=
  inferInstanceAs (Decidable (∀ c ∈ s.toList, c ∉ ['"', '\\', '\n', '\r', '\t']))

theorem jstr_plain {s : String} (h : Plain s) : (jstr s).toList = quoted s.toList := by
  have hsame : s.toList.flatMap jstrChar = s.toList := by
    have hchar : ∀ c ∈ s.toList, jstrChar c = [c] := by
      intro c hc
      have hplain := h c hc
      simp only [List.mem_cons, List.not_mem_nil, or_false, not_or] at hplain
      obtain ⟨hquote, hslash, hline, hreturn, htab⟩ := hplain
      unfold jstrChar
      split
      · exact absurd rfl hquote
      · exact absurd rfl hslash
      · exact absurd rfl hline
      · exact absurd rfl hreturn
      · exact absurd rfl htab
      · rfl
    rw [List.flatMap_congr hchar, List.flatMap_singleton']
  unfold jstr
  rw [hsame, String.ofList_toList, String.toList_append, String.toList_append]
  rfl

theorem toList_toString (n : Nat) : (toString n).toList = Nat.toDigits 10 n := by
  rw [Nat.toString_eq_repr, Nat.toList_repr]

def rowHash (r : Row) : Nat := (fromStrRadix16 r.idHash.toList).getD 0

def rowMembers (r : Row) : Members :=
  [("id".toList, quoted r.id.toList), ("id_hash".toList, Nat.toDigits 10 (rowHash r)),
    ("status".toList, quoted (VerdictFile.statusStr r.status).toList),
    ("trust".toList, quoted (VerdictFile.trustStr r.trust).toList),
    ("statement_hash".toList, quoted r.statementHash.toList)]

theorem rowText_toList {r : Row} (hid : Plain r.id) (hhash : Plain r.statementHash) :
    (rowText r).toList = objectOf (rowMembers r) := by
  have hstatus : Plain (VerdictFile.statusStr r.status) := by
    cases r.status <;> decide
  have htrust : Plain (VerdictFile.trustStr r.trust) := by
    cases r.trust <;> decide
  unfold rowText
  simp only [String.toList_append, jstr_plain hid, jstr_plain hhash, jstr_plain hstatus,
    jstr_plain htrust, toList_toString]
  unfold objectOf object rowMembers
  simp only [List.map_cons, List.map_nil, List.intercalate_cons_cons, List.intercalate_singleton,
    member, List.append_assoc]
  rfl

theorem parseUnsigned_toDigits {bits : Nat} (h : n < 2 ^ bits) :
    parseUnsigned bits (Nat.toDigits 10 n) = some n := by
  have hdigits : ∀ c ∈ Nat.toDigits 10 n, c.isDigit = true := fun c hc => (digit_plain hc).2.2
  have hplus : (Nat.toDigits 10 n).head? ≠ some '+' := by
    intro hhead
    exact absurd (hdigits _ (List.mem_of_mem_head? hhead)) (by decide)
  unfold parseUnsigned
  rw [if_neg hplus]
  dsimp only
  rw [Nat.ofDigitChars_ten_toDigits, if_pos]
  exact ⟨Nat.toDigits_ne_nil, List.all_eq_true.mpr hdigits, h⟩

theorem pushHexDigit_lt {n' : Nat} (h : pushHexDigit n c = some n') : n' < 2 ^ 64 := by
  unfold pushHexDigit at h
  obtain ⟨d, -, h⟩ := Option.bind_eq_some_iff.mp h
  split at h
  · rename_i hlt
    cases h
    exact hlt
  · cases h

theorem foldlM_pushHexDigit_lt {digits : List Char} {n' : Nat} (hn : n < 2 ^ 64)
    (h : digits.foldlM pushHexDigit n = some n') : n' < 2 ^ 64 := by
  induction digits generalizing n with
  | nil =>
    cases h
    exact hn
  | cons c digits ih =>
    rw [List.foldlM_cons] at h
    obtain ⟨mid, hmid, h⟩ := Option.bind_eq_some_iff.mp h
    exact ih (pushHexDigit_lt hmid) h

theorem rowHash_lt (r : Row) : rowHash r < 2 ^ 64 := by
  unfold rowHash
  cases h : fromStrRadix16 r.idHash.toList with
  | none => decide
  | some n =>
    have hfold : ∀ digits : List Char,
        (if digits = [] then none else digits.foldlM pushHexDigit 0) = some n → n < 2 ^ 64 := by
      intro digits hdigits
      split at hdigits
      · cases hdigits
      · exact foldlM_pushHexDigit_lt (by decide) hdigits
    exact hfold _ h

theorem hexValue_of_hexBytes {text : List Char} {bytes : Bytes} (h : hexBytes text = some bytes) :
    ∀ c ∈ text, (hexValue c).isSome = true := by
  induction text using hexBytes.induct generalizing bytes with
  | case1 =>
    intro c hc
    cases hc
  | case2 => cases h
  | case3 hi lo text ih =>
    rw [hexBytes] at h
    obtain ⟨n, hn, h⟩ := Option.bind_eq_some_iff.mp h
    obtain ⟨m, hm, h⟩ := Option.bind_eq_some_iff.mp h
    obtain ⟨bytes', hbytes, h⟩ := Option.bind_eq_some_iff.mp h
    intro c hc
    rw [List.mem_cons, List.mem_cons] at hc
    obtain rfl | rfl | hc := hc
    · rw [hn]
      rfl
    · rw [hm]
      rfl
    · exact ih hbytes c hc

theorem hash_plain {text : List Char} {hash : Sha256Digest} (h : parseHex32 text = some hash)
    (hc : c ∈ text) : c ∉ ['"', '\\', '\n', '\r', '\t', '\x7b', '\x7d', '[', ']'] := by
  obtain ⟨bytes, hbytes, -⟩ := Option.bind_eq_some_iff.mp h
  have hhex := hexValue_of_hexBytes hbytes c hc
  intro hmem
  have hnone : ∀ d ∈ ['"', '\\', '\n', '\r', '\t', '\x7b', '\x7d', '[', ']'],
      hexValue d = none := by
    decide
  rw [hnone c hmem] at hhex
  cases hhex

def statusCode : VerdictStatus → UInt8
  | .opened => VM_STATUS_OPEN
  | .discharged => VM_STATUS_DISCHARGED
  | .assumed => VM_STATUS_ASSUMED

def trustCode : Trust → UInt8
  | .opened => VM_TRUST_OPEN
  | .assumed => VM_TRUST_ASSUMED
  | .checked => VM_TRUST_CHECKED
  | .proof => VM_TRUST_PROOF

structure IsRow (r : Row) (o : ObligationSpec) : Prop where
  id : o.id = utf8 r.id
  idHash : o.idHash.toNat = rowHash r
  status : o.status = statusCode r.status
  trust : o.trust = trustCode r.trust
  statementHash : parseHex32 r.statementHash.toList = some o.statementHash

/-- A row that is read as it was written: its id needs no escape and its braces come out even, and
its hash is one. -/
structure ReadableRow (r : Row) : Prop where
  id : Plain r.id
  braces : Balanced '\x7b' '\x7d' r.id.toList
  hash : (parseHex32 r.statementHash.toList).isSome = true

theorem ReadableRow.hash_plain {r : Row} (h : ReadableRow r) (hc : c ∈ r.statementHash.toList) :
    c ∉ ['"', '\\', '\n', '\r', '\t', '\x7b', '\x7d', '[', ']'] := by
  obtain ⟨hash, hhash⟩ := Option.isSome_iff_exists.mp h.hash
  exact SummaryReader.hash_plain hhash hc

theorem Plain.quote {s : String} (h : Plain s) : '"' ∉ s.toList :=
  fun hc => h _ hc (by decide)

theorem writable_row {r : Row} (h : ReadableRow r) : Writable (rowMembers r) := by
  have hstatus : '"' ∉ (VerdictFile.statusStr r.status).toList := by
    cases r.status <;> decide
  have htrust : '"' ∉ (VerdictFile.trustStr r.trust).toList := by
    cases r.trust <;> decide
  have hhash : '"' ∉ r.statementHash.toList := fun hc => h.hash_plain hc (by decide)
  refine ⟨List.cons_ne_nil _ _, ?_, ?_⟩
  · intro m hm
    have hkeys : ∀ k ∈ (rowMembers r).map Prod.fst, '"' ∉ k ∧ ':' ∉ k := by
      show ∀ k ∈ ["id".toList, "id_hash".toList, "status".toList, "trust".toList,
        "statement_hash".toList], '"' ∉ k ∧ ':' ∉ k
      decide
    exact hkeys m.1 (List.mem_map.mpr ⟨m, hm, rfl⟩)
  · unfold rowMembers
    simp only [List.forall_mem_cons]
    exact ⟨value_quoted h.id.quote, value_number _, value_quoted hstatus, value_quoted htrust,
      value_quoted hhash, fun _ hm => nomatch hm⟩

/-! ## Counts over a document -/

def BRACKETS : List Char := ['\x7b', '\x7d', '[', ']']

section Balance

variable {«open» close : Char} (hopen : «open» ∈ BRACKETS) (hclose : close ∈ BRACKETS)

include hopen hclose

theorem scan_plain {text : List Char} (h : ∀ b ∈ BRACKETS, b ∉ text) (d : Nat) :
    scan (balancedStep «open» close) d text = some d :=
  scan_absent (h _ hopen) (h _ hclose) d

variable {d d' : Nat}

theorem scan_quoted {s : List Char} (h : scan (balancedStep «open» close) d s = some d') :
    scan (balancedStep «open» close) d (quoted s) = some d' := by
  have hquote : ∀ d, scan (balancedStep «open» close) d ['"'] = some d :=
    scan_plain hopen hclose (by decide)
  exact scan_append_of (f := ['"']) (hquote d) (scan_append_of h (hquote d'))

theorem scan_number (d n : Nat) :
    scan (balancedStep «open» close) d (Nat.toDigits 10 n) = some d := by
  have hdelimiters : ∀ b ∈ BRACKETS, b ∈ DELIMITERS := by decide
  exact scan_plain hopen hclose (fun b hb hc => (digit_plain hc).1 (hdelimiters b hb)) d

theorem scan_even_parts {parts : List (List Char)}
    (h : ∀ p ∈ parts, scan (balancedStep «open» close) d p = some d) :
    scan (balancedStep «open» close) d ([','].intercalate parts) = some d := by
  induction parts with
  | nil => rfl
  | cons p parts ih =>
    have hp := h p List.mem_cons_self
    cases parts with
    | nil =>
      rw [List.intercalate_singleton]
      exact hp
    | cons q parts =>
      rw [List.intercalate_cons_cons, List.append_assoc]
      exact scan_append_of hp (scan_append_of (scan_plain hopen hclose (by decide) d)
        (ih fun p' hp' => h p' (List.mem_cons_of_mem _ hp')))

theorem scan_member {k v : List Char} (hk : ∀ b ∈ BRACKETS, b ∉ k)
    (hv : scan (balancedStep «open» close) d v = some d') :
    scan (balancedStep «open» close) d (member k v) = some d' := by
  have hkey := scan_quoted hopen hclose (scan_plain hopen hclose hk d)
  have hcolon : scan (balancedStep «open» close) d [':'] = some d :=
    scan_plain hopen hclose (by decide) d
  exact scan_append_of hkey (scan_append_of (f := [':']) hcolon hv)

def rowRest (r : Row) : List Char :=
  ",\"id_hash\":".toList ++ (Nat.toDigits 10 (rowHash r) ++ (",\"status\":".toList ++
    (quoted (VerdictFile.statusStr r.status).toList ++ (",\"trust\":".toList ++
      (quoted (VerdictFile.trustStr r.trust).toList ++ (",\"statement_hash\":".toList ++
        quoted r.statementHash.toList))))))

omit hopen hclose in
theorem joined_row (r : Row) : [','].intercalate ((rowMembers r).map fun m => member m.1 m.2) =
    "\"id\":".toList ++ (quoted r.id.toList ++ rowRest r) := by
  unfold rowMembers rowRest
  simp only [List.map_cons, List.map_nil, List.intercalate_cons_cons, List.intercalate_singleton,
    member, List.append_assoc]
  rfl

theorem scan_row {r : Row} (h : ReadableRow r)
    (hid : scan (balancedStep «open» close) d r.id.toList = some d') :
    scan (balancedStep «open» close) d
      ([','].intercalate ((rowMembers r).map fun m => member m.1 m.2)) = some d' := by
  have hstatus : ∀ b ∈ BRACKETS, b ∉ quoted (VerdictFile.statusStr r.status).toList := by
    cases r.status <;> decide
  have htrust : ∀ b ∈ BRACKETS, b ∉ quoted (VerdictFile.trustStr r.trust).toList := by
    cases r.trust <;> decide
  have hnone : ∀ b ∈ BRACKETS, b ∉ r.statementHash.toList := by
    have hlist : ∀ b ∈ BRACKETS, b ∈ ['"', '\\', '\n', '\r', '\t', '\x7b', '\x7d', '[', ']'] := by
      decide
    exact fun b hb hc => h.hash_plain hc (hlist b hb)
  have hplain : ∀ {t : List Char}, (∀ b ∈ BRACKETS, b ∉ t) →
      scan (balancedStep «open» close) d' t = some d' :=
    fun ht => scan_plain hopen hclose ht d'
  rw [joined_row]
  refine scan_append_of (scan_plain hopen hclose (by decide) d) (scan_append_of
    (scan_quoted hopen hclose hid) ?_)
  unfold rowRest
  exact scan_append_of (hplain (by decide)) (scan_append_of (scan_number hopen hclose d' _)
    (scan_append_of (hplain (by decide)) (scan_append_of (hplain hstatus)
      (scan_append_of (hplain (by decide)) (scan_append_of (hplain htrust)
        (scan_append_of (hplain (by decide))
          (scan_quoted hopen hclose (hplain hnone))))))))

end Balance

def rowObject (r : Row) : List Char := objectOf (rowMembers r)

theorem braces_row {r : Row} (h : ReadableRow r) :
    Balanced '\x7b' '\x7d' ([','].intercalate ((rowMembers r).map fun m => member m.1 m.2)) :=
  scan_row (by decide) (by decide) h h.braces

theorem braces_rowObject {r : Row} (h : ReadableRow r) : Balanced '\x7b' '\x7d' (rowObject r) :=
  (braces_row h).enclosed (by decide)

theorem brackets_rowObject {d d' : Nat} {r : Row} (h : ReadableRow r)
    (hid : scan (balancedStep '[' ']') d r.id.toList = some d') :
    scan (balancedStep '[' ']') d (rowObject r) = some d' := by
  refine scan_append_of (f := ['\x7b']) rfl (scan_append_of
    (scan_row (by decide) (by decide) h hid) rfl)

theorem brackets_rows {d d' : Nat} (h : ∀ r ∈ rows, ReadableRow r)
    (hids : scan (balancedStep '[' ']') d (rows.flatMap fun r => r.id.toList) = some d') :
    scan (balancedStep '[' ']') d ([','].intercalate (rows.map rowObject)) = some d' := by
  induction rows generalizing d with
  | nil => exact hids
  | cons r rows ih =>
    rw [List.flatMap_cons, scan_append] at hids
    obtain ⟨mid, hr, hids⟩ := Option.bind_eq_some_iff.mp hids
    have hobject := brackets_rowObject (h r List.mem_cons_self) hr
    have hrest := ih (fun r' hr' => h r' (List.mem_cons_of_mem _ hr')) hids
    cases rows with
    | nil =>
      rw [List.map_singleton, List.intercalate_singleton]
      cases hids
      exact hobject
    | cons r' rows =>
      rw [List.map_cons, List.map_cons, List.intercalate_cons_cons, List.append_assoc]
      exact scan_append_of hobject (scan_append_of (f := [',']) rfl hrest)

/-! ## Reading the rows -/

theorem foldlM_cons_ok {ε α β : Type} {f : β → α → Except ε β} {a : α} {l : List α} {b b' : β}
    (h : f b a = .ok b') : (a :: l).foldlM f b = l.foldlM f b' := by
  rw [List.foldlM_cons, h]
  rfl

section Members

variable {o : ObligationSpec} {text : List Char}

theorem obligationMember_id (s : String) :
    obligationMember o ("id".toList, s.toList) = .ok { o with id := utf8 s } := by
  show Except.ok { o with id := utf8 (String.ofList s.toList) } = _
  rw [String.ofList_toList]

theorem obligationMember_idHash {n : Nat} (h : parseUnsigned 64 text = some n) :
    obligationMember o ("id_hash".toList, text) = .ok { o with idHash := UInt64.ofNat n } := by
  show (expect (parseUnsigned 64 text) _ >>= fun n => _) = _
  rw [h]
  rfl

theorem obligationMember_status {b : UInt8} (h : statusOf text = some b) :
    obligationMember o ("status".toList, text) = .ok { o with status := b } := by
  show (expect (statusOf text) _ >>= fun n => _) = _
  rw [h]
  rfl

theorem obligationMember_trust {b : UInt8} (h : trustOf text = some b) :
    obligationMember o ("trust".toList, text) = .ok { o with trust := b } := by
  show (expect (trustOf text) _ >>= fun n => _) = _
  rw [h]
  rfl

theorem obligationMember_hash {hash : Sha256Digest} (h : parseHex32 text = some hash) :
    obligationMember o ("statement_hash".toList, text) = .ok { o with statementHash := hash } := by
  show (expect (parseHex32 text) _ >>= fun n => _) = _
  rw [h]
  rfl

end Members

theorem parseObligationObj_row {r : Row} (h : ReadableRow r) :
    ∃ o, parseObligationObj (rowObject r) = .ok o ∧ IsRow r o := by
  obtain ⟨hash, hhash⟩ := Option.isSome_iff_exists.mp h.hash
  have hobject : parseObject (rowObject r) = .ok
      [("id".toList, r.id.toList), ("id_hash".toList, Nat.toDigits 10 (rowHash r)),
        ("status".toList, (VerdictFile.statusStr r.status).toList),
        ("trust".toList, (VerdictFile.trustStr r.trust).toList),
        ("statement_hash".toList, r.statementHash.toList)] := by
    rw [rowObject, parseObject_objectOf (writable_row h) (braces_row h)]
    unfold rowMembers
    simp only [List.mapM_cons, List.mapM_nil, parseValue_quoted, parseValue_number]
    rfl
  have hstatus : statusOf (VerdictFile.statusStr r.status).toList = some (statusCode r.status) := by
    cases r.status <;> decide
  have htrust : trustOf (VerdictFile.trustStr r.trust).toList = some (trustCode r.trust) := by
    cases r.trust <;> decide
  refine ⟨⟨utf8 r.id, UInt64.ofNat (rowHash r), statusCode r.status, trustCode r.trust, hash⟩,
    ?_, rfl, UInt64.toNat_ofNat_of_lt' (rowHash_lt r), rfl, rfl, hhash⟩
  unfold parseObligationObj
  rw [hobject]
  show List.foldlM obligationMember ObligationSpec.blank _ = _
  rw [foldlM_cons_ok (obligationMember_id r.id),
    foldlM_cons_ok (obligationMember_idHash (parseUnsigned_toDigits (rowHash_lt r))),
    foldlM_cons_ok (obligationMember_status hstatus),
    foldlM_cons_ok (obligationMember_trust htrust), foldlM_cons_ok (obligationMember_hash hhash)]
  rfl

theorem mapM_rows (h : ∀ r ∈ rows, ReadableRow r) :
    ∃ os, (rows.map rowObject).mapM parseObligationObj = .ok os ∧ List.Forall₂ IsRow rows os := by
  induction rows with
  | nil => exact ⟨[], rfl, .nil⟩
  | cons r rows ih =>
    obtain ⟨o, ho, hrow⟩ := parseObligationObj_row (h r List.mem_cons_self)
    obtain ⟨os, hos, hrows⟩ := ih fun r' hr' => h r' (List.mem_cons_of_mem _ hr')
    refine ⟨o :: os, ?_, .cons hrow hrows⟩
    rw [List.map_cons, List.mapM_cons, ho, hos]
    rfl

theorem parseObligations_rows (h : ∀ r ∈ rows, ReadableRow r)
    (hbrackets : Balanced '[' ']' (rows.flatMap fun r => r.id.toList)) :
    ∃ os, parseObligations (array (rows.map rowObject)) = .ok os ∧ List.Forall₂ IsRow rows os := by
  obtain ⟨os, hos, hrows⟩ := mapM_rows h
  refine ⟨os, ?_, hrows⟩
  have hvalue : ∀ r ∈ rows, Value (rowObject r) := fun r hr =>
    value_object (writable_row (h r hr)).level
  have hlevel : ∀ p ∈ rows.map rowObject, Level p := by
    intro p hp
    obtain ⟨r, hr, rfl⟩ := List.mem_map.mp hp
    exact (hvalue r hr).level
  have hparts : (splitTopLevel ([','].intercalate (rows.map rowObject)) ',').filter
      (fun part => trim part ≠ []) = rows.map rowObject := by
    cases rows with
    | nil => decide
    | cons r rest =>
      have hjoin : splitTopLevel ([','].intercalate ((r :: rest).map rowObject)) ',' =
          (r :: rest).map rowObject :=
        pieces_join rfl (List.cons_ne_nil _ _) fun p hp => hlevel p hp 0 (Int.le_refl 0)
      rw [hjoin, List.filter_eq_self]
      intro p hp
      obtain ⟨r', hr', rfl⟩ := List.mem_map.mp hp
      rw [trim_of_trimmed (hvalue r' hr').trimmed]
      simpa using (hvalue r' hr').ne
  have hids : scan (balancedStep '[' ']') 1 ([','].intercalate (rows.map rowObject)) = some 1 :=
    brackets_rows h hbrackets
  have hsplit := splitBalanced_enclosed (r := []) (by decide) hids
  have harray : arrayParts (array (rows.map rowObject)) = .ok (rows.map rowObject) := by
    have hhead : require ((array (rows.map rowObject)).head? = some '[')
        "expected '[' for obligations" = .ok ⟨⟩ := require_eq_ok.mpr rfl
    unfold arrayParts
    rw [trim_of_trimmed (value_array hlevel).trimmed]
    dsimp only
    rw [hhead, show splitBalanced (array (rows.map rowObject)) '[' ']' = _ from hsplit]
    show Except.ok ((splitTopLevel ([','].intercalate (rows.map rowObject)) ',').filter
      fun part => trim part ≠ []) = _
    rw [hparts]
  unfold parseObligations
  rw [harray]
  exact hos

/-! ## The document -/

theorem toList_intercalate (sep : String) (texts : List String) :
    (String.intercalate sep texts).toList =
      sep.toList.intercalate (texts.map String.toList) := by
  induction texts with
  | nil => rfl
  | cons t texts ih =>
    cases texts with
    | nil => simp
    | cons u texts =>
      rw [String.intercalate_cons_cons, String.toList_append, String.toList_append, ih,
        List.map_cons, List.map_cons, List.map_cons, List.intercalate_cons_cons]

section Document

variable {sha : Digest} {module : String} {policy : Report.VerifyPolicy} {set : OblSet}
  {v : VerdictFile.Verdicts}

def certifierMembers (v : VerdictFile.Verdicts) : Members :=
  [("class".toList, quoted (certifierIdentity v).1.toList),
    ("name".toList, quoted (certifierIdentity v).2.1.toList),
    ("recognition".toList, quoted (certifierIdentity v).2.2.toList)]

def countMembers (rows : List Row) : Members :=
  [("proof".toList, Nat.toDigits 10 (countTrust rows .proof)),
    ("checked".toList, Nat.toDigits 10 (countTrust rows .checked)),
    ("assumed".toList, Nat.toDigits 10 (countTrust rows .assumed)),
    ("open".toList, Nat.toDigits 10 (countTrust rows .opened))]

def summaryMembers (rows : List Row) (policy : Report.VerifyPolicy) (set : OblSet)
    (v : VerdictFile.Verdicts) : Members :=
  [("schema".toList, quoted VM_SCHEMA.toList),
    ("semantics".toList, quoted SEMANTICS_VERSION.toList),
    ("stmt".toList, quoted STMT_SCHEMA.toList),
    ("target".toList, quoted set.target.toList),
    ("model".toList, quoted set.modelSemantics.toList),
    ("policy".toList, quoted policy.asStr.toList),
    ("certifier".toList, objectOf (certifierMembers v)),
    ("candidate_ratio".toList, Nat.toDigits 10 (candidateRatio (countTrust rows .proof))),
    ("counts".toList, objectOf (countMembers rows)),
    ("obligations".toList, array (rows.map rowObject))]

structure Readable (rows : List Row) (set : OblSet) (v : VerdictFile.Verdicts) : Prop where
  target : Plain set.target
  model : Plain set.modelSemantics
  name : Plain (certifierIdentity v).2.1
  braces : Balanced '\x7b' '\x7d' (set.target.toList ++ set.modelSemantics.toList)
  nameBraces : Balanced '\x7b' '\x7d' (certifierIdentity v).2.1.toList
  each : ∀ r ∈ rows, ReadableRow r
  brackets : Balanced '[' ']' (rows.flatMap fun r => r.id.toList)
  counts : rows.length < 2 ^ 32

theorem certifierIdentity_cases (v : VerdictFile.Verdicts) :
    (certifierIdentity v).1 ∈ ["port", "none"] ∧
      (certifierIdentity v).2.2 ∈ ["tyu-port/lean/1", ""] := by
  unfold certifierIdentity
  cases v.certifier with
  | none => decide
  | some c =>
    dsimp only
    split
    · rename_i hknown
      refine ⟨List.mem_cons_self, ?_⟩
      rw [List.contains_iff_mem] at hknown
      exact List.mem_append_left [""] hknown
    · decide

set_option maxRecDepth 2000 in
theorem vmDocument_toList (htarget : Plain set.target) (hmodel : Plain set.modelSemantics)
    (hname : Plain (certifierIdentity v).2.1)
    (heach : ∀ r ∈ vmRows sha module set v, ReadableRow r) :
    (vmDocument sha module policy set v).toList =
      objectOf (summaryMembers (vmRows sha module set v) policy set v) ++ ['\n'] := by
  have hclass : Plain (certifierIdentity v).1 := by
    have hall : ∀ s ∈ ["port", "none"], Plain s := by decide
    exact hall _ (certifierIdentity_cases v).1
  have hrecognition : Plain (certifierIdentity v).2.2 := by
    have hall : ∀ s ∈ ["tyu-port/lean/1", ""], Plain s := by decide
    exact hall _ (certifierIdentity_cases v).2
  have hschema : Plain VM_SCHEMA := by decide
  have hsemantics : Plain SEMANTICS_VERSION := by decide
  have hstmt : Plain STMT_SCHEMA := by decide
  have hpolicy : Plain policy.asStr := by
    cases policy <;> decide
  have hrows : (vmRows sha module set v).map (fun r => (rowText r).toList) =
      (vmRows sha module set v).map rowObject := by
    refine List.map_congr_left fun r hr => rowText_toList (heach r hr).id ?_
    intro c hc hmem
    refine (heach r hr).hash_plain hc ?_
    exact List.mem_append_left ['\x7b', '\x7d', '[', ']'] hmem
  unfold vmDocument
  simp only [String.toList_append, jstr_plain hclass, jstr_plain hrecognition, jstr_plain hschema,
    jstr_plain hsemantics, jstr_plain hstmt, jstr_plain hpolicy, jstr_plain htarget,
    jstr_plain hmodel, jstr_plain hname, toList_toString, toList_intercalate, List.map_map,
    Function.comp_def, hrows]
  unfold objectOf object summaryMembers certifierMembers countMembers
  simp only [List.map_cons, List.map_nil, List.intercalate_cons_cons, List.intercalate_singleton,
    member, List.append_assoc, List.cons_append, objectOf, object, array]
  rfl

theorem balanced_plain {text : List Char} (h : ∀ b ∈ BRACKETS, b ∉ text) :
    Balanced '\x7b' '\x7d' text := scan_plain (by decide) (by decide) h 1

theorem balanced_member {k v : List Char} (hk : ∀ b ∈ BRACKETS, b ∉ k)
    (hv : Balanced '\x7b' '\x7d' v) : Balanced '\x7b' '\x7d' (member k v) :=
  scan_member (by decide) (by decide) hk hv

theorem balanced_number (n : Nat) : Balanced '\x7b' '\x7d' (Nat.toDigits 10 n) :=
  scan_number (by decide) (by decide) 1 n

theorem balanced_quoted {s : List Char} (h : Balanced '\x7b' '\x7d' s) :
    Balanced '\x7b' '\x7d' (quoted s) := scan_quoted (by decide) (by decide) h

theorem braces_certifier (h : Balanced '\x7b' '\x7d' (certifierIdentity v).2.1.toList) :
    Balanced '\x7b' '\x7d'
      ([','].intercalate ((certifierMembers v).map fun m => member m.1 m.2)) := by
  have hclass : ∀ s ∈ ["port", "none"], ∀ b ∈ BRACKETS, b ∉ s.toList := by
    decide
  have hrecognition : ∀ s ∈ ["tyu-port/lean/1", ""], ∀ b ∈ BRACKETS, b ∉ s.toList := by
    decide
  refine scan_even_parts (by decide) (by decide) ?_
  unfold certifierMembers
  simp only [List.map_cons, List.map_nil, List.forall_mem_cons]
  refine ⟨balanced_member (by decide) (balanced_quoted (balanced_plain
      (hclass _ (certifierIdentity_cases v).1))),
    balanced_member (by decide) (balanced_quoted h),
    balanced_member (by decide) (balanced_quoted (balanced_plain
      (hrecognition _ (certifierIdentity_cases v).2))), fun _ hm => nomatch hm⟩

theorem braces_counts (rows : List Row) : Balanced '\x7b' '\x7d'
    ([','].intercalate ((countMembers rows).map fun m => member m.1 m.2)) := by
  refine scan_even_parts (by decide) (by decide) ?_
  unfold countMembers
  simp only [List.map_cons, List.map_nil, List.forall_mem_cons]
  exact ⟨balanced_member (by decide) (balanced_number _),
    balanced_member (by decide) (balanced_number _),
    balanced_member (by decide) (balanced_number _),
    balanced_member (by decide) (balanced_number _), fun _ hm => nomatch hm⟩

variable {rows : List Row}

theorem braces_rows (h : ∀ r ∈ rows, ReadableRow r) :
    Balanced '\x7b' '\x7d' (array (rows.map rowObject)) := by
  have hjoin : Balanced '\x7b' '\x7d' ([','].intercalate (rows.map rowObject)) := by
    refine scan_even_parts (by decide) (by decide) fun p hp => ?_
    obtain ⟨r, hr, rfl⟩ := List.mem_map.mp hp
    exact braces_rowObject (h r hr)
  exact scan_append_of (f := ['[']) rfl (scan_append_of hjoin rfl)

theorem braces_summary (h : Readable rows set v) :
    Balanced '\x7b' '\x7d'
      ([','].intercalate ((summaryMembers rows policy set v).map fun m => member m.1 m.2)) := by
  have hboth := h.braces
  unfold Balanced at hboth
  rw [scan_append] at hboth
  obtain ⟨k, htarget, hmodel⟩ := Option.bind_eq_some_iff.mp hboth
  have hpolicy : ∀ b ∈ BRACKETS, b ∉ quoted policy.asStr.toList := by
    cases policy <;> decide
  have htarget' : scan (balancedStep '\x7b' '\x7d') 1
      (member "target".toList (quoted set.target.toList)) = some k :=
    scan_member (by decide) (by decide) (by decide)
      (scan_quoted (by decide) (by decide) htarget)
  have hmodel' : scan (balancedStep '\x7b' '\x7d') k
      (member "model".toList (quoted set.modelSemantics.toList)) = some 1 :=
    scan_member (by decide) (by decide) (by decide)
      (scan_quoted (by decide) (by decide) hmodel)
  have hcomma : ∀ d, scan (balancedStep '\x7b' '\x7d') d [','] = some d := fun _ => rfl
  unfold summaryMembers
  simp only [List.map_cons, List.map_nil, List.intercalate_cons_cons, List.intercalate_singleton,
    List.append_assoc]
  refine scan_append_of (balanced_member (by decide) (balanced_plain (by decide)))
    (scan_append_of (hcomma 1) ?_)
  refine scan_append_of (balanced_member (by decide) (balanced_plain (by decide)))
    (scan_append_of (hcomma 1) ?_)
  refine scan_append_of (balanced_member (by decide) (balanced_plain (by decide)))
    (scan_append_of (hcomma 1) ?_)
  refine scan_append_of htarget' (scan_append_of (hcomma k) ?_)
  refine scan_append_of hmodel' (scan_append_of (hcomma 1) ?_)
  refine scan_append_of (balanced_member (by decide) (balanced_plain hpolicy))
    (scan_append_of (hcomma 1) ?_)
  refine scan_append_of (balanced_member (by decide)
    ((braces_certifier h.nameBraces).enclosed (by decide))) (scan_append_of (hcomma 1) ?_)
  refine scan_append_of (balanced_member (by decide) (balanced_number _))
    (scan_append_of (hcomma 1) ?_)
  refine scan_append_of (balanced_member (by decide)
    ((braces_counts rows).enclosed (by decide))) (scan_append_of (hcomma 1) ?_)
  exact balanced_member (by decide) (braces_rows h.each)

theorem writable_certifier (h : Plain (certifierIdentity v).2.1) :
    Writable (certifierMembers v) := by
  have hclass : ∀ s ∈ ["port", "none"], '"' ∉ s.toList := by decide
  have hrecognition : ∀ s ∈ ["tyu-port/lean/1", ""], '"' ∉ s.toList := by decide
  refine ⟨List.cons_ne_nil _ _, ?_, ?_⟩
  · unfold certifierMembers
    simp only [List.forall_mem_cons]
    exact ⟨by decide, by decide, by decide, fun _ hm => nomatch hm⟩
  · unfold certifierMembers
    simp only [List.forall_mem_cons]
    exact ⟨value_quoted (hclass _ (certifierIdentity_cases v).1), value_quoted h.quote,
      value_quoted (hrecognition _ (certifierIdentity_cases v).2), fun _ hm => nomatch hm⟩

theorem writable_counts (rows : List Row) : Writable (countMembers rows) := by
  refine ⟨List.cons_ne_nil _ _, ?_, ?_⟩
  · unfold countMembers
    simp only [List.forall_mem_cons]
    exact ⟨by decide, by decide, by decide, by decide,
      fun _ hm => nomatch hm⟩
  · unfold countMembers
    simp only [List.forall_mem_cons]
    exact ⟨value_number _, value_number _, value_number _, value_number _,
      fun _ hm => nomatch hm⟩

theorem writable_summary (h : Readable rows set v) :
    Writable (summaryMembers rows policy set v) := by
  have hpolicy : '"' ∉ policy.asStr.toList := by
    cases policy <;> decide
  have hrows : ∀ p ∈ rows.map rowObject, Level p := by
    intro p hp
    obtain ⟨r, hr, rfl⟩ := List.mem_map.mp hp
    exact level_object (writable_row (h.each r hr)).level
  refine ⟨List.cons_ne_nil _ _, ?_, ?_⟩
  · unfold summaryMembers
    simp only [List.forall_mem_cons]
    exact ⟨by decide, by decide, by decide, by decide,
      by decide, by decide, by decide, by decide,
      by decide, by decide, fun _ hm => nomatch hm⟩
  · unfold summaryMembers
    simp only [List.forall_mem_cons]
    exact ⟨value_quoted (by decide), value_quoted (by decide),
      value_quoted (by decide),
      value_quoted h.target.quote, value_quoted h.model.quote, value_quoted hpolicy,
      value_object (writable_certifier h.name).level, value_number _,
      value_object (writable_counts rows).level, value_array hrows, fun _ hm => nomatch hm⟩

theorem parseObject_certifier (hname : Plain (certifierIdentity v).2.1)
    (hbraces : Balanced '\x7b' '\x7d' (certifierIdentity v).2.1.toList) :
    parseObject (objectOf (certifierMembers v)) = .ok
      [("class".toList, (certifierIdentity v).1.toList),
        ("name".toList, (certifierIdentity v).2.1.toList),
        ("recognition".toList, (certifierIdentity v).2.2.toList)] := by
  rw [parseObject_objectOf (writable_certifier hname) (braces_certifier hbraces)]
  unfold certifierMembers
  simp only [List.mapM_cons, List.mapM_nil, parseValue_quoted]
  rfl

theorem parseObject_counts (rows : List Row) :
    parseObject (objectOf (countMembers rows)) = .ok (countMembers rows) := by
  rw [parseObject_objectOf (writable_counts rows) (braces_counts rows)]
  unfold countMembers
  simp only [List.mapM_cons, List.mapM_nil, parseValue_number]
  rfl

theorem parseObject_summary (h : Readable rows set v) :
    parseObject (objectOf (summaryMembers rows policy set v)) = .ok
      [("schema".toList, VM_SCHEMA.toList), ("semantics".toList, SEMANTICS_VERSION.toList),
        ("stmt".toList, STMT_SCHEMA.toList), ("target".toList, set.target.toList),
        ("model".toList, set.modelSemantics.toList), ("policy".toList, policy.asStr.toList),
        ("certifier".toList, objectOf (certifierMembers v)),
        ("candidate_ratio".toList, Nat.toDigits 10 (candidateRatio (countTrust rows .proof))),
        ("counts".toList, objectOf (countMembers rows)),
        ("obligations".toList, array (rows.map rowObject))] := by
  have hcertifier : parseValue (objectOf (certifierMembers v)) =
      .ok (objectOf (certifierMembers v)) := parseValue_object (braces_certifier h.nameBraces)
  have hcounts : parseValue (objectOf (countMembers rows)) = .ok (objectOf (countMembers rows)) :=
    parseValue_object (braces_counts rows)
  have hrows : parseValue (array (rows.map rowObject)) = .ok (array (rows.map rowObject)) :=
    parseValue_array (brackets_rows h.each h.brackets)
  rw [parseObject_objectOf (writable_summary h) (braces_summary h)]
  unfold summaryMembers
  simp only [List.mapM_cons, List.mapM_nil, parseValue_quoted, parseValue_number, hcertifier,
    hcounts, hrows]
  rfl

def policyCode : Report.VerifyPolicy → UInt8
  | .openOk => VM_POLICY_OPEN_OK
  | .noOpen => VM_POLICY_NO_OPEN
  | .noOpenNoAssumptions => VM_POLICY_NO_OPEN_NO_ASSUMPTIONS
  | .proven => VM_POLICY_PROVEN

/-- A summary as it was written: the identity, the certifier and the counts of the document, and
an obligation for each row. -/
structure IsSummary (rows : List Row) (policy : Report.VerifyPolicy) (set : OblSet)
    (v : VerdictFile.Verdicts) (spec : VerifyManifestSpec) : Prop where
  semantics : spec.semantics = utf8 SEMANTICS_VERSION
  stmt : spec.stmt = utf8 STMT_SCHEMA
  target : spec.target = utf8 set.target
  model : spec.model = utf8 set.modelSemantics
  policy : spec.policy = policyCode policy
  certifierClass : certifierClassOf (certifierIdentity v).1.toList = some spec.certifierClass
  certifierName : spec.certifierName = utf8 (certifierIdentity v).2.1
  certifierRecognition : spec.certifierRecognition = utf8 (certifierIdentity v).2.2
  candidateRatio : spec.candidateRatio.toNat = candidateRatio (countTrust rows .proof)
  counts : spec.counts.toList.map UInt32.toNat =
    [countTrust rows .proof, countTrust rows .checked, countTrust rows .assumed,
      countTrust rows .opened]
  obligations : List.Forall₂ IsRow rows spec.obligations

theorem word_toList (s : String) : word s.toList = s := String.ofList_toList

theorem countMember_set {k : String} {i : Fin 4} {n : Nat} (h : n < 2 ^ 32)
    (hk : (k, i) ∈ [("proof", 0), ("checked", 1), ("assumed", 2), ("open", 3)])
    (counts : Vector UInt32 4) : countMember counts (k.toList, Nat.toDigits 10 n) =
      .ok (counts.set i (UInt32.ofNat n)) := by
  unfold countMember
  rw [parseUnsigned_toDigits h]
  simp only [List.mem_cons, List.not_mem_nil, or_false, Prod.mk.injEq] at hk
  obtain ⟨rfl, rfl⟩ | ⟨rfl, rfl⟩ | ⟨rfl, rfl⟩ | ⟨rfl, rfl⟩ := hk <;> rfl

theorem foldlM_counts (h : rows.length < 2 ^ 32) :
    ∃ counts : Vector UInt32 4,
      (countMembers rows).foldlM countMember #v[0, 0, 0, 0] = .ok counts ∧
      counts.toList.map UInt32.toNat = [countTrust rows .proof, countTrust rows .checked,
        countTrust rows .assumed, countTrust rows .opened] := by
  have hlt : ∀ t, countTrust rows t < 2 ^ 32 := fun t => lt_of_le_of_lt List.countP_le_length h
  refine ⟨#v[UInt32.ofNat (countTrust rows .proof), UInt32.ofNat (countTrust rows .checked),
    UInt32.ofNat (countTrust rows .assumed), UInt32.ofNat (countTrust rows .opened)], ?_, ?_⟩
  · unfold countMembers
    rw [foldlM_cons_ok (countMember_set (i := 0) (hlt _) (by decide) _),
      foldlM_cons_ok (countMember_set (i := 1) (hlt _) (by decide) _),
      foldlM_cons_ok (countMember_set (i := 2) (hlt _) (by decide) _),
      foldlM_cons_ok (countMember_set (i := 3) (hlt _) (by decide) _)]
    rfl
  · have hnat : ∀ t, (UInt32.ofNat (countTrust rows t)).toNat = countTrust rows t := fun t =>
      UInt32.toNat_ofNat_of_lt' (hlt t)
    simp [hnat]

theorem candidateRatio_eq (n : Nat) : candidateRatio n = 0 := by
  unfold candidateRatio
  split
  · rfl
  · rw [Nat.zero_mul, Nat.zero_div]

section SummaryMembers

variable {r : Reading} {text : List Char}

theorem summaryMember_schema : summaryMember r ("schema".toList, VM_SCHEMA.toList) =
    .ok { r with seenSchema := true } := rfl

theorem summaryMember_semantics (s : String) : summaryMember r ("semantics".toList, s.toList) =
    .ok { r with spec := { r.spec with semantics := utf8 s } } := by
  show Except.ok { r with spec := { r.spec with semantics := utf8 (word s.toList) } } = _
  rw [word_toList]

theorem summaryMember_stmt (s : String) : summaryMember r ("stmt".toList, s.toList) =
    .ok { r with spec := { r.spec with stmt := utf8 s } } := by
  show Except.ok { r with spec := { r.spec with stmt := utf8 (word s.toList) } } = _
  rw [word_toList]

theorem summaryMember_target (s : String) : summaryMember r ("target".toList, s.toList) =
    .ok { r with spec := { r.spec with target := utf8 s } } := by
  show Except.ok { r with spec := { r.spec with target := utf8 (word s.toList) } } = _
  rw [word_toList]

theorem summaryMember_model (s : String) : summaryMember r ("model".toList, s.toList) =
    .ok { r with spec := { r.spec with model := utf8 s } } := by
  show Except.ok { r with spec := { r.spec with model := utf8 (word s.toList) } } = _
  rw [word_toList]

theorem summaryMember_policy {b : UInt8} (h : policyOf text = some b) :
    summaryMember r ("policy".toList, text) =
      .ok { r with spec := { r.spec with policy := b } } := by
  show (expect (policyOf text) _ >>= fun b => _) = _
  rw [h]
  rfl

theorem summaryMember_certifier : summaryMember r ("certifier".toList, text) =
    .ok { r with certifier := (parseObject text).toOption } := rfl

theorem summaryMember_ratio {n : Nat} (h : parseUnsigned 16 text = some n) :
    summaryMember r ("candidate_ratio".toList, text) =
      .ok { r with spec := { r.spec with candidateRatio := UInt16.ofNat n } } := by
  show (expect (parseUnsigned 16 text) _ >>= fun n => _) = _
  rw [h]
  rfl

theorem summaryMember_counts : summaryMember r ("counts".toList, text) =
    .ok { r with counts := (parseObject text).toOption } := rfl

theorem summaryMember_obligations {os : List ObligationSpec} (h : parseObligations text = .ok os) :
    summaryMember r ("obligations".toList, text) =
      .ok { r with spec := { r.spec with obligations := os } } := by
  show (parseObligations text >>= fun os => _) = _
  rw [h]
  rfl

theorem finish_ok {cs ce : Members} {counts : Vector UInt32 4} {spec : VerifyManifestSpec}
    (hschema : r.seenSchema = true) (hcounts : r.counts = some cs)
    (hfold : cs.foldlM countMember #v[0, 0, 0, 0] = .ok counts) (hcertifier : r.certifier = some ce)
    (hspec : ce.foldlM certifierMember { r.spec with counts := counts } = .ok spec) :
    finish r = .ok spec := by
  have hrequire : require (r.seenSchema = true) "tyu.vm/1: no schema field" = .ok ⟨⟩ :=
    require_eq_ok.mpr hschema
  unfold finish readCounts readCertifier
  rw [hrequire, hcounts, hcertifier]
  dsimp only
  rw [hfold]
  exact hspec

variable {spec : VerifyManifestSpec}

theorem certifierMember_class {b : UInt8} (h : certifierClassOf text = some b) :
    certifierMember spec ("class".toList, text) = .ok { spec with certifierClass := b } := by
  show (expect (certifierClassOf text) _ >>= fun b => _) = _
  rw [h]
  rfl

theorem certifierMember_name (s : String) : certifierMember spec ("name".toList, s.toList) =
    .ok { spec with certifierName := utf8 s } := by
  show Except.ok { spec with certifierName := utf8 (word s.toList) } = _
  rw [word_toList]

theorem certifierMember_recognition (s : String) :
    certifierMember spec ("recognition".toList, s.toList) =
      .ok { spec with certifierRecognition := utf8 s } := by
  show Except.ok { spec with certifierRecognition := utf8 (word s.toList) } = _
  rw [word_toList]

end SummaryMembers

/-- **The summary comes back as it was written.** -/
theorem read_summary (h : Readable (vmRows sha module set v) set v) :
    ∃ spec, verifyManifestFromJson (vmDocument sha module policy set v).toList = .ok spec ∧
      IsSummary (vmRows sha module set v) policy set v spec := by
  rw [vmDocument_toList h.target h.model h.name h.each]
  generalize vmRows sha module set v = rows at h
  obtain ⟨os, hos, hforall⟩ := parseObligations_rows h.each h.brackets
  obtain ⟨counts, hcounts, hcountsNat⟩ := foldlM_counts h.counts
  obtain ⟨cls, hcls⟩ : ∃ cls, certifierClassOf (certifierIdentity v).1.toList = some cls := by
    have hall : ∀ s ∈ ["port", "none"], (certifierClassOf s.toList).isSome = true := by
      decide
    exact Option.isSome_iff_exists.mp (hall _ (certifierIdentity_cases v).1)
  have hpolicy : policyOf policy.asStr.toList = some (policyCode policy) := by
    cases policy <;> decide
  have hratio : candidateRatio (countTrust rows .proof) < 2 ^ 16 := by
    rw [candidateRatio_eq]
    decide
  have hreading : ∃ reading : Reading, [("schema".toList, VM_SCHEMA.toList),
      ("semantics".toList, SEMANTICS_VERSION.toList), ("stmt".toList, STMT_SCHEMA.toList),
      ("target".toList, set.target.toList), ("model".toList, set.modelSemantics.toList),
      ("policy".toList, policy.asStr.toList), ("certifier".toList, objectOf (certifierMembers v)),
      ("candidate_ratio".toList, Nat.toDigits 10 (candidateRatio (countTrust rows .proof))),
      ("counts".toList, objectOf (countMembers rows)),
      ("obligations".toList, array (rows.map rowObject))].foldlM summaryMember Reading.blank =
        .ok reading ∧
      reading = {
        spec :=
          { semantics := utf8 SEMANTICS_VERSION, stmt := utf8 STMT_SCHEMA
            target := utf8 set.target, model := utf8 set.modelSemantics
            policy := policyCode policy, certifierClass := VM_CERTIFIER_NONE, certifierName := []
            certifierRecognition := []
            candidateRatio := UInt16.ofNat (candidateRatio (countTrust rows .proof))
            counts := #v[0, 0, 0, 0], obligations := os }
        seenSchema := true
        counts := some (countMembers rows)
        certifier := some [("class".toList, (certifierIdentity v).1.toList),
          ("name".toList, (certifierIdentity v).2.1.toList),
          ("recognition".toList, (certifierIdentity v).2.2.toList)] } := by
    refine ⟨_, ?_, rfl⟩
    rw [foldlM_cons_ok summaryMember_schema, foldlM_cons_ok (summaryMember_semantics _),
      foldlM_cons_ok (summaryMember_stmt _), foldlM_cons_ok (summaryMember_target _),
      foldlM_cons_ok (summaryMember_model _), foldlM_cons_ok (summaryMember_policy hpolicy),
      foldlM_cons_ok summaryMember_certifier,
      foldlM_cons_ok (summaryMember_ratio (parseUnsigned_toDigits hratio)),
      foldlM_cons_ok summaryMember_counts, foldlM_cons_ok (summaryMember_obligations hos),
      parseObject_certifier h.name h.nameBraces, parseObject_counts]
    rfl
  obtain ⟨reading, hfold, hreading⟩ := hreading
  have hwritable : Writable (summaryMembers rows policy set v) := writable_summary h
  have hdocument := value_object hwritable.level
  have hhead : require ((objectOf (summaryMembers rows policy set v)).head? = some '\x7b')
      "tyu.vm/1: expected a JSON object" = .ok ⟨⟩ := require_eq_ok.mpr rfl
  refine ⟨{ reading.spec with
    counts := counts
    certifierClass := cls
    certifierName := utf8 (certifierIdentity v).2.1
    certifierRecognition := utf8 (certifierIdentity v).2.2 }, ?_, ?_⟩
  · unfold verifyManifestFromJson
    rw [show trim (objectOf (summaryMembers rows policy set v) ++ ['\n']) =
      objectOf (summaryMembers rows policy set v) from
        trim_newline hdocument.trimmed hdocument.ne]
    dsimp only
    rw [hhead, parseObject_summary h]
    show (List.foldlM summaryMember Reading.blank _ >>= finish) = _
    rw [hfold]
    have hschema : reading.seenSchema = true := by rw [hreading]
    have hcountsRead : reading.counts = some (countMembers rows) := by rw [hreading]
    have hcertifier : reading.certifier = some [("class".toList, (certifierIdentity v).1.toList),
        ("name".toList, (certifierIdentity v).2.1.toList),
        ("recognition".toList, (certifierIdentity v).2.2.toList)] := by rw [hreading]
    refine finish_ok hschema hcountsRead hcounts hcertifier ?_
    rw [foldlM_cons_ok (certifierMember_class hcls), foldlM_cons_ok (certifierMember_name _),
      foldlM_cons_ok (certifierMember_recognition _)]
    rfl
  · subst hreading
    exact
      { semantics := rfl, stmt := rfl, target := rfl, model := rfl, policy := rfl
        certifierClass := hcls, certifierName := rfl, certifierRecognition := rfl
        candidateRatio := UInt16.toNat_ofNat_of_lt' hratio
        counts := hcountsNat
        obligations := hforall }

end Document

end SummaryReader

end Tyu

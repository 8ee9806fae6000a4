import Mathlib

/-!
# JSON texts

A tree of JSON values, and the text of a compact writer as a list of bytes: no white space,
members and items in their order, strings in UTF-8 with the short escapes and `\u00XX` for the
other control characters.
-/

namespace Lib

inductive Json where
  | null
  | bool (b : Bool)
  | num (n : Int)
  | str (s : String)
  | arr (items : List Json)
  | obj (members : List (String × Json))

namespace Json

abbrev Bytes := List UInt8

def utf8 (s : String) : Bytes := s.toByteArray.data.toList

theorem utf8_eq (s : String) : utf8 s = s.toList.flatMap String.utf8EncodeChar := by
  obtain ⟨l, rfl⟩ := s.exists_eq_ofList
  simp [utf8, List.utf8Encode]

theorem utf8_append (s t : String) : utf8 (s ++ t) = utf8 s ++ utf8 t := by
  rw [utf8_eq, utf8_eq, utf8_eq, String.toList_append, List.flatMap_append]

variable {s t : String} {bs rest' : Bytes} {b : UInt8} {n : Nat}

theorem utf8_inj : utf8 s = utf8 t ↔ s = t := by
  constructor
  · intro h
    have hdata : s.toByteArray.data = t.toByteArray.data := Array.toList_inj.mp h
    exact String.toByteArray_inj.mp (ByteArray.ext hdata)
  · intro h
    rw [h]

theorem toList_of_ofList {l : List Char} (h : s = String.ofList l) : s.toList = l := by
  rw [h, String.toList_ofList]

theorem toList_of_append {u : String} {l m : List Char} (h : s = t ++ u) (ht : t.toList = l)
    (hu : u.toList = m) : s.toList = l ++ m := by
  rw [h, String.toList_append, ht, hu]

theorem fromUTF8_utf8 (s : String) : String.fromUTF8? (utf8 s).toByteArray = some s := by
  have hbytes : (utf8 s).toByteArray = s.toByteArray := by
    apply ByteArray.ext
    simp [utf8]
  rw [hbytes]
  unfold String.fromUTF8?
  rw [dif_pos s.isValidUTF8]
  rfl

theorem utf8_of_fromUTF8 (h : String.fromUTF8? bs.toByteArray = some s) : utf8 s = bs := by
  unfold String.fromUTF8? at h
  by_cases hvalid : bs.toByteArray.IsValidUTF8
  · rw [dif_pos hvalid] at h
    rw [← Option.some.inj h]
    show bs.toByteArray.data.toList = bs
    simp
  · rw [dif_neg hvalid] at h
    cases h

def hexByte (n : Nat) : UInt8 := if n < 10 then (48 + n).toUInt8 else (87 + n).toUInt8

def escape (b : UInt8) : Bytes :=
  if b = 0x22 then [0x5C, 0x22]
  else if b = 0x5C then [0x5C, 0x5C]
  else if b = 0x08 then [0x5C, 0x62]
  else if b = 0x0C then [0x5C, 0x66]
  else if b = 0x0A then [0x5C, 0x6E]
  else if b = 0x0D then [0x5C, 0x72]
  else if b = 0x09 then [0x5C, 0x74]
  else if b < 0x20 then [0x5C, 0x75, 0x30, 0x30, hexByte (b.toNat / 16), hexByte (b.toNat % 16)]
  else [b]

def quote (s : String) : Bytes := 0x22 :: (utf8 s).flatMap escape ++ [0x22]

def decimal (n : Nat) : Bytes := (Nat.toDigits 10 n).map fun c => c.toNat.toUInt8

def number (n : Int) : Bytes :=
  if n < 0 then 0x2D :: decimal n.natAbs else decimal n.natAbs

mutual
def write : Json → Bytes
  | .null => [0x6E, 0x75, 0x6C, 0x6C]
  | .bool true => [0x74, 0x72, 0x75, 0x65]
  | .bool false => [0x66, 0x61, 0x6C, 0x73, 0x65]
  | .num n => number n
  | .str s => quote s
  | .arr [] => [0x5B, 0x5D]
  | .arr (item :: items) => 0x5B :: (write item ++ writeItems items ++ [0x5D])
  | .obj [] => [0x7B, 0x7D]
  | .obj ((key, value) :: members) =>
    0x7B :: (quote key ++ 0x3A :: write value ++ writeMembers members ++ [0x7D])
def writeItems : List Json → Bytes
  | [] => []
  | item :: items => 0x2C :: write item ++ writeItems items
def writeMembers : List (String × Json) → Bytes
  | [] => []
  | (key, value) :: members =>
    0x2C :: quote key ++ 0x3A :: write value ++ writeMembers members
end

theorem toNat_val (c : Char) : c.val.toNat = c.toNat := rfl

theorem escape_of_ge (h : 0x80 ≤ b.toNat) : escape b = [b] := by
  have hne : ∀ c : UInt8, c.toNat < 0x80 → b ≠ c := by
    intro c hc hbc
    rw [hbc] at h
    omega
  unfold escape
  rw [if_neg (hne _ (by decide)), if_neg (hne _ (by decide)), if_neg (hne _ (by decide)),
    if_neg (hne _ (by decide)), if_neg (hne _ (by decide)), if_neg (hne _ (by decide)),
    if_neg (hne _ (by decide)), if_neg]
  rw [UInt8.lt_iff_toNat_lt]
  have h32 : (0x20 : UInt8).toNat = 32 := by decide
  omega

theorem utf8EncodeChar_ascii {c : Char} (h : c.toNat < 0x80) :
    String.utf8EncodeChar c = [c.toNat.toUInt8] := by
  have hle : c.val.toNat ≤ 0x7f := by rw [toNat_val]; omega
  simp only [String.utf8EncodeChar, if_pos hle]
  rfl

theorem utf8EncodeChar_high {c : Char} (h : 0x80 ≤ c.toNat) (hb : b ∈ String.utf8EncodeChar c) :
    0x80 ≤ b.toNat := by
  have hnot : ¬ c.val.toNat ≤ 0x7f := by rw [toNat_val]; omega
  simp only [String.utf8EncodeChar, if_neg hnot] at hb
  have hbyte : ∀ x : Nat, 0x80 ≤ x → x < 256 → b = UInt8.ofNat x → 0x80 ≤ b.toNat := by
    intro x hx hx' hbx
    rw [hbx, UInt8.toNat_ofNat']
    omega
  split at hb
  · simp only [List.mem_cons, List.not_mem_nil, or_false] at hb
    rcases hb with hb | hb
    · exact hbyte _ (by omega) (by omega) hb
    · exact hbyte _ (by omega) (by omega) hb
  · split at hb
    · simp only [List.mem_cons, List.not_mem_nil, or_false] at hb
      rcases hb with hb | hb | hb
      · exact hbyte _ (by omega) (by omega) hb
      · exact hbyte _ (by omega) (by omega) hb
      · exact hbyte _ (by omega) (by omega) hb
    · simp only [List.mem_cons, List.not_mem_nil, or_false] at hb
      rcases hb with hb | hb | hb | hb
      · exact hbyte _ (by omega) (by omega) hb
      · exact hbyte _ (by omega) (by omega) hb
      · exact hbyte _ (by omega) (by omega) hb
      · exact hbyte _ (by omega) (by omega) hb

theorem flatMap_escape_high (h : ∀ b ∈ bs, 0x80 ≤ b.toNat) : bs.flatMap escape = bs := by
  induction bs with
  | nil => rfl
  | cons b bs ih =>
    rw [List.flatMap_cons, escape_of_ge (h b (by simp)), ih fun d hd => h d (by simp [hd])]
    rfl

/-! ## Strings end at their closing quote -/

def hexValue (b : UInt8) : Nat := if b.toNat < 0x3A then b.toNat - 48 else b.toNat - 87

def unescape : Bytes → Option (UInt8 × Bytes)
  | [] => none
  | b :: rest =>
    if b ≠ 0x5C then some (b, rest)
    else match rest with
      | [] => none
      | e :: rest =>
        if e = 0x62 then some (0x08, rest)
        else if e = 0x66 then some (0x0C, rest)
        else if e = 0x6E then some (0x0A, rest)
        else if e = 0x72 then some (0x0D, rest)
        else if e = 0x74 then some (0x09, rest)
        else if e = 0x75 then match rest with
          | _ :: _ :: h :: l :: rest => some ((hexValue h * 16 + hexValue l).toUInt8, rest)
          | _ => none
        else some (e, rest)

theorem hexValue_hexByte (h : n < 16) : hexValue (hexByte n) = n := by
  have hall : ∀ n : Fin 16, hexValue (hexByte n) = n := by decide
  exact hall ⟨n, h⟩

theorem unescape_escape (b : UInt8) (rest : Bytes) : unescape (escape b ++ rest) = some (b, rest) := by
  unfold escape
  by_cases h1 : b = 0x22
  · subst h1; rfl
  by_cases h2 : b = 0x5C
  · subst h2; rfl
  by_cases h3 : b = 0x08
  · subst h3; rfl
  by_cases h4 : b = 0x0C
  · subst h4; rfl
  by_cases h5 : b = 0x0A
  · subst h5; rfl
  by_cases h6 : b = 0x0D
  · subst h6; rfl
  by_cases h7 : b = 0x09
  · subst h7; rfl
  rw [if_neg h1, if_neg h2, if_neg h3, if_neg h4, if_neg h5, if_neg h6, if_neg h7]
  by_cases h8 : b < 0x20
  · have hlt : b.toNat < 32 := UInt8.lt_iff_toNat_lt.mp h8
    have hback : hexValue (hexByte (b.toNat / 16)) * 16 + hexValue (hexByte (b.toNat % 16)) =
        b.toNat := by
      rw [hexValue_hexByte (by omega), hexValue_hexByte (by omega)]
      omega
    rw [if_pos h8]
    simp [unescape, hback]
  · rw [if_neg h8]
    simp [unescape, h2]

theorem escape_ne_quote (b : UInt8) (rest rest' : Bytes) : escape b ++ rest ≠ 0x22 :: rest' := by
  intro h
  have hread := unescape_escape b rest
  rw [h] at hread
  have hb : b = 0x22 := by
    simp [unescape] at hread
    exact hread.1.symm
  rw [hb] at h
  simp [escape] at h

theorem escaped_inj {cs : Bytes} {rest : Bytes}
    (h : bs.flatMap escape ++ 0x22 :: rest = cs.flatMap escape ++ 0x22 :: rest') :
    bs = cs ∧ rest = rest' := by
  induction bs generalizing cs with
  | nil =>
    cases cs with
    | nil => simpa using h
    | cons c cs =>
      rw [List.flatMap_cons, List.append_assoc] at h
      exact absurd h.symm (escape_ne_quote c _ _)
  | cons b bs ih =>
    cases cs with
    | nil =>
      rw [List.flatMap_cons, List.append_assoc] at h
      exact absurd h (escape_ne_quote b _ _)
    | cons c cs =>
      rw [List.flatMap_cons, List.flatMap_cons, List.append_assoc, List.append_assoc] at h
      have hb := congrArg unescape h
      rw [unescape_escape, unescape_escape] at hb
      simp only [Option.some.injEq, Prod.mk.injEq] at hb
      have htail := ih hb.2
      exact ⟨by rw [hb.1, htail.1], htail.2⟩

theorem quote_inj {rest : Bytes} (h : quote s ++ rest = quote t ++ rest') :
    s = t ∧ rest = rest' := by
  unfold quote at h
  simp only [List.cons_append, List.append_assoc, List.cons.injEq, true_and, List.nil_append] at h
  have hparts := escaped_inj h
  exact ⟨utf8_inj.mp hparts.1, hparts.2⟩

/-! ## Numbers end where their digits do -/

def isDigit (b : UInt8) : Bool := 0x30 ≤ b && b ≤ 0x39

/-- Where a value or a key may stop: at the end, or before a comma, a colon or a closing
bracket. -/
def Follow (rest : Bytes) : Prop :=
  ∀ b ∈ rest.head?, b = 0x2C ∨ b = 0x3A ∨ b = 0x5D ∨ b = 0x7D

theorem follow_nil : Follow [] := by
  intro b hb
  cases hb

theorem follow_comma (rest : Bytes) : Follow (0x2C :: rest) := by
  intro b hb
  simp at hb
  exact Or.inl hb.symm

theorem follow_colon (rest : Bytes) : Follow (0x3A :: rest) := by
  intro b hb
  simp at hb
  exact Or.inr (Or.inl hb.symm)

theorem follow_bracket (rest : Bytes) : Follow (0x5D :: rest) := by
  intro b hb
  simp at hb
  exact Or.inr (Or.inr (Or.inl hb.symm))

theorem follow_brace (rest : Bytes) : Follow (0x7D :: rest) := by
  intro b hb
  simp at hb
  exact Or.inr (Or.inr (Or.inr hb.symm))

theorem Follow.not_digit {rest : Bytes} (h : Follow rest) : ∀ b ∈ rest.head?, isDigit b = false := by
  intro b hb
  rcases h b hb with rfl | rfl | rfl | rfl <;> decide

/-- The value of a list of digits, continued from `v`. -/
def digitsFrom (v : Nat) (ds : Bytes) : Nat := ds.foldl (fun v d => v * 10 + (d.toNat - 48)) v

theorem isDigit_of_mem_decimal (h : b ∈ decimal n) : isDigit b = true := by
  obtain ⟨c, hc, rfl⟩ := List.mem_map.mp h
  have hdigit := Char.isDigit_iff_toNat.mp (Nat.isDigit_of_mem_toDigits (by decide) (by decide) hc)
  have hlow : 48 ≤ c.toNat := hdigit.1
  have hhigh : c.toNat ≤ 57 := hdigit.2
  have hnat : c.toNat.toUInt8.toNat = c.toNat := by
    rw [Nat.toUInt8, UInt8.toNat_ofNat']
    omega
  unfold isDigit
  rw [Bool.and_eq_true, decide_eq_true_eq, decide_eq_true_eq, UInt8.le_iff_toNat_le,
    UInt8.le_iff_toNat_le, hnat]
  exact ⟨hlow, hhigh⟩

theorem digitsFrom_decimal (n : Nat) : digitsFrom 0 (decimal n) = n := by
  have hfold : ∀ (cs : List Char) (v : Nat), (∀ c ∈ cs, c.isDigit = true) →
      digitsFrom v (cs.map fun c => c.toNat.toUInt8) = Nat.ofDigitChars 10 cs v := by
    intro cs
    induction cs with
    | nil => intro v _; rfl
    | cons c cs ih =>
      intro v hcs
      have hdigit := Char.isDigit_iff_toNat.mp (hcs c (by simp))
      have hhigh : c.toNat ≤ 57 := hdigit.2
      have hnat : c.toNat.toUInt8.toNat = c.toNat := by
        rw [Nat.toUInt8, UInt8.toNat_ofNat']
        omega
      have htail := ih (10 * v + (c.toNat - 48)) (fun d hd => hcs d (by simp [hd]))
      rw [Nat.ofDigitChars_cons]
      simp only [digitsFrom, List.map_cons, List.foldl_cons, hnat, Nat.mul_comm v 10]
      exact htail
  rw [decimal, hfold _ _ fun c hc => Nat.isDigit_of_mem_toDigits (by decide) (by decide) hc,
    Nat.ofDigitChars_ten_toDigits]

theorem decimal_ne_nil (n : Nat) : decimal n ≠ [] := by
  simp [decimal, Nat.toDigits_ne_nil]

theorem takeWhile_digits {ds rest : Bytes} (hds : ∀ d ∈ ds, isDigit d = true)
    (hrest : ∀ b ∈ rest.head?, isDigit b = false) :
    (ds ++ rest).takeWhile isDigit = ds ∧ (ds ++ rest).dropWhile isDigit = rest := by
  induction ds with
  | nil =>
    cases rest with
    | nil => simp
    | cons b rest => simp [hrest b (by simp)]
  | cons d ds ih =>
    have htail := ih fun x hx => hds x (by simp [hx])
    simp [hds d (by simp), htail]

theorem decimal_inj {m : Nat} {rest : Bytes} (hr : Follow rest) (hr' : Follow rest')
    (h : decimal n ++ rest = decimal m ++ rest') : n = m ∧ rest = rest' := by
  have hn := takeWhile_digits (fun _ => isDigit_of_mem_decimal (n := n)) hr.not_digit
  have hm := takeWhile_digits (fun _ => isDigit_of_mem_decimal (n := m)) hr'.not_digit
  rw [h] at hn
  have hdigits : decimal m = decimal n := hm.1.symm.trans hn.1
  have hvalue := congrArg (digitsFrom 0) hdigits
  rw [digitsFrom_decimal, digitsFrom_decimal] at hvalue
  exact ⟨hvalue.symm, hn.2.symm.trans hm.2⟩

theorem decimal_head (n : Nat) : ∃ d ds, decimal n = d :: ds ∧ isDigit d = true := by
  cases h : decimal n with
  | nil => exact absurd h (decimal_ne_nil n)
  | cons d ds => exact ⟨d, ds, rfl, isDigit_of_mem_decimal (n := n) (by rw [h]; simp)⟩

theorem decimal_ne_minus {rest : Bytes} : decimal n ++ rest ≠ 0x2D :: rest' := by
  intro h
  obtain ⟨d, ds, hd, hdigit⟩ := decimal_head n
  rw [hd] at h
  simp only [List.cons_append, List.cons.injEq] at h
  rw [h.1] at hdigit
  exact absurd hdigit (by decide)

theorem number_inj {n m : Int} {rest : Bytes} (hr : Follow rest) (hr' : Follow rest')
    (h : number n ++ rest = number m ++ rest') : n = m ∧ rest = rest' := by
  unfold number at h
  by_cases hn : n < 0
  · by_cases hm : m < 0
    · rw [if_pos hn, if_pos hm] at h
      simp only [List.cons_append, List.cons.injEq, true_and] at h
      have hparts := decimal_inj hr hr' h
      exact ⟨by omega, hparts.2⟩
    · rw [if_pos hn, if_neg hm] at h
      exact absurd h.symm decimal_ne_minus
  · by_cases hm : m < 0
    · rw [if_neg hn, if_pos hm] at h
      exact absurd h decimal_ne_minus
    · rw [if_neg hn, if_neg hm] at h
      have hparts := decimal_inj hr hr' h
      exact ⟨by omega, hparts.2⟩

def IsText (bytes : Bytes) : Prop := ∃ s, bytes = utf8 s

theorem isText_append {bytes bytes' : Bytes} (h : IsText bytes) (h' : IsText bytes') :
    IsText (bytes ++ bytes') := by
  obtain ⟨s, rfl⟩ := h
  obtain ⟨s', rfl⟩ := h'
  exact ⟨s ++ s', (utf8_append s s').symm⟩

theorem isText_utf8 (s : String) : IsText (utf8 s) := ⟨s, rfl⟩

theorem isText_ascii {bytes : Bytes} (h : ∀ b ∈ bytes, b.toNat < 0x80) : IsText bytes := by
  induction bytes with
  | nil => exact ⟨"", rfl⟩
  | cons b bytes ih =>
    have hb := h b (List.mem_cons_self ..)
    have hvalid : b.toNat.isValidChar := .inl (by omega)
    have hnat : (Char.ofNat b.toNat).toNat = b.toNat := by
      unfold Char.ofNat
      rw [dif_pos hvalid]
      rfl
    have hhead : IsText [b] := by
      refine ⟨String.ofList [Char.ofNat b.toNat], ?_⟩
      rw [utf8_eq, String.toList_ofList, List.flatMap_singleton,
        utf8EncodeChar_ascii (by omega), hnat]
      simp
    exact isText_append hhead (ih fun b hb => h b (List.mem_cons_of_mem _ hb))

theorem isText_cons (hb : b.toNat < 0x80) {bytes : Bytes} (h : IsText bytes) :
    IsText (b :: bytes) :=
  isText_append (@isText_ascii [b] fun d hd => by rwa [List.mem_singleton.mp hd]) h

theorem isText_number (n : Int) : IsText (number n) := by
  have hdecimal : ∀ b ∈ decimal n.natAbs, b.toNat < 0x80 := by
    intro b hb
    have hdigit := isDigit_of_mem_decimal hb
    simp only [isDigit, Bool.and_eq_true, decide_eq_true_eq, UInt8.le_iff_toNat_le] at hdigit
    have hnine : (0x39 : UInt8).toNat = 57 := by decide
    omega
  unfold number
  by_cases hn : n < 0
  · rw [if_pos hn]
    exact isText_cons (by decide) (isText_ascii hdecimal)
  · rw [if_neg hn]
    exact isText_ascii hdecimal

theorem writeItems_eq (items : List Json) :
    writeItems items = items.flatMap fun j => 0x2C :: write j := by
  induction items with
  | nil => rfl
  | cons j items ih => rw [writeItems, ih]; rfl

theorem writeMembers_eq (members : List (String × Json)) :
    writeMembers members = members.flatMap fun m => 0x2C :: quote m.1 ++ 0x3A :: write m.2 := by
  induction members with
  | nil => rfl
  | cons m members ih => rw [writeMembers, ih]; simp

theorem writeMembers_append (ms ms' : List (String × Json)) :
    writeMembers (ms ++ ms') = writeMembers ms ++ writeMembers ms' := by
  rw [writeMembers_eq, writeMembers_eq, writeMembers_eq, List.flatMap_append]

/-- The text before the value of the first member of an object, and of a later one. -/
def opening (k : String) : Bytes := 0x7B :: (quote k ++ [0x3A])

def following (k : String) : Bytes := 0x2C :: (quote k ++ [0x3A])

def optionalMember {α : Type} (k : String) (tree : α → Json) (o : Option α) :
    List (String × Json) :=
  o.toList.map fun x => (k, tree x)

/-! ## The text determines the value -/

def tag : Json → Nat
  | .null => 0
  | .bool true => 1
  | .bool false => 2
  | .num _ => 3
  | .str _ => 4
  | .arr _ => 5
  | .obj _ => 6

/-- The kind of value that a text starting with `b` is. -/
def tagOfByte (b : UInt8) : Nat :=
  if b = 0x6E then 0
  else if b = 0x74 then 1
  else if b = 0x66 then 2
  else if b = 0x22 then 4
  else if b = 0x5B then 5
  else if b = 0x7B then 6
  else 3

theorem tagOfByte_digit {d : UInt8} (h : isDigit d = true) : tagOfByte d = 3 := by
  unfold isDigit at h
  rw [Bool.and_eq_true, decide_eq_true_eq, decide_eq_true_eq, UInt8.le_iff_toNat_le,
    UInt8.le_iff_toNat_le] at h
  have hne : ∀ c : UInt8, 0x39 < c.toNat → d ≠ c := by
    intro c hc hdc
    rw [hdc] at h
    have hle : c.toNat ≤ 57 := h.2
    omega
  have hquote : d ≠ 0x22 := by
    intro hd
    rw [hd] at h
    exact absurd h.1 (by decide)
  unfold tagOfByte
  rw [if_neg (hne _ (by decide)), if_neg (hne _ (by decide)), if_neg (hne _ (by decide)),
    if_neg hquote, if_neg (hne _ (by decide)), if_neg (hne _ (by decide))]

theorem write_head (j : Json) : ∃ b rest, write j = b :: rest ∧ tagOfByte b = tag j := by
  cases j with
  | null => exact ⟨_, _, rfl, rfl⟩
  | bool b => cases b <;> exact ⟨_, _, rfl, rfl⟩
  | num n =>
    simp only [write, number]
    by_cases hn : n < 0
    · exact ⟨_, _, if_pos hn, rfl⟩
    · obtain ⟨d, ds, hd, hdigit⟩ := decimal_head n.natAbs
      exact ⟨d, ds, by rw [if_neg hn, hd], tagOfByte_digit hdigit⟩
  | str s => exact ⟨_, _, rfl, rfl⟩
  | arr items => cases items <;> exact ⟨_, _, by rw [write], rfl⟩
  | obj members =>
    cases members with
    | nil => exact ⟨_, _, by rw [write], rfl⟩
    | cons m members => exact ⟨_, _, by rw [write], rfl⟩

theorem tag_eq_of_write {j j' : Json} {rest : Bytes} (h : write j ++ rest = write j' ++ rest') :
    tag j = tag j' := by
  obtain ⟨b, t, hb, htag⟩ := write_head j
  obtain ⟨b', t', hb', htag'⟩ := write_head j'
  rw [hb, hb'] at h
  simp only [List.cons_append, List.cons.injEq] at h
  rw [← htag, ← htag', h.1]

theorem follow_writeItems (items : List Json) (rest : Bytes) :
    Follow (writeItems items ++ 0x5D :: rest) := by
  cases items with
  | nil => exact follow_bracket rest
  | cons item items => exact follow_comma _

theorem follow_writeMembers (members : List (String × Json)) (rest : Bytes) :
    Follow (writeMembers members ++ 0x7D :: rest) := by
  cases members with
  | nil => exact follow_brace rest
  | cons m members => exact follow_comma _

theorem write_ne_bracket (j : Json) {rest : Bytes} : write j ++ rest ≠ 0x5D :: rest' := by
  intro h
  obtain ⟨b, t, hb, htag⟩ := write_head j
  rw [hb] at h
  simp only [List.cons_append, List.cons.injEq] at h
  cases j with
  | num n =>
    simp only [write, number] at hb
    by_cases hn : n < 0
    · rw [if_pos hn, h.1] at hb
      exact absurd (List.cons.inj hb).1 (by decide)
    · rw [if_neg hn] at hb
      have hdigit := isDigit_of_mem_decimal (n := n.natAbs) (b := b) (by rw [hb]; simp)
      rw [h.1] at hdigit
      exact absurd hdigit (by decide)
  | bool v => cases v <;> simp [h.1, tagOfByte, tag] at htag
  | null | str | arr | obj => simp [h.1, tagOfByte, tag] at htag

/- One case per kind of value; values of different kinds start with different bytes. -/
mutual
theorem write_inj : ∀ (j j' : Json) {rest rest' : Bytes}, Follow rest → Follow rest' →
    write j ++ rest = write j' ++ rest' → j = j' ∧ rest = rest'
  | .null, j', rest, rest', _, _, h => by
    have htag := tag_eq_of_write h
    cases j' with
    | null => simpa [write] using h
    | bool b => cases b <;> cases htag
    | num | str | arr | obj => cases htag
  | .bool b, j', rest, rest', _, _, h => by
    have htag := tag_eq_of_write h
    cases j' with
    | bool b' =>
      have hb : b = b' := by cases b <;> cases b' <;> first | rfl | cases htag
      subst hb
      exact ⟨rfl, List.append_cancel_left h⟩
    | null | num | str | arr | obj => cases b <;> cases htag
  | .num n, j', rest, rest', hr, hr', h => by
    have htag := tag_eq_of_write h
    cases j' with
    | num m =>
      have hparts := number_inj hr hr' h
      exact ⟨by rw [hparts.1], hparts.2⟩
    | bool b => cases b <;> cases htag
    | null | str | arr | obj => cases htag
  | .str s, j', rest, rest', _, _, h => by
    have htag := tag_eq_of_write h
    cases j' with
    | str t =>
      have hparts := quote_inj h
      exact ⟨by rw [hparts.1], hparts.2⟩
    | bool b => cases b <;> cases htag
    | null | num | arr | obj => cases htag
  | .arr [], j', rest, rest', _, _, h => by
    have htag := tag_eq_of_write h
    cases j' with
    | arr items' =>
      cases items' with
      | nil => simpa [write] using h
      | cons item' items' =>
        simp only [write, List.cons_append, List.nil_append, List.append_assoc, List.cons.injEq,
          true_and] at h
        exact absurd h.symm (write_ne_bracket item')
    | bool b => cases b <;> cases htag
    | null | num | str | obj => cases htag
  | .arr (item :: items), j', rest, rest', _, _, h => by
    have htag := tag_eq_of_write h
    cases j' with
    | arr items' =>
      cases items' with
      | nil =>
        simp only [write, List.cons_append, List.nil_append, List.append_assoc, List.cons.injEq,
          true_and] at h
        exact absurd h (write_ne_bracket item)
      | cons item' items' =>
        simp only [write, List.cons_append, List.nil_append, List.append_assoc, List.cons.injEq,
          true_and] at h
        have hitem := write_inj item item' (follow_writeItems items _) (follow_writeItems items' _) h
        have hitems := writeItems_inj items items' hitem.2
        exact ⟨by rw [hitem.1, hitems.1], hitems.2⟩
    | bool b => cases b <;> cases htag
    | null | num | str | obj => cases htag
  | .obj [], j', rest, rest', _, _, h => by
    have htag := tag_eq_of_write h
    cases j' with
    | obj members' =>
      cases members' with
      | nil => simpa [write] using h
      | cons m members' =>
        simp [write, quote] at h
    | bool b => cases b <;> cases htag
    | null | num | str | arr => cases htag
  | .obj ((key, value) :: members), j', rest, rest', _, _, h => by
    have htag := tag_eq_of_write h
    cases j' with
    | obj members' =>
      cases members' with
      | nil => simp [write, quote] at h
      | cons m members' =>
        simp only [write, List.cons_append, List.nil_append, List.append_assoc, List.cons.injEq,
          true_and] at h
        have hkey := quote_inj h
        simp only [List.cons.injEq, true_and] at hkey
        have hvalue := write_inj value m.2 (follow_writeMembers members _)
          (follow_writeMembers members' _) hkey.2
        have hmembers := writeMembers_inj members members' hvalue.2
        exact ⟨by rw [hkey.1, hvalue.1, hmembers.1], hmembers.2⟩
    | bool b => cases b <;> cases htag
    | null | num | str | arr => cases htag
theorem writeItems_inj : ∀ (items items' : List Json) {rest rest' : Bytes},
    writeItems items ++ 0x5D :: rest = writeItems items' ++ 0x5D :: rest' →
    items = items' ∧ rest = rest'
  | [], [], rest, rest', h => by simpa [writeItems] using h
  | [], item' :: items', rest, rest', h => by simp [writeItems] at h
  | item :: items, [], rest, rest', h => by simp [writeItems] at h
  | item :: items, item' :: items', rest, rest', h => by
    simp only [writeItems, List.cons_append, List.append_assoc, List.cons.injEq, true_and] at h
    have hitem := write_inj item item' (follow_writeItems items _) (follow_writeItems items' _) h
    have hitems := writeItems_inj items items' hitem.2
    exact ⟨by rw [hitem.1, hitems.1], hitems.2⟩
theorem writeMembers_inj : ∀ (members members' : List (String × Json)) {rest rest' : Bytes},
    writeMembers members ++ 0x7D :: rest = writeMembers members' ++ 0x7D :: rest' →
    members = members' ∧ rest = rest'
  | [], [], rest, rest', h => by simpa [writeMembers] using h
  | [], m' :: members', rest, rest', h => by simp [writeMembers] at h
  | (key, value) :: members, [], rest, rest', h => by simp [writeMembers] at h
  | (key, value) :: members, (key', value') :: members', rest, rest', h => by
    simp only [writeMembers, List.cons_append, List.append_assoc, List.cons.injEq, true_and] at h
    have hkey := quote_inj h
    simp only [List.cons.injEq, true_and] at hkey
    have hvalue := write_inj value value' (follow_writeMembers members _)
      (follow_writeMembers members' _) hkey.2
    have hmembers := writeMembers_inj members members' hvalue.2
    exact ⟨by rw [hkey.1, hvalue.1, hmembers.1], hmembers.2⟩
end
def escapeSize (b : UInt8) : Nat :=
  if b = 0x22 ∨ b = 0x5C ∨ b = 0x08 ∨ b = 0x0C ∨ b = 0x0A ∨ b = 0x0D ∨ b = 0x09 then 2
  else if b < 0x20 then 6
  else 1

def quoteSize (s : String) : Nat := ((utf8 s).map escapeSize).sum + 2

def numberSize (n : Int) : Nat :=
  (Nat.toDigits 10 n.natAbs).length + if n < 0 then 1 else 0

mutual
def size : Json → Nat
  | .null => 4
  | .bool true => 4
  | .bool false => 5
  | .num n => numberSize n
  | .str s => quoteSize s
  | .arr [] => 2
  | .arr (item :: items) => size item + sizeItems items + 2
  | .obj [] => 2
  | .obj ((key, value) :: members) => quoteSize key + size value + sizeMembers members + 3
def sizeItems : List Json → Nat
  | [] => 0
  | item :: items => size item + sizeItems items + 1
def sizeMembers : List (String × Json) → Nat
  | [] => 0
  | (key, value) :: members => quoteSize key + size value + sizeMembers members + 2
end

theorem length_escape (b : UInt8) : (escape b).length = escapeSize b := by
  unfold escape escapeSize
  by_cases h : b = 0x22 ∨ b = 0x5C ∨ b = 0x08 ∨ b = 0x0C ∨ b = 0x0A ∨ b = 0x0D ∨ b = 0x09
  · rw [if_pos h]
    rcases h with rfl | rfl | rfl | rfl | rfl | rfl | rfl <;> rfl
  · rw [if_neg h]
    simp only [not_or] at h
    rw [if_neg h.1, if_neg h.2.1, if_neg h.2.2.1, if_neg h.2.2.2.1, if_neg h.2.2.2.2.1,
      if_neg h.2.2.2.2.2.1, if_neg h.2.2.2.2.2.2]
    split <;> rfl

theorem length_quote (s : String) : (quote s).length = quoteSize s := by
  have hbytes : ((utf8 s).flatMap escape).length = ((utf8 s).map escapeSize).sum := by
    rw [List.length_flatMap]
    exact congrArg List.sum (List.map_congr_left fun b _ => length_escape b)
  unfold quote quoteSize
  rw [List.length_append, List.length_cons, hbytes]
  rfl

theorem length_number (n : Int) : (number n).length = numberSize n := by
  unfold number numberSize decimal
  split <;> simp

mutual
theorem length_write : ∀ j : Json, (write j).length = size j
  | .null => rfl
  | .bool true => rfl
  | .bool false => rfl
  | .num n => length_number n
  | .str s => length_quote s
  | .arr [] => rfl
  | .arr (item :: items) => by
    rw [write, size]
    simp only [List.length_cons, List.length_append, length_write item, length_writeItems items,
      List.length_nil]
  | .obj [] => rfl
  | .obj ((key, value) :: members) => by
    rw [write, size]
    simp only [List.length_cons, List.length_append, length_quote, length_write value,
      length_writeMembers members, List.length_nil]
    omega
theorem length_writeItems : ∀ items : List Json, (writeItems items).length = sizeItems items
  | [] => rfl
  | item :: items => by
    rw [writeItems, sizeItems]
    simp only [List.length_cons, List.length_append, length_write item, length_writeItems items]
    omega
theorem length_writeMembers : ∀ members : List (String × Json),
    (writeMembers members).length = sizeMembers members
  | [] => rfl
  | (key, value) :: members => by
    rw [writeMembers, sizeMembers]
    simp only [List.length_cons, List.length_append, length_quote, length_write value,
      length_writeMembers members]
    omega
end

end Json

end Lib

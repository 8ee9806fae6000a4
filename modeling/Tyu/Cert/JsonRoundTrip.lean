import Tyu.Cert.Json
import Tyu.Verifier.VerdictFileRecords

/-!
# The texts of certification packages read back

The compact text of a value, with the strings of the writer, reads back as the value: as
long as the numbers are integers of 64 bits and nothing is nested deeper than the reader
goes.
-/

namespace Tyu

open Lib Lib.Json
open Manifest (hexDigitValue shortEscape)

namespace Cert

/-! ## Strings -/

def plainChar (c : Char) : Bool := c ≠ '"' && c ≠ '\\' && 0x20 ≤ c.toNat

theorem jchar_plain {c : Char} (h : plainChar c = true) : jchar c = String.utf8EncodeChar c := by
  simp only [plainChar, Bool.and_eq_true, decide_eq_true_eq] at h
  obtain ⟨⟨hquote, hback⟩, hcontrol⟩ := h
  have hne : ∀ d : Char, d.toNat < 0x20 → c ≠ d := by
    intro d hd hcd
    rw [hcd] at hcontrol
    omega
  unfold jchar
  rw [if_neg (by simpa using hquote), if_neg (by simpa using hback), if_neg (hne _ (by decide)),
    if_neg (hne _ (by decide)), if_neg (hne _ (by decide)), if_neg (by omega)]

theorem plainByte_of_plainChar {c : Char} (h : plainChar c = true) {b : UInt8}
    (hb : b ∈ String.utf8EncodeChar c) : plainByte b = true := by
  simp only [plainChar, Bool.and_eq_true, decide_eq_true_eq] at h
  obtain ⟨⟨hquote, hback⟩, hcontrol⟩ := h
  by_cases hascii : c.toNat < 0x80
  · rw [utf8EncodeChar_ascii hascii, List.mem_singleton] at hb
    have hnat : b.toNat = c.toNat := by
      rw [hb, Nat.toUInt8, UInt8.toNat_ofNat']
      omega
    have hne : ∀ d : Char, d.toNat < 0x80 → c ≠ d → b ≠ d.toNat.toUInt8 := by
      intro d hd hcd hbd
      refine hcd (Char.toNat_inj.mp ?_)
      have := congrArg UInt8.toNat hbd
      rw [hnat, Nat.toUInt8, UInt8.toNat_ofNat'] at this
      omega
    have h1 : b ≠ 0x22 := hne '"' (by decide) (by simpa using hquote)
    have h2 : b ≠ 0x5C := hne '\\' (by decide) (by simpa using hback)
    have h3 : 0x20 ≤ b := by
      rw [UInt8.le_iff_toNat_le, hnat]
      exact hcontrol
    simp [plainByte, h1, h2, h3]
  · have hhigh := utf8EncodeChar_high (by omega) hb
    have hne : ∀ d : UInt8, d.toNat < 0x80 → b ≠ d := by
      intro d hd hbd
      rw [hbd] at hhigh
      omega
    have h3 : 0x20 ≤ b := by
      rw [UInt8.le_iff_toNat_le]
      have h32 : (0x20 : UInt8).toNat = 32 := by decide
      omega
    simp [plainByte, hne 0x22 (by decide), hne 0x5C (by decide), h3]

theorem stringLoop_head {b : UInt8} (h : plainByte b = false) (fuel : Nat) (out : String)
    (rest : Bytes) :
    stringLoop (fuel + 1) out (b :: rest) = afterRun (stringLoop fuel) out (b :: rest) := by
  have htake : (b :: rest).takeWhile plainByte = [] := List.takeWhile_cons_of_neg (by simp [h])
  have hdrop : (b :: rest).dropWhile plainByte = b :: rest :=
    List.dropWhile_cons_of_neg (by simp [h])
  have hnil : String.fromUTF8? ([] : Bytes).toByteArray = some "" := Json.fromUTF8_utf8 ""
  rw [stringLoop, htake, hdrop, hnil]
  show afterRun (stringLoop fuel) (out ++ "") (b :: rest) = _
  rw [String.append_empty]

theorem stringLoop_run {p : List Char} (hp : ∀ c ∈ p, plainChar c = true) {b : UInt8}
    (hb : plainByte b = false) (fuel : Nat) (out : String) (rest : Bytes) :
    stringLoop (fuel + 1) out (p.flatMap String.utf8EncodeChar ++ b :: rest) =
      stringLoop (fuel + 1) (out ++ String.ofList p) (b :: rest) := by
  have hplain : ∀ d ∈ p.flatMap String.utf8EncodeChar, plainByte d = true := by
    intro d hd
    obtain ⟨c, hc, hdc⟩ := List.mem_flatMap.mp hd
    exact plainByte_of_plainChar (hp c hc) hdc
  have htake : (p.flatMap String.utf8EncodeChar ++ b :: rest).takeWhile plainByte =
      utf8 (String.ofList p) := by
    rw [List.takeWhile_append_of_pos hplain, List.takeWhile_cons_of_neg (by simp [hb]),
      List.append_nil, utf8_eq, String.toList_ofList]
  have hdrop : (p.flatMap String.utf8EncodeChar ++ b :: rest).dropWhile plainByte = b :: rest := by
    rw [List.dropWhile_append_of_pos hplain, List.dropWhile_cons_of_neg (by simp [hb])]
  rw [stringLoop, htake, hdrop, Json.fromUTF8_utf8, stringLoop_head hb]

theorem jchar_head {c : Char} (h : plainChar c = false) :
    ∃ b more, jchar c = b :: more ∧ plainByte b = false := by
  have hback : plainByte 0x5C = false := by decide
  unfold jchar
  by_cases h1 : c = '"'
  · exact ⟨0x5C, _, by rw [if_pos h1]; rfl, hback⟩
  by_cases h2 : c = '\\'
  · exact ⟨0x5C, _, by rw [if_neg h1, if_pos h2]; rfl, hback⟩
  by_cases h3 : c = '\n'
  · exact ⟨0x5C, _, by rw [if_neg h1, if_neg h2, if_pos h3]; rfl, hback⟩
  by_cases h4 : c = '\r'
  · exact ⟨0x5C, _, by rw [if_neg h1, if_neg h2, if_neg h3, if_pos h4]; rfl, hback⟩
  by_cases h5 : c = '\t'
  · exact ⟨0x5C, _, by rw [if_neg h1, if_neg h2, if_neg h3, if_neg h4, if_pos h5]; rfl, hback⟩
  have h6 : c.toNat < 0x20 := by
    simp only [plainChar, h1, h2, ne_eq, not_false_eq_true, decide_true, Bool.true_and,
      decide_eq_false_iff_not] at h
    omega
  rw [if_neg h1, if_neg h2, if_neg h3, if_neg h4, if_neg h5, if_pos h6]
  exact ⟨0x5C, _, rfl, hback⟩

theorem hexNumber_control {n : Nat} (h : n < 32) :
    hexNumber [0x30, 0x30, hexByte (n / 16), hexByte (n % 16)] = some n := by
  have hall : ∀ n : Fin 32,
      hexNumber [0x30, 0x30, hexByte (n / 16), hexByte (n % 16)] = some (n : Nat) := by decide
  exact hall ⟨n, h⟩

theorem stringLoop_escaped {c : Char} (h : plainChar c = false) (fuel : Nat) (out : String)
    (rest : Bytes) :
    stringLoop (fuel + 1) out (jchar c ++ rest) = stringLoop fuel (out.push c) rest := by
  unfold jchar
  by_cases h1 : c = '"'
  · subst h1
    exact stringLoop_head (by decide) fuel out _
  by_cases h2 : c = '\\'
  · subst h2
    exact stringLoop_head (by decide) fuel out _
  by_cases h3 : c = '\n'
  · subst h3
    exact stringLoop_head (by decide) fuel out _
  by_cases h4 : c = '\r'
  · subst h4
    exact stringLoop_head (by decide) fuel out _
  by_cases h5 : c = '\t'
  · subst h5
    exact stringLoop_head (by decide) fuel out _
  have h6 : c.toNat < 0x20 := by
    simp only [plainChar, h1, h2, ne_eq, not_false_eq_true, decide_true, Bool.true_and,
      decide_eq_false_iff_not] at h
    omega
  rw [if_neg h1, if_neg h2, if_neg h3, if_neg h4, if_neg h5, if_pos h6]
  have hhead := stringLoop_head (b := 0x5C) (by decide) fuel out
    (0x75 :: 0x30 :: 0x30 :: hexByte (c.toNat / 16) :: hexByte (c.toNat % 16) :: rest)
  have hnumber : hexNumber ((0x30 :: 0x30 :: hexByte (c.toNat / 16) :: hexByte (c.toNat % 16) ::
      rest).take 4) = some c.toNat := hexNumber_control h6
  have hvalid : c.toNat.isValidChar := c.valid
  rw [List.append_assoc]
  refine hhead.trans ?_
  have hescape : shortEscape 0x75 = none := rfl
  rw [afterRun, if_neg (by decide), if_pos rfl]
  simp only [hescape]
  rw [if_pos trivial, if_neg (by simp), hnumber]
  show (if c.toNat.isValidChar then stringLoop fuel (out.push (Char.ofNat c.toNat)) rest else _) = _
  rw [if_pos hvalid, Char.ofNat_toNat]

theorem stringLoop_chars (cs : List Char) {p : List Char} (hp : ∀ c ∈ p, plainChar c = true)
    {fuel : Nat} (hfuel : cs.length < fuel) (out : String) (rest : Bytes) :
    stringLoop fuel out
      (p.flatMap String.utf8EncodeChar ++ (cs.flatMap jchar ++ 0x22 :: rest)) =
      .ok (out ++ String.ofList p ++ String.ofList cs, rest) := by
  induction cs generalizing p fuel out with
  | nil =>
    obtain ⟨fuel, rfl⟩ := Nat.exists_eq_succ_of_ne_zero (Nat.pos_iff_ne_zero.mp hfuel)
    rw [List.flatMap_nil, List.nil_append, stringLoop_run hp (by decide),
      stringLoop_head (by decide)]
    show Except.ok (out ++ String.ofList p, rest) = _
    simp
  | cons c cs ih =>
    rw [List.length_cons] at hfuel
    by_cases hc : plainChar c = true
    · have hp' : ∀ d ∈ p ++ [c], plainChar d = true := by
        intro d hd
        rcases List.mem_append.mp hd with hd | hd
        · exact hp d hd
        · rw [List.mem_singleton.mp hd]
          exact hc
      have hlen : cs.length < fuel := by omega
      have hrun := ih hp' hlen out
      rw [List.flatMap_append, List.flatMap_singleton, List.append_assoc] at hrun
      rw [List.flatMap_cons, jchar_plain hc, List.append_assoc, hrun]
      have htext : out ++ String.ofList (p ++ [c]) ++ String.ofList cs =
          out ++ String.ofList p ++ String.ofList (c :: cs) := String.toList_inj.mp (by simp)
      rw [htext]
    · rw [Bool.not_eq_true] at hc
      obtain ⟨fuel, rfl⟩ := Nat.exists_eq_succ_of_ne_zero (show fuel ≠ 0 by omega)
      obtain ⟨b, more, hb, hplain⟩ := jchar_head hc
      have hrun := stringLoop_run hp hplain fuel out (more ++ (cs.flatMap jchar ++ 0x22 :: rest))
      have hescaped := stringLoop_escaped hc fuel (out ++ String.ofList p)
        (cs.flatMap jchar ++ 0x22 :: rest)
      have hlen : cs.length < fuel := by omega
      have hrest := ih (p := []) (fun d hd => absurd hd List.not_mem_nil) hlen
        ((out ++ String.ofList p).push c)
      rw [hb, List.cons_append] at hescaped
      rw [List.flatMap_cons, List.append_assoc, hb, List.cons_append, hrun, hescaped]
      rw [List.flatMap_nil, List.nil_append] at hrest
      have htext : (out ++ String.ofList p).push c ++ String.ofList [] ++ String.ofList cs =
          out ++ String.ofList p ++ String.ofList (c :: cs) := String.toList_inj.mp (by simp)
      rw [hrest, htext]

theorem string_jstr (s : String) (rest : Bytes) : string ((jstr s ++ rest).tail) = .ok (s, rest) := by
  have htext : (jstr s ++ rest).tail = s.toList.flatMap jchar ++ 0x22 :: rest := by
    show s.toList.flatMap jchar ++ [0x22] ++ rest = _
    rw [List.append_assoc]
    rfl
  have hlen : s.toList.length < (s.toList.flatMap jchar ++ 0x22 :: rest).length + 1 := by
    have hle : ∀ cs : List Char, cs.length ≤ (cs.flatMap jchar).length := by
      intro cs
      induction cs with
      | nil => exact Nat.le_refl 0
      | cons c cs ih =>
        have hpos : 0 < (jchar c).length := by
          by_cases hc : plainChar c = true
          · rw [jchar_plain hc]
            exact List.length_pos_of_ne_nil String.utf8EncodeChar_ne_nil
          · rw [Bool.not_eq_true] at hc
            obtain ⟨b, more, hb, _⟩ := jchar_head hc
            rw [hb]
            exact Nat.succ_pos _
        rw [List.flatMap_cons, List.length_append, List.length_cons]
        omega
    have := hle s.toList
    rw [List.length_append]
    omega
  have hrun := stringLoop_chars s.toList (p := []) (fun c hc => absurd hc List.not_mem_nil) hlen "" rest
  unfold string
  rw [htext]
  rw [List.flatMap_nil, List.nil_append] at hrun
  rw [hrun]
  simp

/-! ## Trees -/

mutual
def text : Json → Bytes
  | .null => utf8 "null"
  | .bool true => utf8 "true"
  | .bool false => utf8 "false"
  | .num n => Json.number n
  | .str s => jstr s
  | .arr [] => [0x5B, 0x5D]
  | .arr (item :: items) => 0x5B :: (text item ++ textItems items ++ [0x5D])
  | .obj [] => [0x7B, 0x7D]
  | .obj ((key, value) :: members) =>
    0x7B :: (jstr key ++ 0x3A :: text value ++ textMembers members ++ [0x7D])
def textItems : List Json → Bytes
  | [] => []
  | item :: items => 0x2C :: text item ++ textItems items
def textMembers : List (String × Json) → Bytes
  | [] => []
  | (key, value) :: members => 0x2C :: jstr key ++ 0x3A :: text value ++ textMembers members
end

mutual
/-- What the reader takes at a depth: nothing nested too deep, and integers of 64 bits. -/
def Fits : Nat → Json → Prop
  | depth, .num n => depth < JSON_DEPTH_CAP ∧ -2 ^ 63 ≤ n ∧ n < 2 ^ 63
  | depth, .arr items => depth < JSON_DEPTH_CAP ∧ FitsItems (depth + 1) items
  | depth, .obj members => depth < JSON_DEPTH_CAP ∧ FitsMembers (depth + 1) members
  | depth, _ => depth < JSON_DEPTH_CAP
def FitsItems : Nat → List Json → Prop
  | _, [] => True
  | depth, item :: items => Fits depth item ∧ FitsItems depth items
def FitsMembers : Nat → List (String × Json) → Prop
  | _, [] => True
  | depth, (_, value) :: members => Fits depth value ∧ FitsMembers depth members
end

theorem skip_of_head {b : UInt8} (h : isSpace b = false) (rest : Bytes) :
    skip (b :: rest) = b :: rest := List.dropWhile_cons_of_neg (by simp [h])

theorem text_head (j : Json) : ∃ b rest, text j = b :: rest ∧ isSpace b = false ∧ b ≠ 0x5D := by
  cases j with
  | null => exact ⟨0x6E, _, rfl, by decide, by decide⟩
  | bool b =>
    cases b
    · exact ⟨0x66, _, rfl, by decide, by decide⟩
    · exact ⟨0x74, _, rfl, by decide, by decide⟩
  | num n =>
    show ∃ b rest, Json.number n = b :: rest ∧ _
    unfold Json.number
    by_cases hn : n < 0
    · rw [if_pos hn]
      exact ⟨0x2D, _, rfl, by decide, by decide⟩
    · rw [if_neg hn]
      obtain ⟨d, ds, hd, hdigit⟩ := decimal_head n.natAbs
      refine ⟨d, ds, hd, ?_, ?_⟩
      · exact isSpace_of_isDigit hdigit
      · rintro rfl
        exact absurd hdigit (by decide)
  | str s => exact ⟨0x22, _, rfl, by decide, by decide⟩
  | arr items => cases items <;> exact ⟨0x5B, _, rfl, by decide, by decide⟩
  | obj members => cases members <;> exact ⟨0x7B, _, rfl, by decide, by decide⟩

theorem skip_text (j : Json) (rest : Bytes) : skip (text j ++ rest) = text j ++ rest := by
  obtain ⟨b, more, htext, hspace, _⟩ := text_head j
  rw [htext]
  exact skip_of_head hspace _

theorem number_text {n : Int} (hlow : -2 ^ 63 ≤ n) (hhigh : n < 2 ^ 63) {rest : Bytes}
    (hrest : Follow rest) : number (Json.number n ++ rest) = .ok (.num n, rest) := by
  have hdigits := takeWhile_digits (fun _ => isDigit_of_mem_decimal (n := n.natAbs)) hrest.not_digit
  have hplain : ¬ (rest.head? = some 0x2E ∨ rest.head? = some 0x65 ∨ rest.head? = some 0x45) := by
    rintro (h | h | h) <;> rcases hrest _ h with h | h | h | h <;> exact absurd h (by decide)
  have hneg : ¬ (decimal n.natAbs ++ rest).head? = some 0x2D := by
    obtain ⟨d, ds, hd, hdigit⟩ := decimal_head n.natAbs
    rw [hd]
    intro h
    have hd2 : d = 0x2D := Option.some.inj h
    rw [hd2] at hdigit
    exact absurd hdigit (by decide)
  have hvalue : ¬ (decimal n.natAbs = [] ∨ n < -2 ^ 63 ∨ 2 ^ 63 ≤ n) := by
    rintro (h | h | h)
    · exact decimal_ne_nil _ h
    · omega
    · omega
  unfold number Json.number
  by_cases hn : n < 0
  · rw [if_pos hn]
    have hminus : (0x2D :: decimal n.natAbs ++ rest).head? = some 0x2D := rfl
    have htail : (0x2D :: decimal n.natAbs ++ rest).tail = decimal n.natAbs ++ rest := rfl
    simp only [hminus, if_true, htail]
    rw [hdigits.1, hdigits.2, if_neg hplain, digitsFrom_decimal]
    have habs : -(n.natAbs : Int) = n := by omega
    rw [habs, if_neg hvalue]
  · rw [if_neg hn]
    simp only [hneg, if_false]
    rw [hdigits.1, hdigits.2, if_neg hplain, digitsFrom_decimal]
    have habs : (n.natAbs : Int) = n := by omega
    rw [habs, if_neg hvalue]

theorem array_step {total fuel depth : Nat} {done : List Json} {item : Json} {tail : Bytes}
    (h : value total fuel depth (text item ++ tail) = .ok (item, tail)) :
    array total (fuel + 1) depth done (text item ++ tail) =
      afterItem 0x5D "unterminated array" "expected ',' or ']' in array" (.arr (done ++ [item]))
        (array total fuel depth (done ++ [item])) tail := by
  obtain ⟨b, more, htext, _, hclose⟩ := text_head item
  have hhead : ¬ (text item ++ tail).head? = some 0x5D := by
    rw [htext]
    exact fun heq => hclose (Option.some.inj heq)
  rw [array, skip_text, if_neg hhead, h]

theorem object_step {total fuel depth : Nat} {done : List (String × Json)} {key : String}
    {v : Json} {tail : Bytes} (h : value total fuel depth (text v ++ tail) = .ok (v, tail)) :
    object total (fuel + 1) depth done (jstr key ++ 0x3A :: (text v ++ tail)) =
      afterItem 0x7D "unterminated object" "expected ',' or '\x7d' in object"
        (.obj (done ++ [(key, v)])) (object total fuel depth (done ++ [(key, v)])) tail := by
  have hskip : skip (jstr key ++ 0x3A :: (text v ++ tail)) =
      jstr key ++ 0x3A :: (text v ++ tail) := skip_of_head (by decide) _
  have hhead : (jstr key ++ 0x3A :: (text v ++ tail)).head? = some 0x22 := rfl
  have hcolon : skip (0x3A :: (text v ++ tail)) = 0x3A :: (text v ++ tail) :=
    skip_of_head (by decide) _
  rw [object, hskip, if_neg (by rw [hhead]; decide), if_neg (by rw [hhead]; simp), string_jstr]
  simp only [hcolon, List.head?_cons, List.tail_cons, ne_eq, not_true_eq_false, if_false, h]

theorem afterItem_comma {close : UInt8} {eof other : String} {v : Json}
    {more : Bytes → Except CertError (Json × Bytes)} (rest : Bytes) :
    afterItem close eof other v more (0x2C :: rest) = more rest := by
  rw [afterItem, skip_of_head (by decide)]
  dsimp only
  rw [if_pos rfl]

theorem value_array {total fuel depth : Nat} (h : depth < JSON_DEPTH_CAP) (rest : Bytes) :
    value total (fuel + 1) depth (0x5B :: rest) = array total fuel (depth + 1) [] rest := by
  rw [value, if_neg (Nat.not_le.mpr h), skip_of_head (by decide)]
  dsimp only
  rw [if_neg (by decide), if_pos rfl]

theorem value_object {total fuel depth : Nat} (h : depth < JSON_DEPTH_CAP) (rest : Bytes) :
    value total (fuel + 1) depth (0x7B :: rest) = object total fuel (depth + 1) [] rest := by
  rw [value, if_neg (Nat.not_le.mpr h), skip_of_head (by decide)]
  dsimp only
  rw [if_pos rfl]

theorem value_string {total fuel depth : Nat} (h : depth < JSON_DEPTH_CAP) {bytes rest : Bytes}
    {s : String} (hs : string bytes = .ok (s, rest)) :
    value total (fuel + 1) depth (0x22 :: bytes) = .ok (.str s, rest) := by
  rw [value, if_neg (Nat.not_le.mpr h), skip_of_head (by decide)]
  dsimp only
  rw [if_neg (by decide), if_neg (by decide), if_pos rfl, hs]

theorem number_head (n : Int) :
    ∃ b more, Json.number n = b :: more ∧ (b = 0x2D ∨ isDigit b = true) := by
  unfold Json.number
  by_cases hn : n < 0
  · rw [if_pos hn]
    exact ⟨0x2D, _, rfl, .inl rfl⟩
  · rw [if_neg hn]
    obtain ⟨d, ds, hd, hdigit⟩ := decimal_head n.natAbs
    exact ⟨d, ds, hd, .inr hdigit⟩

theorem follow_textItems (items : List Json) (rest : Bytes) :
    Follow (textItems items ++ 0x5D :: rest) := by
  cases items with
  | nil => exact follow_bracket rest
  | cons item items => exact follow_comma _

theorem follow_textMembers (members : List (String × Json)) (rest : Bytes) :
    Follow (textMembers members ++ 0x7D :: rest) := by
  cases members with
  | nil => exact follow_brace rest
  | cons m members => exact follow_comma _

/- One case per kind of value, with the loops over what stands after the first item. -/
mutual
theorem value_text : ∀ (j : Json) {total fuel depth : Nat} {rest : Bytes}, Fits depth j →
    (text j).length ≤ fuel → Follow rest →
    value total fuel depth (text j ++ rest) = .ok (j, rest)
  | j, total, 0, depth, rest, _, hfuel, _ => by
    obtain ⟨b, more, htext, _⟩ := text_head j
    rw [htext] at hfuel
    exact absurd hfuel (by simp)
  | .null, total, fuel + 1, depth, rest, hfits, _, _ => by
    rw [value, if_neg (Nat.not_le.mpr hfits), skip_text]
    rfl
  | .bool b, total, fuel + 1, depth, rest, hfits, _, _ => by
    rw [value, if_neg (Nat.not_le.mpr hfits), skip_text]
    cases b <;> rfl
  | .num n, total, fuel + 1, depth, rest, hfits, _, hrest => by
    obtain ⟨b, more, hnumber, hb⟩ := number_head n
    have htext : text (.num n) ++ rest = b :: (more ++ rest) := by
      show Json.number n ++ rest = _
      rw [hnumber, List.cons_append]
    have hread := number_text hfits.2.1 hfits.2.2 hrest
    rw [hnumber, List.cons_append] at hread
    have hne : ∀ c : UInt8, c ≠ 0x2D → isDigit c = false → b ≠ c := by
      rintro c hminus hdigit rfl
      rcases hb with hb | hb
      · exact hminus hb
      · rw [hdigit] at hb
        exact absurd hb (by decide)
    rw [value, if_neg (Nat.not_le.mpr hfits.1), skip_text, htext]
    dsimp only
    rw [if_neg (hne _ (by decide) (by decide)), if_neg (hne _ (by decide) (by decide)),
      if_neg (hne _ (by decide) (by decide)), if_neg (hne _ (by decide) (by decide)),
      if_neg (hne _ (by decide) (by decide)), if_neg (hne _ (by decide) (by decide)), if_pos hb]
    exact hread
  | .str s, total, fuel + 1, depth, rest, hfits, _, _ => by
    have htext : text (.str s) ++ rest = 0x22 :: (jstr s ++ rest).tail := rfl
    rw [htext]
    exact value_string hfits (string_jstr s rest)
  | .arr [], total, 1, depth, rest, hfits, hfuel, _ => absurd hfuel (by simp [text])
  | .arr [], total, fuel + 2, depth, rest, hfits, hfuel, _ => by
    show value total (fuel + 2) depth (0x5B :: 0x5D :: rest) = _
    rw [value_array hfits.1]
    have hskip : skip (0x5D :: rest) = 0x5D :: rest := skip_of_head (by decide) rest
    rw [array, hskip, if_pos (List.head?_cons : (0x5D :: rest).head? = some 0x5D)]
    rfl
  | .arr (item :: items), total, 1, depth, rest, hfits, hfuel, _ =>
    absurd hfuel (by simp [text])
  | .arr (item :: items), total, fuel + 2, depth, rest, hfits, hfuel, _ => by
    have htext : text (.arr (item :: items)) ++ rest =
        0x5B :: (text item ++ (textItems items ++ 0x5D :: rest)) := by
      rw [text, List.cons_append, List.append_assoc, List.append_assoc]
      rfl
    rw [text, List.length_cons, List.length_append, List.length_append, List.length_singleton]
      at hfuel
    have hlen : (text item).length ≤ fuel := by omega
    have hlens : (textItems items).length ≤ fuel := by omega
    have hitem : value total fuel (depth + 1) (text item ++ (textItems items ++ 0x5D :: rest)) = _ :=
      value_text item hfits.2.1 hlen (follow_textItems items rest)
    rw [htext, value_array hfits.1, array_step hitem]
    exact items_text items [item] hfits.2.2 hlens
  | .obj [], total, 1, depth, rest, hfits, hfuel, _ => absurd hfuel (by simp [text])
  | .obj [], total, fuel + 2, depth, rest, hfits, hfuel, _ => by
    show value total (fuel + 2) depth (0x7B :: 0x7D :: rest) = _
    rw [value_object hfits.1]
    have hskip : skip (0x7D :: rest) = 0x7D :: rest := skip_of_head (by decide) rest
    rw [object, hskip, if_pos (List.head?_cons : (0x7D :: rest).head? = some 0x7D)]
    rfl
  | .obj ((key, v) :: members), total, 1, depth, rest, hfits, hfuel, _ =>
    absurd hfuel (by simp [text])
  | .obj ((key, v) :: members), total, fuel + 2, depth, rest, hfits, hfuel, _ => by
    have htext : text (.obj ((key, v) :: members)) ++ rest =
        0x7B :: (jstr key ++ 0x3A :: (text v ++ (textMembers members ++ 0x7D :: rest))) := by
      rw [text]
      simp
    rw [text] at hfuel
    simp only [List.length_cons, List.length_append] at hfuel
    have hlen : (text v).length ≤ fuel := by omega
    have hlens : (textMembers members).length ≤ fuel := by omega
    have hvalue : value total fuel (depth + 1) (text v ++ (textMembers members ++ 0x7D :: rest)) = _ :=
      value_text v hfits.2.1 hlen (follow_textMembers members rest)
    rw [htext, value_object hfits.1, object_step hvalue]
    exact members_text members [(key, v)] hfits.2.2 hlens
theorem items_text : ∀ (items done : List Json) {total fuel depth : Nat} {rest : Bytes},
    FitsItems depth items → (textItems items).length ≤ fuel →
    afterItem 0x5D "unterminated array" "expected ',' or ']' in array" (.arr done)
      (array total fuel depth done) (textItems items ++ 0x5D :: rest) =
      .ok (.arr (done ++ items), rest)
  | [], done, total, fuel, depth, rest, _, _ => by
    rw [List.append_nil]
    rfl
  | item :: items, done, total, 0, depth, rest, _, hfuel => by
    exact absurd hfuel (by simp [textItems])
  | item :: items, done, total, 1, depth, rest, hfits, hfuel => by
    obtain ⟨b, more, htext, _⟩ := text_head item
    exact absurd hfuel (by simp [textItems, htext])
  | item :: items, done, total, fuel + 2, depth, rest, hfits, hfuel => by
    have htext : textItems (item :: items) ++ 0x5D :: rest =
        0x2C :: (text item ++ (textItems items ++ 0x5D :: rest)) := by
      rw [textItems]
      simp
    rw [textItems, List.length_append, List.length_cons] at hfuel
    have hlen : (text item).length ≤ fuel + 1 := by omega
    have hlens : (textItems items).length ≤ fuel + 1 := by omega
    have hitem : value total (fuel + 1) depth (text item ++ (textItems items ++ 0x5D :: rest)) = _ :=
      value_text item hfits.1 hlen (follow_textItems items rest)
    rw [htext, afterItem_comma, array_step hitem, items_text items (done ++ [item]) hfits.2 hlens,
      List.append_assoc]
    rfl
theorem members_text : ∀ (members done : List (String × Json)) {total fuel depth : Nat}
    {rest : Bytes}, FitsMembers depth members → (textMembers members).length ≤ fuel →
    afterItem 0x7D "unterminated object" "expected ',' or '\x7d' in object" (.obj done)
      (object total fuel depth done) (textMembers members ++ 0x7D :: rest) =
      .ok (.obj (done ++ members), rest)
  | [], done, total, fuel, depth, rest, _, _ => by
    rw [List.append_nil]
    rfl
  | (key, v) :: members, done, total, 0, depth, rest, _, hfuel => by
    exact absurd hfuel (by simp [textMembers])
  | (key, v) :: members, done, total, fuel + 1, depth, rest, hfits, hfuel => by
    have htext : textMembers ((key, v) :: members) ++ 0x7D :: rest =
        0x2C :: (jstr key ++ 0x3A :: (text v ++ (textMembers members ++ 0x7D :: rest))) := by
      rw [textMembers]
      simp
    rw [textMembers] at hfuel
    simp only [List.length_cons, List.length_append] at hfuel
    have hlen : (text v).length ≤ fuel := by omega
    have hlens : (textMembers members).length ≤ fuel := by omega
    have hvalue : value total fuel depth (text v ++ (textMembers members ++ 0x7D :: rest)) = _ :=
      value_text v hfits.1 hlen (follow_textMembers members rest)
    rw [htext, afterItem_comma, object_step hvalue, members_text members (done ++ [(key, v)]) hfits.2 hlens,
      List.append_assoc]
    rfl
end

theorem isText_jchar (c : Char) : IsText (jchar c) := by
  by_cases hc : plainChar c = true
  · rw [jchar_plain hc]
    exact ⟨String.ofList [c], by simp [utf8_eq]⟩
  · have hdigit : ∀ n : Fin 16, (hexByte n).toNat < 0x80 := by decide
    unfold jchar
    split
    · exact isText_utf8 _
    split
    · exact isText_utf8 _
    split
    · exact isText_utf8 _
    split
    · exact isText_utf8 _
    split
    · exact isText_utf8 _
    split
    next hcontrol =>
      refine isText_append (isText_utf8 _) (isText_ascii fun b hb => ?_)
      rcases List.mem_cons.mp hb with rfl | hb
      · exact hdigit ⟨c.toNat / 16, by omega⟩
      · rw [List.mem_singleton.mp hb]
        exact hdigit ⟨c.toNat % 16, by omega⟩
    · exact ⟨String.ofList [c], by simp [utf8_eq]⟩

theorem isText_jstr (s : String) : IsText (jstr s) := by
  have hchars : ∀ cs : List Char, IsText (cs.flatMap jchar) := by
    intro cs
    induction cs with
    | nil => exact isText_utf8 ""
    | cons c cs ih =>
      rw [List.flatMap_cons]
      exact isText_append (isText_jchar c) ih
  exact isText_cons (by decide) (isText_append (hchars _) (isText_utf8 "\""))

mutual
theorem isText_text : ∀ j : Json, IsText (text j)
  | .null => isText_utf8 "null"
  | .bool true => isText_utf8 "true"
  | .bool false => isText_utf8 "false"
  | .num n => isText_number n
  | .str s => isText_jstr s
  | .arr [] => isText_utf8 "[]"
  | .arr (item :: items) => by
    rw [text]
    exact isText_cons (by decide) (isText_append (isText_append (isText_text item)
      (isText_textItems items)) (isText_utf8 "]"))
  | .obj [] => isText_utf8 "\x7b\x7d"
  | .obj ((key, v) :: members) => by
    rw [text]
    exact isText_cons (by decide) (isText_append (isText_append (isText_append (isText_jstr key)
      (isText_cons (by decide) (isText_text v))) (isText_textMembers members))
      (isText_utf8 "\x7d"))
theorem isText_textItems : ∀ items : List Json, IsText (textItems items)
  | [] => isText_utf8 ""
  | item :: items => by
    rw [textItems]
    exact isText_append (isText_cons (by decide) (isText_text item)) (isText_textItems items)
theorem isText_textMembers : ∀ members : List (String × Json), IsText (textMembers members)
  | [] => isText_utf8 ""
  | (key, v) :: members => by
    rw [textMembers]
    exact isText_append (isText_append (isText_cons (by decide) (isText_jstr key))
      (isText_cons (by decide) (isText_text v))) (isText_textMembers members)
end

theorem parseJson_text {j : Json} (h : Fits 0 j) : parseJson (text j) = .ok j := by
  obtain ⟨s, hs⟩ := isText_text j
  have hutf8 : String.fromUTF8? (text j).toByteArray = some s := by
    rw [hs]
    exact Json.fromUTF8_utf8 s
  have hvalue : value (text j).length ((text j).length + 1) 0 (text j ++ []) = .ok (j, []) :=
    value_text j h (Nat.le_succ _) follow_nil
  rw [List.append_nil] at hvalue
  unfold parseJson
  rw [hutf8, hvalue]
  rfl

theorem text_inj {j j' : Json} (h : Fits 0 j) (h' : Fits 0 j') (heq : text j = text j') :
    j = j' := by
  have hread := parseJson_text h
  rw [heq, parseJson_text h'] at hread
  exact (Except.ok.inj hread).symm

/-! ## Sizes -/

theorem length_jchar_le (c : Char) : (jchar c).length ≤ 6 := by
  unfold jchar
  split
  · decide
  split
  · decide
  split
  · decide
  split
  · decide
  split
  · decide
  split
  · have hprefix : (utf8 "\\u00").length = 4 := by decide
    rw [List.length_append, hprefix]
    exact Nat.le_refl 6
  · rw [String.length_utf8EncodeChar]
    exact Nat.le_trans (Char.utf8Size_le_four c) (by decide)

theorem length_jstr_le (s : String) : (jstr s).length ≤ 6 * s.utf8ByteSize + 2 := by
  have hchars : ∀ cs : List Char,
      (cs.flatMap jchar).length ≤ 6 * (cs.flatMap String.utf8EncodeChar).length := by
    intro cs
    induction cs with
    | nil => exact Nat.le_refl 0
    | cons c cs ih =>
      have hc := length_jchar_le c
      have hpos : 0 < (String.utf8EncodeChar c).length :=
        List.length_pos_of_ne_nil String.utf8EncodeChar_ne_nil
      rw [List.flatMap_cons, List.flatMap_cons, List.length_append, List.length_append]
      omega
  have hs := hchars s.toList
  have hsize : (s.toList.flatMap String.utf8EncodeChar).length = s.utf8ByteSize := by
    rw [← utf8_eq]
    rfl
  unfold jstr
  rw [List.length_cons, List.length_append, List.length_singleton]
  omega

mutual
def weight : Json → Nat
  | .null => 4
  | .bool _ => 5
  | .num n => numberSize n
  | .str s => 6 * s.utf8ByteSize + 2
  | .arr items => weightItems items + 2
  | .obj members => weightMembers members + 2
def weightItems : List Json → Nat
  | [] => 0
  | item :: items => weight item + weightItems items + 1
def weightMembers : List (String × Json) → Nat
  | [] => 0
  | (key, v) :: members => 6 * key.utf8ByteSize + weight v + weightMembers members + 4
end

mutual
theorem length_text_le : ∀ j : Json, (text j).length ≤ weight j
  | .null => by decide
  | .bool true => by decide
  | .bool false => by decide
  | .num n => Nat.le_of_eq (length_number n)
  | .str s => length_jstr_le s
  | .arr [] => by decide
  | .arr (item :: items) => by
    have hitem := length_text_le item
    have hitems := length_textItems_le items
    rw [text, weight, weightItems]
    simp only [List.length_cons, List.length_append, List.length_nil]
    omega
  | .obj [] => by decide
  | .obj ((key, v) :: members) => by
    have hkey := length_jstr_le key
    have hvalue := length_text_le v
    have hmembers := length_textMembers_le members
    rw [text, weight, weightMembers]
    simp only [List.length_cons, List.length_append, List.length_nil]
    omega
theorem length_textItems_le : ∀ items : List Json, (textItems items).length ≤ weightItems items
  | [] => Nat.le_refl 0
  | item :: items => by
    have hitem := length_text_le item
    have hitems := length_textItems_le items
    rw [textItems, weightItems]
    simp only [List.length_cons, List.length_append]
    omega
theorem length_textMembers_le : ∀ members : List (String × Json),
    (textMembers members).length ≤ weightMembers members
  | [] => Nat.le_refl 0
  | (key, v) :: members => by
    have hkey := length_jstr_le key
    have hvalue := length_text_le v
    have hmembers := length_textMembers_le members
    rw [textMembers, weightMembers]
    simp only [List.length_cons, List.length_append]
    omega
end

end Cert

end Tyu

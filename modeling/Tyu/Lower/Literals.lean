import Tyu.Lower.Inside

/-! # Number literals -/

namespace Tyu.Irgen

open Lib

def isNumberChar (c : Char) : Bool :=
  c.isDigit || c == 'x' || c == 'X' || c == 'b' || c == 'B' ||
    ('a' ≤ c && c ≤ 'f') || ('A' ≤ c && c ≤ 'F') || c == '_'

def lexNumber : List Char → Option (List Char × List Char)
  | '-' :: c :: rest =>
    if c.isDigit then
      some ('-' :: (c :: rest).takeWhile isNumberChar, (c :: rest).dropWhile isNumberChar)
    else none
  | c :: rest =>
    if c.isDigit then some ((c :: rest).takeWhile isNumberChar, (c :: rest).dropWhile isNumberChar)
    else none
  | [] => none

def literalRadix : List Char → Nat × List Char
  | '0' :: 'x' :: cs | '0' :: 'X' :: cs => (16, cs)
  | '0' :: 'b' :: cs | '0' :: 'B' :: cs => (2, cs)
  | cs => (10, cs)

def literalDigit (base : Nat) (c : Char) : Option Nat := (digitVal true c).filter (· < base)

def literalDigits (base : Nat) (cs : List Char) : Option (List Nat) :=
  (cs.filter (· != '_')).mapM (literalDigit base)

def literalMagnitude (cs : List Char) : Option Nat :=
  match literalDigits (literalRadix cs).1 (literalRadix cs).2 with
  | none | some [] => none
  | some ds => some (Nat.ofDigits (literalRadix cs).1 ds.reverse)

def unsigned : List Char → List Char
  | '-' :: cs => cs
  | cs => cs

def literalSign (text : List Char) : Int := if text.head? = some '-' then -1 else 1

def literalValue (text : List Char) : Option Int :=
  (literalMagnitude (unsigned text)).map fun n : Nat => literalSign text * (n : Int)

/-- Whenever the lowering accepts the literal, it emits the literal's value. -/
def Meant (text : String) : Prop :=
  ∀ (Γ : Env) (cur cur' : BlockId) (span : Span) (g g' : Gen),
    compileNumber Γ cur ⟨.number, text, span⟩ g = .ok (cur', g') →
      ∃ v, literalValue text.toList = some v ∧ g'.opsAt cur = g.opsAt cur ++ [.constI64 v]

/-- A literal that an `i64` holds with either sign, and that is not binary unless it is zero. -/
def ReadExactly (text : String) : Prop :=
  ∃ v, literalValue text.toList = some v ∧ |v| < 2 ^ 63 ∧
    ((literalRadix (unsigned text.toList)).1 = 2 → v = 0)

theorem ofDigits_reverse (base : Nat) (ds : List Nat) :
    Nat.ofDigits base ds.reverse = ds.foldl (fun v d => v * base + d) 0 := by
  have hgen : ∀ v, Nat.ofDigits base (ds.reverse) + v * base ^ ds.length =
      ds.foldl (fun v d => v * base + d) v := by
    induction ds with
    | nil =>
      intro v
      simp
    | cons d ds ih =>
      intro v
      rw [List.foldl_cons, ← ih, List.reverse_cons, Nat.ofDigits_append, Nat.ofDigits_singleton,
        List.length_reverse, List.length_cons, pow_succ]
      ring
  simpa using hgen 0

theorem saturate_digit {x base d : Nat} (hbase : 1 ≤ base) :
    saturateI64 (saturateI64 (((min x (2 ^ 63 - 1) : Nat) : Int) * base) + d) =
      ((min (x * base + d) (2 ^ 63 - 1) : Nat) : Int) := by
  unfold saturateI64
  by_cases hx : x ≤ 2 ^ 63 - 1
  · rw [Nat.min_eq_left hx]
    have hcast : ((x * base : Nat) : Int) = (x : Int) * base := Nat.cast_mul x base
    rw [← hcast]
    omega
  · rw [Nat.min_eq_right (by omega)]
    have hle : 2 ^ 63 - 1 ≤ (2 ^ 63 - 1) * base := Nat.le_mul_of_pos_right _ hbase
    have hle' : x ≤ x * base := Nat.le_mul_of_pos_right _ hbase
    have hcast : (((2 ^ 63 - 1) * base : Nat) : Int) = ((2 ^ 63 - 1 : Nat) : Int) * base :=
      Nat.cast_mul _ base
    rw [← hcast]
    omega

def baseOf (hex : Bool) : Nat := if hex then 16 else 10

theorem digitVal_of_literalDigit {hex : Bool} {c : Char} {d : Nat}
    (h : literalDigit (baseOf hex) c = some d) : digitVal hex c = some d := by
  obtain ⟨hval, hlt⟩ := Option.filter_eq_some_iff.mp h
  have hlt : d < baseOf hex := of_decide_eq_true hlt
  cases hex with
  | true => exact hval
  | false =>
    unfold digitVal at hval ⊢
    have hten : baseOf false = 10 := rfl
    split at hval
    · next hc => rw [if_pos hc, hval]
    · split at hval
      · cases hval
        omega
      · split at hval
        · cases hval
          omega
        · cases hval

theorem i64Digits_of_literal {hex : Bool} {cs : List Char} {ds : List Nat} (x : Nat)
    (h : literalDigits (baseOf hex) cs = some ds) :
    i64Digits hex cs ((min x (2 ^ 63 - 1) : Nat) : Int) =
      ((min (ds.foldl (fun v d => v * baseOf hex + d) x) (2 ^ 63 - 1) : Nat) : Int) := by
  induction cs generalizing x ds with
  | nil =>
    cases h
    rfl
  | cons c cs ih =>
    by_cases hc : c = '_'
    · subst hc
      have hrest : literalDigits (baseOf hex) cs = some ds := h
      rw [i64Digits, if_pos rfl]
      exact ih x hrest
    · have hfilter : (c :: cs).filter (· != '_') = c :: cs.filter (· != '_') :=
        List.filter_cons_of_pos (by simpa using hc)
      rw [literalDigits, hfilter, List.mapM_cons] at h
      obtain ⟨d, hd, h⟩ := Option.bind_eq_some_iff.mp h
      obtain ⟨ds', hds, h⟩ := Option.bind_eq_some_iff.mp h
      cases h
      have hbase : ((if hex = true then 16 else 10 : Int)) = (baseOf hex : Nat) := by
        cases hex <;> rfl
      rw [i64Digits, if_neg hc, digitVal_of_literalDigit hd]
      show i64Digits hex cs (saturateI64 (saturateI64 (_ * (if hex = true then 16 else 10)) + d)) = _
      rw [hbase, saturate_digit (by cases hex <;> decide)]
      exact ih (x * baseOf hex + d) hds

/-! ## The parser on literals -/

theorem parseI64Token_eq {text : List Char} (h : text ≠ []) :
    parseI64Token text = some (literalSign text *
      i64Digits (splitRadix (unsigned text)).1 (splitRadix (unsigned text)).2 0) := by
  cases text with
  | nil => exact absurd rfl h
  | cons c cs =>
    by_cases hc : c = '-'
    · subst hc
      show some (-i64Digits (splitRadix cs).1 (splitRadix cs).2 0) = some (-1 * _)
      rw [Int.neg_one_mul]
      rfl
    · have hsign : literalSign (c :: cs) = 1 := if_neg (by simpa using hc)
      rw [hsign, Int.one_mul]
      have hrest : unsigned (c :: cs) = c :: cs := by
        unfold unsigned
        split
        · next heq => exact absurd (List.cons.inj heq).1 hc
        · rfl
      rw [hrest]
      unfold parseI64Token
      split
      · next heq => cases heq
      · next heq => exact absurd (List.cons.inj heq).1 hc
      · rfl

/-- The parser knows the radices ten and sixteen; a binary literal it reads as the digit zero of
its prefix. -/
theorem radix_cases (cs : List Char) :
    literalRadix cs = (baseOf (splitRadix cs).1, (splitRadix cs).2) ∨
      ((literalRadix cs).1 = 2 ∧ i64Digits (splitRadix cs).1 (splitRadix cs).2 0 = 0) := by
  unfold literalRadix
  split
  · exact .inl rfl
  · exact .inl rfl
  · exact .inr ⟨rfl, rfl⟩
  · exact .inr ⟨rfl, rfl⟩
  · next hx hX _ _ =>
    left
    unfold splitRadix
    split
    · next rest _ _ => exact absurd rfl (hx rest)
    · next rest _ _ => exact absurd rfl (hX rest)
    · rfl

theorem literalMagnitude_eq_some {cs : List Char} {n : Nat} (h : literalMagnitude cs = some n) :
    ∃ ds, literalDigits (literalRadix cs).1 (literalRadix cs).2 = some ds ∧
      n = ds.foldl (fun v d => v * (literalRadix cs).1 + d) 0 := by
  unfold literalMagnitude at h
  split at h
  · cases h
  · cases h
  · next ds _ hds =>
    cases h
    exact ⟨ds, hds, ofDigits_reverse _ _⟩

theorem i64Digits_of_magnitude {cs : List Char} {n : Nat} (h : literalMagnitude cs = some n) :
    i64Digits (splitRadix cs).1 (splitRadix cs).2 0 =
      if (literalRadix cs).1 = 2 then 0 else ((min n (2 ^ 63 - 1) : Nat) : Int) := by
  obtain ⟨ds, hds, rfl⟩ := literalMagnitude_eq_some h
  rcases radix_cases cs with hradix | ⟨htwo, hzero⟩
  · have hbase : (literalRadix cs).1 = baseOf (splitRadix cs).1 := congrArg Prod.fst hradix
    have hrest : (literalRadix cs).2 = (splitRadix cs).2 := congrArg Prod.snd hradix
    rw [hbase, hrest] at hds
    rw [hbase, if_neg (by cases (splitRadix cs).1 <;> decide)]
    exact i64Digits_of_literal 0 hds
  · rw [if_pos htwo, hzero]

theorem parse_exact_iff {text : List Char} {n : Nat}
    (h : literalMagnitude (unsigned text) = some n) :
    literalSign text * i64Digits (splitRadix (unsigned text)).1 (splitRadix (unsigned text)).2 0 =
        literalSign text * n ↔
      n < 2 ^ 63 ∧ ((literalRadix (unsigned text)).1 = 2 → n = 0) := by
  have hsign : literalSign text ≠ 0 := by
    unfold literalSign
    split <;> decide
  rw [mul_right_inj' hsign, i64Digits_of_magnitude h]
  by_cases htwo : (literalRadix (unsigned text)).1 = 2
  · rw [if_pos htwo]
    constructor
    · intro hn
      exact ⟨by omega, fun _ => by omega⟩
    · intro hn
      have := hn.2 htwo
      omega
  · rw [if_neg htwo]
    constructor
    · intro hn
      exact ⟨by omega, fun h => absurd h htwo⟩
    · intro hn
      omega

/-! ## The lowering of a literal -/

theorem compileNumber_run {Γ : Env} {cur cur' : BlockId} {tok : Token} {g g' : Gen}
    (h : compileNumber Γ cur tok g = .ok (cur', g')) :
    hasFloatExponent tok.text = false ∧
      g'.opsAt cur = g.opsAt cur ++ [.constI64 ((parseI64Token tok.text.toList).getD 0)] := by
  obtain ⟨hexp, h⟩ := check_seq h
  obtain ⟨_, t, hpush, h⟩ := bind_run h
  obtain ⟨_, t', hemit, h⟩ := bind_run h
  cases h
  refine ⟨hexp, ?_⟩
  rw [(emitOp_run hemit).1, push_run hpush]
  rfl

def literalGen : Gen := { arrayGen with stack := [] }

theorem compileNumber_accepts {text : String} (h : hasFloatExponent text = false) :
    ∃ g', compileNumber arrayEnv ⟨0⟩ ⟨.number, text, .UNKNOWN⟩ literalGen = .ok (⟨0⟩, g') := by
  have hcheck : (check (hasFloatExponent text = false) .floatExponent : GenM Unit) =
      fun g => .ok ((), g) := by
    funext g
    unfold check require
    rw [if_pos h]
    rfl
  unfold compileNumber
  rw [hcheck]
  exact ⟨_, rfl⟩

theorem literalValue_ne_nil {text : List Char} {v : Int} (h : literalValue text = some v) :
    text ≠ [] := by
  rintro rfl
  cases h

/-- The constant that the lowering takes is the literal's value exactly when the literal can be
read. -/
theorem constant_exact_iff {text : String} :
    literalValue text.toList = some ((parseI64Token text.toList).getD 0) ↔ ReadExactly text := by
  constructor
  · intro h
    refine ⟨_, h, ?_⟩
    obtain ⟨n, hn, hv⟩ := Option.map_eq_some_iff.mp h
    rw [parseI64Token_eq (literalValue_ne_nil h), Option.getD_some] at hv ⊢
    obtain ⟨hlt, htwo⟩ := (parse_exact_iff hn).mp hv.symm
    rw [← hv]
    refine ⟨?_, fun h2 => by rw [htwo h2, Int.natCast_zero, Int.mul_zero]⟩
    have habs : |literalSign text.toList| = 1 := by
      unfold literalSign
      split <;> rfl
    rw [abs_mul, habs, one_mul, Nat.abs_cast]
    exact_mod_cast hlt
  · rintro ⟨v, hv, hlt, htwo⟩
    rw [parseI64Token_eq (literalValue_ne_nil hv), Option.getD_some, hv]
    obtain ⟨n, hn, rfl⟩ := Option.map_eq_some_iff.mp hv
    have hsign : literalSign text.toList ≠ 0 ∧ |literalSign text.toList| = 1 := by
      unfold literalSign
      split <;> decide
    rw [abs_mul, hsign.2, one_mul, Nat.abs_cast] at hlt
    have hlt : n < 2 ^ 63 := by exact_mod_cast hlt
    have hzero : (literalRadix (unsigned text.toList)).1 = 2 → n = 0 := by
      intro h2
      have := (mul_eq_zero.mp (htwo h2)).resolve_left hsign.1
      exact_mod_cast this
    rw [(parse_exact_iff hn).mpr ⟨hlt, hzero⟩]

/-- What the lowering of a literal without an exponent emits is the literal's value, if the
literal means what it says. -/
theorem Meant.constant {text : String} (h : Meant text) (hexp : hasFloatExponent text = false) :
    literalValue text.toList = some ((parseI64Token text.toList).getD 0) := by
  obtain ⟨g', hrun⟩ := compileNumber_accepts hexp
  obtain ⟨v, hv, hops⟩ := h _ _ _ _ _ _ hrun
  rw [(compileNumber_run hrun).2] at hops
  have hconst := List.append_cancel_left hops
  injection hconst with hconst _
  injection hconst with hconst
  rw [hv, ← hconst]

/-- **What literals mean.**  A number token means what it says exactly when it is refused for an
exponent or can be read. -/
theorem meant_iff (text : String) :
    Meant text ↔ hasFloatExponent text = true ∨ ReadExactly text := by
  constructor
  · intro h
    by_cases hexp : hasFloatExponent text = true
    · exact .inl hexp
    · exact .inr (constant_exact_iff.mp (h.constant (by simpa using hexp)))
  · intro h Γ cur cur' span g g' hrun
    obtain ⟨hexp, hops⟩ := compileNumber_run hrun
    rcases h with h | h
    · rw [h] at hexp
      cases hexp
    · exact ⟨_, constant_exact_iff.mpr h, hops⟩

/-- The literal one above the greatest `i64` is taken for the greatest, the least `i64` for the
one above it, and a binary two for zero. -/
theorem literals_misread :
    (lexNumber "9223372036854775808 ".toList = some ("9223372036854775808".toList, [' ']) ∧
      ¬ Meant "9223372036854775808") ∧
    (lexNumber "-9223372036854775808 ".toList = some ("-9223372036854775808".toList, [' ']) ∧
      ¬ Meant "-9223372036854775808") ∧
    (lexNumber "0b10 ".toList = some ("0b10".toList, [' ']) ∧ ¬ Meant "0b10") :=
  ⟨⟨by decide +kernel, fun h => absurd (h.constant (by decide +kernel)) (by decide +kernel)⟩,
    ⟨by decide +kernel, fun h => absurd (h.constant (by decide +kernel)) (by decide +kernel)⟩,
    ⟨by decide, fun h => absurd (h.constant (by decide)) (by decide)⟩⟩

end Tyu.Irgen

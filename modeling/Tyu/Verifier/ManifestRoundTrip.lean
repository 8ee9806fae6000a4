import Tyu.Verifier.ManifestTree

/-!
# Reading a manifest back

The reader answers every string the writer can write, and every integer but one: it accumulates
the magnitude before it applies the sign, so the text of -2^63 is malformed.
-/

namespace Tyu

open Lib Lib.Json Obl

namespace Manifest

/-! ## Strings -/

theorem stringLoop_close (fuel : Nat) (out : String) (rest : Bytes) :
    (stringLoop (fuel + 1) out).run (0x22 :: rest) = .ok (out, rest) := rfl

theorem stringLoop_short {e : UInt8} {c : Char} (h : shortEscape e = some c) (fuel : Nat)
    (out : String) (rest : Bytes) :
    (stringLoop (fuel + 1) out).run (0x5C :: e :: rest) =
      (stringLoop fuel (out.push c)).run rest := by
  rw [stringLoop, run_bump_bind, if_neg (by decide), if_pos rfl, run_bump_bind]
  simp only [h]

theorem hexDigitValue_hexByte {n : Nat} (h : n < 16) : hexDigitValue (hexByte n) = some n := by
  have hall : ∀ n : Fin 16, hexDigitValue (hexByte n) = some n.val := by decide
  exact hall ⟨n, h⟩

theorem parseHexDigits_step {b : UInt8} {d : Nat} (h : hexDigitValue b = some d) (n v : Nat)
    (rest : Bytes) :
    (parseHexDigits (n + 1) v).run (b :: rest) = (parseHexDigits n (v * 16 + d)).run rest := by
  rw [parseHexDigits, run_bump_bind]
  simp only [h]

theorem stringLoop_hex {v : Nat} (hv : v < 0x20) (fuel : Nat) (out : String) (rest : Bytes) :
    (stringLoop (fuel + 1) out).run
      (0x5C :: 0x75 :: 0x30 :: 0x30 :: hexByte (v / 16) :: hexByte (v % 16) :: rest) =
      (stringLoop fuel (out.push (Char.ofNat v))).run rest := by
  have hhex : parseHex4.run (0x30 :: 0x30 :: hexByte (v / 16) :: hexByte (v % 16) :: rest) =
      .ok (v, rest) := by
    unfold parseHex4
    rw [parseHexDigits_step (d := 0) (by decide), parseHexDigits_step (d := 0) (by decide),
      parseHexDigits_step (hexDigitValue_hexByte (by omega)),
      parseHexDigits_step (hexDigitValue_hexByte (by omega))]
    have hval : ((0 * 16 + 0) * 16 + 0) * 16 + v / 16 = v / 16 := by omega
    rw [hval]
    show Except.ok (v / 16 * 16 + v % 16, rest) = _
    rw [Nat.div_add_mod']
  have hchar : v.isValidChar := Or.inl (by omega)
  show (parseHex4 >>= fun h => if h.isValidChar then stringLoop fuel (out.push (Char.ofNat h))
    else err : CodecReader String).run _ = _
  rw [StateT.run_bind, hhex]
  show (if v.isValidChar then stringLoop fuel (out.push (Char.ofNat v))
    else err : CodecReader String).run rest = _
  rw [if_pos hchar]

theorem utf8SeqLen_ofNat {x : Nat} (hx : x < 256) : utf8SeqLen (UInt8.ofNat x) =
    if x ≤ 0x7F then 1
    else if 0xC2 ≤ x ∧ x ≤ 0xDF then 2
    else if 0xE0 ≤ x ∧ x ≤ 0xEF then 3
    else if 0xF0 ≤ x ∧ x ≤ 0xF4 then 4
    else 0 := by
  have hnat : (UInt8.ofNat x).toNat = x := by
    rw [UInt8.toNat_ofNat']
    omega
  unfold utf8SeqLen
  simp only [UInt8.le_iff_toNat_le, hnat]
  rfl

theorem utf8SeqLen_encode {c : Char} {b : UInt8} {bs : Bytes}
    (h : String.utf8EncodeChar c = b :: bs) : utf8SeqLen b = bs.length + 1 := by
  have hmax : c.val.toNat < 0x110000 := by
    rcases c.valid with hv | hv
    · exact Nat.lt_trans hv (by decide)
    · exact hv.2
  simp only [String.utf8EncodeChar] at h
  split at h
  · obtain ⟨rfl, rfl⟩ := List.cons.inj h
    rw [utf8SeqLen_ofNat (by omega), if_pos (by omega)]
    rfl
  · split at h
    · obtain ⟨rfl, rfl⟩ := List.cons.inj h
      rw [utf8SeqLen_ofNat (by omega), if_neg (by omega), if_pos (by omega)]
      rfl
    · split at h
      · obtain ⟨rfl, rfl⟩ := List.cons.inj h
        rw [utf8SeqLen_ofNat (by omega), if_neg (by omega), if_neg (by omega), if_pos (by omega)]
        rfl
      · obtain ⟨rfl, rfl⟩ := List.cons.inj h
        rw [utf8SeqLen_ofNat (by omega), if_neg (by omega), if_neg (by omega), if_neg (by omega),
          if_pos (by omega)]
        rfl

theorem fromUTF8_encode (c : Char) :
    String.fromUTF8? (String.utf8EncodeChar c).toByteArray = some (String.singleton c) := by
  unfold String.fromUTF8?
  rw [dif_pos Char.isValidUTF8_toByteArray_utf8EncodeChar]
  congr 1
  rw [← String.toByteArray_inj]
  simp [String.fromUTF8, ← List.utf8Encode_singleton]

theorem stringLoop_plain {c : Char} {b : UInt8} {bs : Bytes} (h : String.utf8EncodeChar c = b :: bs)
    (hquote : b ≠ 0x22) (hback : b ≠ 0x5C) (hcontrol : ¬ b < 0x20) (fuel : Nat) (out : String)
    (rest : Bytes) :
    (stringLoop (fuel + 1) out).run (b :: (bs ++ rest)) = (stringLoop fuel (out.push c)).run rest := by
  have hlen := utf8SeqLen_encode h
  have hbytes : b :: (bs ++ rest).take (bs.length + 1 - 1) = String.utf8EncodeChar c := by
    rw [h, Nat.add_sub_cancel, List.take_left]
  have hrest : (bs ++ rest).drop (bs.length + 1 - 1) = rest := by
    rw [Nat.add_sub_cancel, List.drop_left]
  show (if b = 0x22 then _ else if b = 0x5C then _ else if b < 0x20 then _ else _ :
    CodecReader String).run (bs ++ rest) = _
  rw [if_neg hquote, if_neg hback, if_neg hcontrol]
  rw [run_get_bind]
  dsimp only
  rw [hlen, if_neg (by simp only [List.length_append]; omega), hbytes, fromUTF8_encode]
  show (stringLoop fuel (out ++ String.singleton c)).run ((bs ++ rest).drop (bs.length + 1 - 1)) = _
  rw [hrest]
  rfl

theorem stringLoop_char (c : Char) (fuel : Nat) (out : String) (rest : Bytes) :
    (stringLoop (fuel + 1) out).run ((String.utf8EncodeChar c).flatMap escape ++ rest) =
      (stringLoop fuel (out.push c)).run rest := by
  by_cases hascii : c.toNat < 0x80
  · have hshort : ∀ (n : Nat) (e : UInt8), c.toNat = n → escape n.toUInt8 = [0x5C, e] →
        shortEscape e = some (Char.ofNat n) →
        (stringLoop (fuel + 1) out).run ((String.utf8EncodeChar c).flatMap escape ++ rest) =
          (stringLoop fuel (out.push c)).run rest := by
      intro n e hn hescape he
      rw [← hn, Char.ofNat_toNat] at he
      rw [utf8EncodeChar_ascii hascii, List.flatMap_singleton, hn, hescape]
      exact stringLoop_short he fuel out rest
    by_cases h1 : c.toNat = 0x22
    · exact hshort _ 0x22 h1 (by decide) (by decide)
    by_cases h2 : c.toNat = 0x5C
    · exact hshort _ 0x5C h2 (by decide) (by decide)
    by_cases h3 : c.toNat = 0x08
    · exact hshort _ 0x62 h3 (by decide) (by decide)
    by_cases h4 : c.toNat = 0x0C
    · exact hshort _ 0x66 h4 (by decide) (by decide)
    by_cases h5 : c.toNat = 0x0A
    · exact hshort _ 0x6E h5 (by decide) (by decide)
    by_cases h6 : c.toNat = 0x0D
    · exact hshort _ 0x72 h6 (by decide) (by decide)
    by_cases h7 : c.toNat = 0x09
    · exact hshort _ 0x74 h7 (by decide) (by decide)
    have hnat : c.toNat.toUInt8.toNat = c.toNat := by
      rw [Nat.toUInt8, UInt8.toNat_ofNat']
      omega
    have hne : ∀ d : UInt8, d.toNat ≠ c.toNat → c.toNat.toUInt8 ≠ d := by
      intro d hd hcd
      rw [← hcd, hnat] at hd
      exact hd rfl
    have hlow : c.toNat.toUInt8 < 0x20 ↔ c.toNat < 0x20 := by
      rw [UInt8.lt_iff_toNat_lt, hnat]
      rfl
    have hescape : escape c.toNat.toUInt8 = if c.toNat < 0x20 then
        [0x5C, 0x75, 0x30, 0x30, hexByte (c.toNat / 16), hexByte (c.toNat % 16)]
      else [c.toNat.toUInt8] := by
      unfold escape
      rw [if_neg (hne 0x22 (Ne.symm h1)), if_neg (hne 0x5C (Ne.symm h2)),
        if_neg (hne 0x08 (Ne.symm h3)), if_neg (hne 0x0C (Ne.symm h4)),
        if_neg (hne 0x0A (Ne.symm h5)), if_neg (hne 0x0D (Ne.symm h6)),
        if_neg (hne 0x09 (Ne.symm h7))]
      simp only [hlow, hnat]
    rw [utf8EncodeChar_ascii hascii, List.flatMap_singleton, hescape]
    by_cases hcontrol : c.toNat < 0x20
    · rw [if_pos hcontrol]
      have hhex := stringLoop_hex hcontrol fuel out rest
      rw [Char.ofNat_toNat] at hhex
      exact hhex
    · rw [if_neg hcontrol]
      exact stringLoop_plain (utf8EncodeChar_ascii hascii) (hne 0x22 (Ne.symm h1))
        (hne 0x5C (Ne.symm h2)) (by rw [hlow]; exact hcontrol) fuel out rest
  · have hhigh : ∀ b ∈ String.utf8EncodeChar c, 0x80 ≤ b.toNat :=
      fun b hb => utf8EncodeChar_high (by omega) hb
    rw [flatMap_escape_high hhigh]
    cases hbytes : String.utf8EncodeChar c with
    | nil => exact absurd hbytes String.utf8EncodeChar_ne_nil
    | cons b bs =>
      have hb : 0x80 ≤ b.toNat := hhigh b (by rw [hbytes]; simp)
      have hne : ∀ d : UInt8, d.toNat < 0x80 → b ≠ d := by
        intro d hd hbd
        rw [hbd] at hb
        omega
      have hcontrol : ¬ b < 0x20 := by
        rw [UInt8.lt_iff_toNat_lt]
        have h32 : (0x20 : UInt8).toNat = 32 := rfl
        omega
      exact stringLoop_plain hbytes (hne _ (by decide)) (hne _ (by decide)) hcontrol fuel out rest

theorem stringLoop_chars (cs : List Char) (out : String) (fuel : Nat) (hfuel : cs.length < fuel)
    (rest : Bytes) :
    (stringLoop fuel out).run ((cs.flatMap String.utf8EncodeChar).flatMap escape ++ 0x22 :: rest) =
      .ok (out ++ String.ofList cs, rest) := by
  induction cs generalizing out fuel with
  | nil =>
    obtain ⟨n, rfl⟩ := Nat.exists_eq_add_one_of_ne_zero (Nat.ne_zero_of_lt hfuel)
    rw [String.ofList_nil, String.append_empty]
    exact stringLoop_close n out rest
  | cons c cs ih =>
    obtain ⟨n, rfl⟩ := Nat.exists_eq_add_one_of_ne_zero (Nat.ne_zero_of_lt hfuel)
    rw [List.flatMap_cons, List.flatMap_append, List.append_assoc, stringLoop_char,
      ih (out.push c) n (by simpa using hfuel)]
    have hout : out.push c ++ String.ofList cs = out ++ String.ofList (c :: cs) := by
      apply String.toList_inj.mp
      simp
    rw [hout]

theorem reads_string (s : String) : Reads parseString .malformed (write (.str s)) True s where
  accept _ rest _ := by
    have hbody : ∃ body, write (.str s) ++ rest = 0x22 :: body ∧
        body = (utf8 s).flatMap escape ++ 0x22 :: rest :=
      ⟨_, rfl, by simp⟩
    obtain ⟨body, htext, hbody⟩ := hbody
    rw [htext]
    unfold parseString
    rw [StateT.run_bind, run_skipWs_of_head (by decide)]
    show (stringLoop (body.length + 1) "").run body = _
    have hlen : s.toList.length < body.length + 1 := by
      have hescaped : ∀ bs : Bytes, bs.length ≤ (bs.flatMap escape).length := by
        intro bs
        induction bs with
        | nil => simp
        | cons b bs ih =>
          have hpos : 0 < (escape b).length := by
            unfold escape
            repeat' split
            all_goals simp
          rw [List.flatMap_cons, List.length_append, List.length_cons]
          omega
      have hchars : ∀ cs : List Char, cs.length ≤ (cs.flatMap String.utf8EncodeChar).length := by
        intro cs
        induction cs with
        | nil => simp
        | cons c cs ih =>
          have hpos : 0 < (String.utf8EncodeChar c).length :=
            List.length_pos_of_ne_nil String.utf8EncodeChar_ne_nil
          rw [List.flatMap_cons, List.length_append, List.length_cons]
          omega
      have h1 := hchars s.toList
      have h2 := hescaped (utf8 s)
      rw [utf8_eq] at h2
      rw [hbody, utf8_eq, List.length_append]
      omega
    rw [hbody, utf8_eq]
    rw [hbody, utf8_eq] at hlen
    rw [stringLoop_chars s.toList "" _ hlen rest]
    simp
  refuse h := absurd trivial h

/-! ## Numbers and truth values -/

theorem le_digitsFrom (v : Nat) (ds : Bytes) : v ≤ digitsFrom v ds := by
  induction ds generalizing v with
  | nil => exact Nat.le_refl v
  | cons d ds ih =>
    have hstep : v ≤ v * 10 + (d.toNat - 48) := by omega
    exact Nat.le_trans hstep (ih _)

theorem digitRun_eq {max : Nat} {ds rest : Bytes} (hds : ∀ d ∈ ds, isDigit d = true)
    (hrest : ∀ b ∈ rest.head?, isDigit b = false) (v n : Nat) (hv : v ≤ max) :
    digitRun max v n (ds ++ rest) =
      if digitsFrom v ds ≤ max then .ok ((digitsFrom v ds, n + ds.length), rest)
      else .error .malformed := by
  induction ds generalizing v n with
  | nil =>
    have hend : digitRun max v n rest = .ok ((v, n), rest) := by
      cases rest with
      | nil => rfl
      | cons b rest =>
        have hb := hrest b (by simp)
        simp only [digitRun, hb, Bool.false_eq_true, if_false]
    rw [List.nil_append, hend]
    exact (if_pos hv).symm
  | cons d ds ih =>
    have hd := hds d (by simp)
    have hstep : digitsFrom v (d :: ds) = digitsFrom (v * 10 + (d.toNat - 48)) ds := rfl
    rw [List.cons_append, digitRun, if_pos hd, hstep]
    by_cases hw : v * 10 + (d.toNat - 48) ≤ max
    · simp only [if_pos hw]
      rw [ih (fun x hx => hds x (by simp [hx])) _ _ hw, List.length_cons, Nat.add_assoc,
        Nat.add_comm 1]
    · simp only [if_neg hw]
      have hle := le_digitsFrom (v * 10 + (d.toNat - 48)) ds
      rw [if_neg (by omega)]

theorem digitRun_decimal (max n : Nat) {rest : Bytes}
    (hrest : ∀ b ∈ rest.head?, isDigit b = false) :
    digitRun max 0 0 (decimal n ++ rest) =
      if n ≤ max then .ok ((n, (decimal n).length), rest) else .error .malformed := by
  rw [digitRun_eq (fun _ hd => isDigit_of_mem_decimal hd) hrest 0 0 (Nat.zero_le _),
    digitsFrom_decimal, Nat.zero_add]

theorem decimal_length_ne_zero (n : Nat) : (decimal n).length ≠ 0 := by
  simp [decimal_ne_nil]

theorem run_parseMagnitude (neg : Bool) (n : Nat) {rest : Bytes}
    (hrest : ∀ b ∈ rest.head?, isDigit b = false) :
    (parseMagnitude neg).run (decimal n ++ rest) =
      if n ≤ 2 ^ 63 - 1 then .ok (Int64.ofInt (if neg then -n else n), rest)
      else .error .malformed := by
  unfold parseMagnitude
  rw [StateT.run_bind]
  show (digitRun (2 ^ 63 - 1) 0 0 (decimal n ++ rest) >>= _) = _
  rw [digitRun_decimal _ _ hrest]
  by_cases hn : n ≤ 2 ^ 63 - 1
  · rw [if_pos hn, if_pos hn]
    show (if (decimal n).length = 0 then err
      else pure (Int64.ofInt (if neg then -n else n)) : CodecReader Int64).run rest = _
    rw [if_neg (decimal_length_ne_zero n)]
    rfl
  · rw [if_neg hn, if_neg hn]
    rfl

theorem run_parseI64 (neg : Bool) (n : Nat) {rest : Bytes}
    (hrest : ∀ b ∈ rest.head?, isDigit b = false) :
    parseI64.run ((if neg then [0x2D] else []) ++ (decimal n ++ rest)) =
      if n ≤ 2 ^ 63 - 1 then .ok (Int64.ofInt (if neg then -n else n), rest)
      else .error .malformed := by
  rw [← run_parseMagnitude neg n hrest]
  unfold parseI64
  cases neg with
  | true =>
    rw [if_pos rfl, List.singleton_append, StateT.run_bind, run_skipWs_of_head (by decide)]
    rfl
  | false =>
    obtain ⟨d, ds, hd, hdigit⟩ := decimal_head n
    have hminus : ¬ some d = some 0x2D := by
      intro h
      rw [Option.some.inj h] at hdigit
      exact absurd hdigit (by decide)
    rw [if_neg Bool.false_ne_true, List.nil_append, hd, List.cons_append, StateT.run_bind,
      run_skipWs_of_head (isSpace_of_isDigit hdigit)]
    show (if some d = some 0x2D then _ else parseMagnitude false : CodecReader Int64).run _ = _
    rw [if_neg hminus]

theorem run_parseU64 (n : Nat) {rest : Bytes} (hrest : ∀ b ∈ rest.head?, isDigit b = false) :
    parseU64.run (decimal n ++ rest) =
      if n ≤ 2 ^ 64 - 1 then .ok (UInt64.ofNat n, rest) else .error .malformed := by
  obtain ⟨d, ds, hd, hdigit⟩ := decimal_head n
  have hrun := digitRun_decimal (2 ^ 64 - 1) n hrest
  unfold parseU64
  rw [hd, List.cons_append, StateT.run_bind, run_skipWs_of_head (isSpace_of_isDigit hdigit),
    ← List.cons_append, ← hd]
  show ((digitRun (2 ^ 64 - 1) 0 0 : CodecReader (Nat × Nat)) >>= fun p =>
    if p.2 = 0 then err else pure (UInt64.ofNat p.1) : CodecReader UInt64).run
    (decimal n ++ rest) = _
  rw [StateT.run_bind]
  show (digitRun (2 ^ 64 - 1) 0 0 (decimal n ++ rest) >>= _) = _
  rw [hrun]
  by_cases hn : n ≤ 2 ^ 64 - 1
  · rw [if_pos hn, if_pos hn]
    show (if (decimal n).length = 0 then err else pure (UInt64.ofNat n) :
      CodecReader UInt64).run rest = _
    rw [if_neg (decimal_length_ne_zero _)]
    rfl
  · rw [if_neg hn, if_neg hn]
    rfl

theorem reads_i64 (v : Int64) :
    Reads parseI64 .malformed (write (.num v.toInt)) (v ≠ Int64.minValue) v := by
  have hlow := v.le_toInt
  have hhigh := v.toInt_lt
  have hmin : v = Int64.minValue ↔ v.toInt = -2 ^ 63 := by
    rw [← Int64.toInt_inj]
    rfl
  have hback : Int64.ofInt v.toInt = v := Int64.ofInt_toInt v
  have hrun : ∀ rest, Follow rest → parseI64.run (write (.num v.toInt) ++ rest) =
      if v.toInt.natAbs ≤ 2 ^ 63 - 1 then .ok (v, rest) else .error .malformed := by
    intro rest hrest
    have hread := run_parseI64 (decide (v.toInt < 0)) v.toInt.natAbs hrest.not_digit
    have hvalue : (if decide (v.toInt < 0) = true then -(v.toInt.natAbs : Int)
        else v.toInt.natAbs) = v.toInt := by
      by_cases hneg : v.toInt < 0
      · rw [decide_eq_true hneg, if_pos rfl]
        omega
      · rw [decide_eq_false hneg, if_neg Bool.false_ne_true]
        omega
    have htext : write (.num v.toInt) ++ rest =
        (if decide (v.toInt < 0) = true then [0x2D] else []) ++
          (decimal v.toInt.natAbs ++ rest) := by
      simp only [write, number, decide_eq_true_eq]
      split <;> rfl
    rw [htext, hread, hvalue, hback]
  constructor
  · intro hne rest hrest
    have hne' : v.toInt ≠ -2 ^ 63 := fun h => hne (hmin.mpr h)
    rw [hrun rest hrest, if_pos (by omega)]
  · intro heq rest hrest
    have heq' : v.toInt = -2 ^ 63 := hmin.mp (not_not.mp heq)
    rw [hrun rest hrest, if_neg (by omega)]

theorem reads_i16 (v : Int16) :
    Reads parseI64 .malformed (write (.num v.toInt)) True v.toInt64 := by
  have hint : v.toInt64.toInt = v.toInt := Int16.toInt_toInt64 v
  have hread := reads_i64 v.toInt64
  rw [hint] at hread
  refine hread.congr ⟨fun _ => trivial, fun _ hmin => ?_⟩
  have hlow := v.le_toInt
  rw [hmin] at hint
  have hmin' : Int64.minValue.toInt = -2 ^ 63 := by decide
  omega

theorem reads_u64 (v : UInt32) :
    Reads parseU64 .malformed (write (.num v.toNat)) True v.toUInt64 where
  accept _ rest hrest := by
    have hlt := v.toNat_lt
    have hnum : write (.num v.toNat) = decimal v.toNat := by
      simp only [write, number]
      rw [if_neg (by omega)]
      rfl
    have hvalue : UInt64.ofNat v.toNat = v.toUInt64 := by
      rw [← UInt64.toNat_inj, UInt64.toNat_ofNat', UInt32.toNat_toUInt64]
      omega
    rw [hnum, run_parseU64 v.toNat hrest.not_digit, if_pos (by omega), hvalue]
  refuse h := absurd trivial h

theorem reads_bool (b : Bool) : Reads parseBool .malformed (write (.bool b)) True b where
  accept _ rest _ := by
    unfold parseBool
    cases b with
    | true =>
      rw [write, StateT.run_bind, List.cons_append, run_skipWs_of_head (by decide)]
      rfl
    | false =>
      rw [write, StateT.run_bind, List.cons_append, run_skipWs_of_head (by decide)]
      rfl
  refuse h := absurd trivial h

theorem reads_key (k : String) : Reads parseString .malformed (quote k) True k := reads_string k

theorem reads_u32 (v : UInt32) :
    Reads parseU64AsU32 .malformed (write (.num v.toNat)) True v := by
  have h := (reads_u64 v).map UInt64.toUInt32
  rw [UInt32.toUInt32_toUInt64] at h
  exact h

theorem reads_nullableU32 (o : Option UInt32) :
    Reads parseNullableU32 .malformed (write (match o with
      | some v => .num v.toNat
      | none => .null)) True o where
  accept _ rest hrest := by
    cases o with
    | none =>
      unfold parseNullableU32
      simp only [write, List.cons_append]
      rw [StateT.run_bind, run_skipWs_of_head (by decide)]
      rfl
    | some v =>
      have hread := ((reads_u32 v).map some).accept trivial rest hrest
      obtain ⟨d, ds, hd, hdigit⟩ := decimal_head v.toNat
      have hnum : write (.num v.toNat) = decimal v.toNat := by
        simp only [write, number]
        rw [if_neg (by omega)]
        rfl
      have hnull : ¬ some d = some 0x6E := by
        intro h
        rw [Option.some.inj h] at hdigit
        exact absurd hdigit (by decide)
      rw [hnum, hd, List.cons_append] at hread ⊢
      rw [← hread]
      unfold parseNullableU32
      rw [StateT.run_bind, run_skipWs_of_head (isSpace_of_isDigit hdigit)]
      show (if some d = some 0x6E then _ else (do
        let v ← parseU64AsU32
        pure (some v)) : CodecReader (Option UInt32)).run _ = _
      rw [if_neg hnull]
  refuse h := absurd trivial h

theorem reads_strings (xs : List String) :
    Reads parseStringArray .malformed (write (.arr (xs.map Json.str))) True xs :=
  (Reads.array fun x _ => reads_string x).congr (by simp)

/-! ## Formulas -/

theorem reads_oelAt (o : Oel) : ∀ depth, (write (oelTree o)).length ≤ depth →
    Reads (parseOelAt depth) .malformed (write (oelTree o)) True o := by
  induction o with
  | var name =>
    intro depth hdepth
    obtain ⟨d, rfl⟩ := Nat.exists_eq_add_one_of_ne_zero (n := depth) (by
      intro h; subst h; simp [oelTree, write] at hdepth)
    have hmembers : ReadsMembers .malformed parseString (oelMember (parseOelAt d)) {}
        [("op", .str "Var"), ("name", .str name)] (True ∧ True ∧ True)
        { op := some "Var", name := some name } := by
      refine .cons (reads_key _) ((reads_string _).map _) ?_
      refine .cons (reads_key _) ((reads_string _).map _) ?_
      exact .nil
    exact (hmembers.object.bind fun _ => rfl).congr (by simp)
  | cast src tgt arg ih =>
    intro depth hdepth
    obtain ⟨d, rfl⟩ := Nat.exists_eq_add_one_of_ne_zero (n := depth) (by
      intro h; subst h; simp [oelTree, write] at hdepth)
    have hinner : (write (oelTree arg)).length ≤ d := by
      simp only [oelTree, write, writeMembers, List.length_cons, List.length_append] at hdepth
      omega
    have hmembers : ReadsMembers .malformed parseString (oelMember (parseOelAt d)) {}
        [("op", .str "Cast"), ("from", .str src), ("to", .str tgt), ("arg", oelTree arg)]
        (True ∧ True ∧ True ∧ True ∧ True)
        { op := some "Cast", src := some src, tgt := some tgt, arg := some arg } := by
      refine .cons (reads_key _) ((reads_string _).map _) ?_
      refine .cons (reads_key _) ((reads_string _).map _) ?_
      refine .cons (reads_key _) ((reads_string _).map _) ?_
      refine .cons (reads_key _) ((ih d hinner).map _) ?_
      exact .nil
    exact (hmembers.object.bind fun _ => rfl).congr (by simp)

theorem run_parseOel (bytes : Bytes) :
    parseOel.run bytes = (parseOelAt (bytes.length + 1)).run bytes :=
  run_get_bind (fun rest => parseOelAt (rest.length + 1)) bytes

theorem reads_oel (o : Oel) : Reads parseOel .malformed (write (oelTree o)) True o where
  accept _ rest hrest := by
    have hlen : (write (oelTree o)).length ≤ (write (oelTree o) ++ rest).length + 1 := by
      rw [List.length_append]
      omega
    rw [run_parseOel]
    exact (reads_oelAt o _ hlen).accept trivial rest hrest
  refuse h := absurd trivial h

theorem reads_predicateRef (p : PredicateRef) :
    Reads parsePredicateRef .malformed (write (predicateRefTree p)) True p := by
  have hmembers : ReadsMembers .malformed parseString predicateRefMember {}
      [("module", .str p.module), ("name", .str p.name), ("ir", .arr (p.ir.map Json.str)),
        ("ir_hash", .str p.irHash)] (True ∧ True ∧ True ∧ True ∧ True)
      { module := some p.module, name := some p.name, ir := some p.ir, irHash := some p.irHash } := by
    refine .cons (reads_key _) ((reads_string _).map _) ?_
    refine .cons (reads_key _) ((reads_string _).map _) ?_
    refine .cons (reads_key _) ((reads_strings _).map _) ?_
    refine .cons (reads_key _) ((reads_string _).map _) ?_
    exact .nil
  exact (hmembers.object.bind fun _ => rfl).congr (by simp)

def Formula.Readable : Formula → Prop
  | .inRange _ lo hi => lo ≠ Int64.minValue ∧ hi ≠ Int64.minValue
  | _ => True

theorem reads_formula (f : Formula) :
    Reads parseFormula .malformed (write (formulaTree f)) f.Readable f := by
  cases f with
  | inRange value lo hi =>
    have hmembers : ReadsMembers .malformed parseString formulaMember {}
        [("op", .str "InRange"), ("value", oelTree value), ("lo", .num lo.toInt),
          ("hi", .num hi.toInt)]
        (True ∧ True ∧ lo ≠ Int64.minValue ∧ hi ≠ Int64.minValue ∧ True)
        { op := some "InRange", value := some value, lo := some lo, hi := some hi } := by
      refine .cons (reads_key _) ((reads_string _).map _) ?_
      refine .cons (reads_key _) ((reads_oel _).map _) ?_
      refine .cons (reads_key _) ((reads_i64 _).map _) ?_
      refine .cons (reads_key _) ((reads_i64 _).map _) ?_
      exact .nil
    exact (hmembers.object.bind fun _ => rfl).congr (by simp [Formula.Readable])
  | offsetLE off width size =>
    have hmembers : ReadsMembers .malformed parseString formulaMember {}
        [("op", .str "OffsetLE"), ("off", match off with
            | some off => .num off.toNat
            | none => .null),
          ("width", .num width.toNat), ("size", .num size.toNat)]
        (True ∧ True ∧ True ∧ True ∧ True)
        { op := some "OffsetLE", off := some off, width := some width, size := some size } := by
      refine .cons (reads_key _) ((reads_string _).map _) ?_
      refine .cons (reads_key _) ((reads_nullableU32 _).map _) ?_
      refine .cons (reads_key _) ((reads_u32 _).map _) ?_
      refine .cons (reads_key _) ((reads_u32 _).map _) ?_
      exact .nil
    exact (hmembers.object.bind fun _ => rfl).congr (by simp [Formula.Readable])
  | predicateHolds pred args =>
    have hmembers : ReadsMembers .malformed parseString formulaMember {}
        [("op", .str "PredicateHolds"), ("predicate", predicateRefTree pred),
          ("args", .arr (args.map oelTree))]
        (True ∧ True ∧ (∀ a ∈ args, True) ∧ True)
        { op := some "PredicateHolds", pred := some pred, args := some args } := by
      refine .cons (reads_key _) ((reads_string _).map _) ?_
      refine .cons (reads_key _) ((reads_predicateRef _).map _) ?_
      refine .cons (reads_key _) ((Reads.array fun a _ => reads_oel a).map _) ?_
      exact .nil
    exact (hmembers.object.bind fun _ => rfl).congr (by simp [Formula.Readable])

/-! ## Obligations -/

theorem reads_edge (e : AssumptionEdge) :
    Reads parseAssumption .malformed (write (edgeTree e)) True e := by
  cases e with
  | obligation id module =>
    have hmembers : ReadsMembers .malformed parseString edgeMember {}
        [("obligation", .str id), ("module", .str module)] (True ∧ True ∧ True)
        { obligation := some id, module := some module } := by
      refine .cons (reads_key _) ((reads_string _).map _) ?_
      refine .cons (reads_key _) ((reads_string _).map _) ?_
      exact .nil
    have hobject : Reads (do
        let s ← parseObject edgeMember {}
        let obligation ← need s.obligation
        let module ← need s.module
        pure (.obligation obligation module)) .malformed (write (edgeTree (.obligation id module)))
        (True ∧ True ∧ True) (AssumptionEdge.obligation id module) :=
      hmembers.object.bind fun _ => rfl
    constructor
    · intro _ rest hrest
      exact hobject.accept (by simp) rest hrest
    · intro h
      exact absurd trivial h
  | runtimeCheck =>
    have hstring : Reads (do
        let s ← parseString
        if s = "runtime-check" then pure .runtimeCheck else err) .malformed
        (write (edgeTree .runtimeCheck)) True AssumptionEdge.runtimeCheck :=
      (reads_string "runtime-check").bind fun _ => rfl
    constructor
    · intro _ rest hrest
      exact hstring.accept trivial rest hrest
    · intro h
      exact absurd trivial h

theorem reads_cycle (c : Cycle) : Reads parseCycle .malformed (write (cycleTree c)) True c := by
  have hmembers : ReadsMembers .malformed parseString cycleMember {}
      [("index", .num c.index.toNat), ("blocks", .arr (c.blocks.map Json.str))]
      (True ∧ True ∧ True) { index := some c.index, blocks := some c.blocks } := by
    refine .cons (reads_key _) ((reads_u32 _).map _) ?_
    refine .cons (reads_key _) ((reads_strings _).map _) ?_
    exact .nil
  exact (hmembers.object.bind fun _ => rfl).congr (by simp)

theorem reads_span (s : SpanInfo) : Reads parseSpan .malformed (write (spanTree s)) True s := by
  have hmembers : ReadsMembers .malformed parseString spanMember {}
      [("line", .num s.line.toNat), ("col", .num s.col.toNat)]
      (True ∧ True ∧ True) { line := some s.line, col := some s.col } := by
    refine .cons (reads_key _) ((reads_u32 _).map _) ?_
    refine .cons (reads_key _) ((reads_u32 _).map _) ?_
    exact .nil
  exact (hmembers.object.bind fun _ => rfl).congr (by simp)

theorem reads_site (s : Site) : Reads parseSite .malformed (write (siteTree s)) True s := by
  have hmembers : ReadsMembers .malformed parseString siteMember {}
      [("word", .str s.word), ("occurrence", .num s.occurrence.toNat), ("span", spanTree s.span)]
      (True ∧ True ∧ True ∧ True)
      { word := some s.word, occurrence := some s.occurrence, span := some s.span } := by
    refine .cons (reads_key _) ((reads_string _).map _) ?_
    refine .cons (reads_key _) ((reads_u32 _).map _) ?_
    refine .cons (reads_key _) ((reads_span _).map _) ?_
    exact .nil
  exact (hmembers.object.bind fun _ => rfl).congr (by simp)

theorem reads_intent (i : Intent) : Reads parseIntent .malformed (write (intentTree i)) True i := by
  have hmembers : ReadsMembers .malformed parseString intentMember {}
      [("label", .str i.label), ("subject", .str i.subject), ("authored", .bool i.authored)]
      (True ∧ True ∧ True ∧ True)
      { label := some i.label, subject := some i.subject, authored := some i.authored } := by
    refine .cons (reads_key _) ((reads_string _).map _) ?_
    refine .cons (reads_key _) ((reads_string _).map _) ?_
    refine .cons (reads_key _) ((reads_bool _).map _) ?_
    exact .nil
  exact (hmembers.object.bind fun _ => rfl).congr (by simp)

theorem Kind.fromStr_asStr (k : Kind) : Kind.fromStr k.asStr = some k := by
  cases k <;> rfl

theorem Provenance.fromStr_asStr (p : Provenance) : Provenance.fromStr p.asStr = some p := by
  cases p <;> rfl

theorem reads_obligation (o : Obligation) :
    Reads parseObligation .malformed (write (obligationTree o)) o.formula.Readable o := by
  have hkind : ∀ s : ObligationParts, Reads (obligationMember "kind" s) .malformed
      (write (.str o.kind.asStr)) True { s with kind := some o.kind } := by
    intro s
    have h := (reads_string o.kind.asStr).map fun v => { s with kind := Kind.fromStr v }
    rw [Kind.fromStr_asStr] at h
    exact h
  have hprov : ∀ s : ObligationParts, Reads (obligationMember "provenance" s) .malformed
      (write (.str o.provenance.asStr)) True { s with provenance := some o.provenance } := by
    intro s
    have h := (reads_string o.provenance.asStr).map fun v =>
      { s with provenance := Provenance.fromStr v }
    rw [Provenance.fromStr_asStr] at h
    exact h
  have hmembers : ReadsMembers .malformed parseString obligationMember {}
      [("id", .str o.id), ("id_hash", .str o.idHash), ("kind", .str o.kind.asStr),
        ("site", siteTree o.site), ("intent", intentTree o.intent),
        ("formula", formulaTree o.formula), ("assumptions", .arr (o.assumptions.map edgeTree)),
        ("cycles", .arr (o.cycles.map cycleTree)), ("provenance", .str o.provenance.asStr)]
      (True ∧ True ∧ True ∧ True ∧ True ∧ o.formula.Readable ∧ (∀ e ∈ o.assumptions, True) ∧
        (∀ c ∈ o.cycles, True) ∧ True ∧ True)
      { id := some o.id, idHash := some o.idHash, kind := some o.kind, site := some o.site
        intent := some o.intent, formula := some o.formula, assumptions := some o.assumptions
        cycles := some o.cycles, provenance := some o.provenance } := by
    refine .cons (reads_key _) ((reads_string _).map _) ?_
    refine .cons (reads_key _) ((reads_string _).map _) ?_
    refine .cons (reads_key _) (hkind _) ?_
    refine .cons (reads_key _) ((reads_site _).map _) ?_
    refine .cons (reads_key _) ((reads_intent _).map _) ?_
    refine .cons (reads_key _) ((reads_formula _).map _) ?_
    refine .cons (reads_key _) ((Reads.array fun e _ => reads_edge e).map _) ?_
    refine .cons (reads_key _) ((Reads.array fun c _ => reads_cycle c).map _) ?_
    refine .cons (reads_key _) (hprov _) ?_
    exact .nil
  exact (hmembers.object.bind fun _ => rfl).congr (by simp)

theorem reads_wordFact (w : WordFact) :
    Reads parseWordFact .malformed (write (wordFactTree w)) True w := by
  have hnet : ∀ s : WordFactParts, Reads (wordFactMember "net" s) .malformed
      (write (.num w.net.toInt)) True { s with net := some w.net } := by
    intro s
    have h := (reads_i16 w.net).map fun v => { s with net := some v.toInt16 }
    rw [Int16.toInt16_toInt64] at h
    exact h
  have hmembers : ReadsMembers .malformed parseString wordFactMember {}
      [("name", .str w.name), ("net", .num w.net.toInt), ("high", .num w.high.toNat),
        ("top", .bool w.top), ("performs", .arr (w.performs.map Json.str)),
        ("diverge_free", .bool w.divergeFree), ("blocks", .num w.blocks.toNat), ("ir", .str w.ir)]
      (True ∧ True ∧ True ∧ True ∧ True ∧ True ∧ True ∧ True ∧ True)
      { name := some w.name, net := some w.net, high := some w.high, top := some w.top
        performs := some w.performs, divergeFree := some w.divergeFree, blocks := some w.blocks
        ir := some w.ir } := by
    refine .cons (reads_key _) ((reads_string _).map _) ?_
    refine .cons (reads_key _) (hnet _) ?_
    refine .cons (reads_key _) ((reads_u32 _).map _) ?_
    refine .cons (reads_key _) ((reads_bool _).map _) ?_
    refine .cons (reads_key _) ((reads_strings _).map _) ?_
    refine .cons (reads_key _) ((reads_bool _).map _) ?_
    refine .cons (reads_key _) ((reads_u32 _).map _) ?_
    refine .cons (reads_key _) ((reads_string _).map _) ?_
    exact .nil
  exact (hmembers.object.bind fun _ => rfl).congr (by simp)

def SubtypeFact.Readable (s : SubtypeFact) : Prop := s.lo ≠ Int64.minValue ∧ s.hi ≠ Int64.minValue

theorem reads_subtypeFact (s : SubtypeFact) :
    Reads parseSubtypeFact .malformed (write (subtypeFactTree s)) s.Readable s := by
  have hmembers : ReadsMembers .malformed parseString subtypeFactMember {}
      [("name", .str s.name), ("lo", .num s.lo.toInt), ("hi", .num s.hi.toInt)]
      (True ∧ s.lo ≠ Int64.minValue ∧ s.hi ≠ Int64.minValue ∧ True)
      { name := some s.name, lo := some s.lo, hi := some s.hi } := by
    refine .cons (reads_key _) ((reads_string _).map _) ?_
    refine .cons (reads_key _) ((reads_i64 _).map _) ?_
    refine .cons (reads_key _) ((reads_i64 _).map _) ?_
    exact .nil
  exact (hmembers.object.bind fun _ => rfl).congr (by simp [SubtypeFact.Readable])

theorem reads_predicateFact (p : PredicateFact) :
    Reads parsePredicateFact .malformed (write (predicateFactTree p)) True p := by
  have hmembers : ReadsMembers .malformed parseString predicateFactMember {}
      [("name", .str p.name), ("ir", .arr (p.ir.map Json.str)), ("ir_hash", .str p.irHash)]
      (True ∧ True ∧ True ∧ True)
      { name := some p.name, ir := some p.ir, irHash := some p.irHash } := by
    refine .cons (reads_key _) ((reads_string _).map _) ?_
    refine .cons (reads_key _) ((reads_strings _).map _) ?_
    refine .cons (reads_key _) ((reads_string _).map _) ?_
    exact .nil
  exact (hmembers.object.bind fun _ => rfl).congr (by simp)

theorem reads_facts (f : Facts) :
    Reads parseFacts .malformed (write (factsTree f)) (∀ s ∈ f.subtypes, s.Readable) f := by
  have hmembers : ReadsMembers .malformed parseString factsMember {}
      [("words", .arr (f.words.map wordFactTree)),
        ("subtypes", .arr (f.subtypes.map subtypeFactTree)),
        ("predicates", .arr (f.predicates.map predicateFactTree))]
      ((∀ w ∈ f.words, True) ∧ (∀ s ∈ f.subtypes, s.Readable) ∧ (∀ p ∈ f.predicates, True) ∧ True)
      { words := some f.words, subtypes := some f.subtypes, predicates := some f.predicates } := by
    refine .cons (reads_key _) ((Reads.array fun w _ => reads_wordFact w).map _) ?_
    refine .cons (reads_key _) ((Reads.array fun s _ => reads_subtypeFact s).map _) ?_
    refine .cons (reads_key _) ((Reads.array fun p _ => reads_predicateFact p).map _) ?_
    exact .nil
  exact (hmembers.object.bind fun _ => rfl).congr (by simp)

/-- No bound of the set, in a subtype or in a formula, is the least 64-bit integer. -/
def OblSet.BoundsReadable (set : OblSet) : Prop :=
  (∀ s ∈ set.facts.subtypes, s.Readable) ∧ ∀ o ∈ set.obligations, o.formula.Readable

theorem reads_doc (set : OblSet) :
    Reads parseDoc .malformed (write (docTree set)) set.BoundsReadable set := by
  have hmembers : ReadsMembers .malformed parseString docMember {}
      [("schema", .str set.schema), ("semantics", .str set.semantics), ("stmt", .str set.stmt),
        ("module", .str set.module), ("target", .str set.target), ("platform", .str set.platform),
        ("model_semantics", .str set.modelSemantics), ("concurrency", .str set.concurrency),
        ("abi_contract_version", .num set.abiContractVersion.toNat), ("facts", factsTree set.facts),
        ("obligations", .arr (set.obligations.map obligationTree))]
      (True ∧ True ∧ True ∧ True ∧ True ∧ True ∧ True ∧ True ∧ True ∧
        (∀ s ∈ set.facts.subtypes, s.Readable) ∧ (∀ o ∈ set.obligations, o.formula.Readable) ∧ True)
      { schema := some set.schema, semantics := some set.semantics, stmt := some set.stmt
        module := some set.module, target := some set.target, platform := some set.platform
        modelSemantics := some set.modelSemantics, concurrency := some set.concurrency
        abiContractVersion := some set.abiContractVersion, facts := some set.facts
        obligations := some set.obligations } := by
    refine .cons (reads_key _) ((reads_string _).map _) ?_
    refine .cons (reads_key _) ((reads_string _).map _) ?_
    refine .cons (reads_key _) ((reads_string _).map _) ?_
    refine .cons (reads_key _) ((reads_string _).map _) ?_
    refine .cons (reads_key _) ((reads_string _).map _) ?_
    refine .cons (reads_key _) ((reads_string _).map _) ?_
    refine .cons (reads_key _) ((reads_string _).map _) ?_
    refine .cons (reads_key _) ((reads_string _).map _) ?_
    refine .cons (reads_key _) ((reads_u32 _).map _) ?_
    refine .cons (reads_key _) ((reads_facts _).map _) ?_
    refine .cons (reads_key _) ((Reads.array fun o _ => reads_obligation o).map _) ?_
    exact .nil
  exact (hmembers.object.bind fun _ => rfl).congr (by simp [OblSet.BoundsReadable])

/-! ## Round trip -/

def OblSet.FitsCaps (set : OblSet) : Prop :=
  (∀ w ∈ set.facts.words, (utf8 w.ir).length ≤ WORD_IR_MAX_BYTES) ∧
    (writeDoc set).length ≤ OBL_ARTIFACT_MAX_BYTES

theorem encodeObl_eq_ok {set : OblSet} {bytes : Bytes} :
    encodeObl set = .ok bytes ↔ set.FitsCaps ∧ set.validate = true ∧ bytes = writeDoc set := by
  unfold encodeObl OblSet.FitsCaps
  simp only [bind_eq_ok, pure_eq_ok, require_eq_ok, forM_eq_ok]
  constructor
  · intro ⟨_, hwords, _, hvalid, _, hcap, hbytes⟩
    exact ⟨⟨hwords, hcap⟩, hvalid, hbytes.symm⟩
  · intro ⟨⟨hwords, hcap⟩, hvalid, hbytes⟩
    exact ⟨⟨⟩, hwords, ⟨⟩, hvalid, ⟨⟩, hcap, hbytes.symm⟩

theorem readObl_eq_ok {bytes : Bytes} {set : OblSet} :
    readObl bytes = .ok set ↔ bytes.length ≤ OBL_ARTIFACT_MAX_BYTES ∧
      (∃ rest, parseDoc.run bytes = .ok (set, rest)) ∧ set.schema = OBL_SCHEMA ∧
      set.semantics = SEMANTICS_VERSION := by
  unfold readObl
  simp only [bind_eq_ok, pure_eq_ok, require_eq_ok]
  constructor
  · intro ⟨_, hcap, ⟨set', rest⟩, hparse, _, hschema, _, hsem, hset⟩
    subst hset
    exact ⟨hcap, ⟨rest, hparse⟩, hschema, hsem⟩
  · intro ⟨hcap, ⟨rest, hparse⟩, hschema, hsem⟩
    exact ⟨⟨⟩, hcap, (set, rest), hparse, ⟨⟩, hschema, ⟨⟩, hsem, rfl⟩

theorem readObl_eq_error {bytes : Bytes} {e : CodecError}
    (hcap : bytes.length ≤ OBL_ARTIFACT_MAX_BYTES) (h : parseDoc.run bytes = .error e) :
    readObl bytes = .error e := by
  unfold readObl require
  rw [if_pos hcap]
  show (parseDoc.run bytes >>= _) = _
  rw [h]
  rfl

theorem parseDoc_writeDoc (set : OblSet) :
    (set.BoundsReadable → parseDoc.run (writeDoc set) = .ok (set, [])) ∧
      (¬ set.BoundsReadable → parseDoc.run (writeDoc set) = .error .malformed) := by
  have hdoc := reads_doc set
  rw [← writeDoc_eq] at hdoc
  constructor
  · intro hgood
    have hrun := hdoc.accept hgood [] follow_nil
    rw [List.append_nil] at hrun
    exact hrun
  · intro hbad
    have hrun := hdoc.refuse hbad [] follow_nil
    rw [List.append_nil] at hrun
    exact hrun

/-- A validated extraction result reads back exactly when it fits the writer's caps and has no
bound that is the least 64-bit integer. -/
theorem readObl_encodeObl_iff (set : OblSet) (hschema : set.schema = OBL_SCHEMA)
    (hsem : set.semantics = SEMANTICS_VERSION) (hvalid : set.validate = true) :
    (encodeObl set >>= readObl) = .ok set ↔ set.FitsCaps ∧ set.BoundsReadable := by
  rw [bind_eq_ok]
  constructor
  · intro ⟨bytes, hencode, hread⟩
    have hwritten := encodeObl_eq_ok.mp hencode
    have hparsed := readObl_eq_ok.mp hread
    rw [hwritten.2.2] at hparsed
    refine ⟨hwritten.1, ?_⟩
    by_contra hbad
    obtain ⟨rest, hrest⟩ := hparsed.2.1
    exact absurd ((parseDoc_writeDoc set).2 hbad ▸ hrest) nofun
  · intro ⟨hcaps, hgood⟩
    exact ⟨writeDoc set, encodeObl_eq_ok.mpr ⟨hcaps, hvalid, rfl⟩,
      readObl_eq_ok.mpr ⟨hcaps.2, ⟨[], (parseDoc_writeDoc set).1 hgood⟩, hschema, hsem⟩⟩

/-- The obligation set of a module with one parameter check, whose range is `lo` to `hi`. -/
def rangeSet (lo hi : Int64) : OblSet where
  schema := OBL_SCHEMA
  semantics := SEMANTICS_VERSION
  stmt := STMT_SCHEMA
  module := "Bank"
  target := "x86_64"
  platform := "x86_64"
  modelSemantics := MODEL_UNMODELED
  concurrency := CONCURRENCY_UNMODELED
  abiContractVersion := 1
  facts := { words := [], subtypes := [], predicates := [] }
  obligations := [{
    id := "Bank::inc::subtype-range::0"
    idHash := idHashOf "Bank::inc::subtype-range::0"
    kind := .subtypeRange
    site := { word := "inc", occurrence := 0, span := { line := 1, col := 1 } }
    intent := defaultIntent .subtypeRange ""
    formula := .inRange (.var "in.0") lo hi
    assumptions := []
    cycles := []
    provenance := .direct }]

theorem rangeSet_validate (lo hi : Int64) : (rangeSet lo hi).validate = true := by
  have hid : canonicalId "Bank" "inc" .subtypeRange 0 = "Bank::inc::subtype-range::0" := by
    decide
  unfold OblSet.validate
  simp only [rangeSet, List.all_cons, List.all_nil, Bool.and_true, Bool.and_eq_true, beq_iff_eq,
    and_true]
  exact hid.symm

/-- The whole 64-bit range as the lower bound: the set validates and is written, and its text
does not read back. -/
theorem rangeSet_min_lost :
    (rangeSet Int64.minValue 10).validate = true ∧
      (∃ bytes, encodeObl (rangeSet Int64.minValue 10) = .ok bytes ∧
        readObl bytes = .error .malformed) ∧
      ¬ ((encodeObl (rangeSet Int64.minValue 10) >>= readObl) =
        .ok (rangeSet Int64.minValue 10)) := by
  have hcaps : (rangeSet Int64.minValue 10).FitsCaps :=
    ⟨fun w hw => (nomatch hw), by decide +kernel⟩
  have hwritten : encodeObl (rangeSet Int64.minValue 10) =
      .ok (writeDoc (rangeSet Int64.minValue 10)) :=
    encodeObl_eq_ok.mpr ⟨hcaps, rangeSet_validate _ _, rfl⟩
  have hbad : ¬ (rangeSet Int64.minValue 10).BoundsReadable := fun h =>
    (h.2 _ (List.mem_singleton.mpr rfl)).1 rfl
  have hread := readObl_eq_error hcaps.2 ((parseDoc_writeDoc _).2 hbad)
  refine ⟨rangeSet_validate _ _, ⟨_, hwritten, hread⟩, fun h => ?_⟩
  obtain ⟨bytes, hencode, hback⟩ := bind_eq_ok.mp h
  rw [hwritten] at hencode
  rw [← Except.ok.inj hencode, hread] at hback
  cases hback

theorem rangeSet_round_trip :
    (encodeObl (rangeSet 0 10) >>= readObl) = .ok (rangeSet 0 10) ↔
      (rangeSet 0 10).FitsCaps ∧ (rangeSet 0 10).BoundsReadable :=
  readObl_encodeObl_iff (rangeSet 0 10) rfl rfl (rangeSet_validate 0 10)

end Manifest

end Tyu

import Tyu.Frontend.Lex

/-!
# Lexing a slice alone

Tokens stand one behind the other, and between them there is only layout.
-/

namespace Tyu.Frontend

/-! ## Layout -/

/-- White space and comments.  At the end of a text a comment may be without its newline. -/
inductive Layout (atEnd : Bool) : Bytes → Prop where
  | nil : Layout atEnd []
  | space {b : UInt8} {bs : Bytes} (hb : isSpace b = true) (h : Layout atEnd bs) :
    Layout atEnd (b :: bs)
  | comment {t bs : Bytes} (ht : 0x0A ∉ t) (h : Layout atEnd bs) :
    Layout atEnd (0x23 :: (t ++ 0x0A :: bs))
  | last {t : Bytes} (hend : atEnd = true) (ht : 0x0A ∉ t) : Layout atEnd (0x23 :: t)

theorem Layout.longer {atEnd : Bool} {b : UInt8} {bs : Bytes} (h : Layout atEnd (0x23 :: bs))
    (hb : b ≠ 0x0A) : Layout atEnd (0x23 :: b :: bs) := by
  generalize hall : (0x23 :: bs : Bytes) = all at h
  cases h with
  | nil => cases hall
  | space hspace _ =>
    cases hall
    exact absurd hspace (by decide)
  | @comment text rest htext hrest =>
    cases hall
    exact .comment (t := b :: text) (by simp [htext, hb.symm]) hrest
  | last hend htext =>
    cases hall
    exact .last hend (by simp [htext, hb.symm])

theorem skip_split (bs : Bytes) :
    (∃ gap, bs = gap ++ skipWsAndComments false bs ∧
      Layout (skipWsAndComments false bs).isEmpty gap) ∧
    ∃ gap, bs = gap ++ skipWsAndComments true bs ∧
      Layout (skipWsAndComments true bs).isEmpty (0x23 :: gap) := by
  induction bs with
  | nil => exact ⟨⟨[], rfl, .nil⟩, ⟨[], rfl, .last rfl List.not_mem_nil⟩⟩
  | cons b bs ih =>
    obtain ⟨⟨gap, hgap, hlayout⟩, rest, hrest, hcomment⟩ := ih
    constructor
    · rw [skipWsAndComments]
      by_cases hspace : isSpace b = true
      · rw [if_pos hspace]
        exact ⟨b :: gap, congrArg (b :: ·) hgap, .space hspace hlayout⟩
      · rw [if_neg hspace]
        by_cases hhash : (b == 0x23) = true
        · rw [if_pos hhash]
          refine ⟨b :: rest, congrArg (b :: ·) hrest, ?_⟩
          rw [beq_iff_eq.mp hhash]
          exact hcomment
        · rw [if_neg hhash]
          exact ⟨[], rfl, .nil⟩
    · rw [skipWsAndComments]
      by_cases hline : b = 0x0A
      · rw [hline, bne_self_eq_false]
        exact ⟨0x0A :: gap, congrArg (0x0A :: ·) hgap,
          .comment (t := []) List.not_mem_nil hlayout⟩
      · rw [bne_iff_ne.mpr hline]
        exact ⟨b :: rest, congrArg (b :: ·) hrest, hcomment.longer hline⟩

theorem skip_length (inComment : Bool) (bs : Bytes) :
    (skipWsAndComments inComment bs).length ≤ bs.length := (skip_suffix inComment bs).length_le

theorem skip_skip (bs : Bytes) :
    skipWsAndComments false (skipWsAndComments false bs) = skipWsAndComments false bs := by
  suffices h : ∀ c, skipWsAndComments false (skipWsAndComments c bs) = skipWsAndComments c bs from
    h false
  induction bs with
  | nil =>
    intro c
    cases c <;> rfl
  | cons b bs ih =>
    intro c
    cases c with
    | true => exact ih (b != 0x0A)
    | false =>
      rw [skipWsAndComments]
      split
      · exact ih false
      · rename_i hspace
        split
        · exact ih true
        · rename_i hhash
          rw [skipWsAndComments, if_neg hspace, if_neg hhash]

theorem skip_take (inComment : Bool) (bs : Bytes) (n : Nat) :
    skipWsAndComments inComment (bs.take n) = (skipWsAndComments inComment bs).take
      (n - (bs.length - (skipWsAndComments inComment bs).length)) := by
  induction bs generalizing inComment n with
  | nil => cases inComment <;> simp [skipWsAndComments]
  | cons b bs ih =>
    cases n with
    | zero =>
      rw [Nat.zero_sub, List.take_zero, List.take_zero]
      cases inComment <;> rfl
    | succ n =>
      have hstep : ∀ c, (skipWsAndComments c bs).take (n + 1 -
          ((b :: bs).length - (skipWsAndComments c bs).length)) =
          skipWsAndComments c (bs.take n) := by
        intro c
        have hle := skip_length c bs
        rw [ih, List.length_cons]
        congr 1
        omega
      rw [List.take_succ_cons]
      cases inComment with
      | true =>
        rw [skipWsAndComments, skipWsAndComments]
        exact (hstep _).symm
      | false =>
        rw [skipWsAndComments, skipWsAndComments]
        split
        · exact (hstep false).symm
        · split
          · exact (hstep true).symm
          · rw [Nat.sub_self, Nat.sub_zero, List.take_succ_cons]

/-! ## Cut tokens -/

theorem stringLength_le (bs : Bytes) : stringLength bs ≤ bs.length := by
  fun_induction stringLength bs with
  | case1 => exact Nat.le_refl 0
  | case2 _ bs ih =>
    rw [List.length_cons, List.length_cons]
    omega
  | case3 => exact Nat.le_refl 1
  | case4 b bs _ _ _ => exact Nat.succ_le_succ (Nat.zero_le _)
  | case5 b bs _ _ _ ih =>
    rw [List.length_cons]
    omega

theorem stringLength_cons {b : UInt8} {bs : Bytes} (hb : b ≠ 0x5C) :
    stringLength (b :: bs) = if b == 0x22 then 1 else 1 + stringLength bs := by
  rw [stringLength]
  · intro _ _ h
    exact absurd h hb
  · intro h
    exact absurd h hb

theorem stringLength_take {bs : Bytes} {n : Nat} (h : stringLength bs ≤ n) :
    stringLength (bs.take n) = stringLength bs := by
  fun_induction stringLength bs generalizing n with
  | case1 => rw [List.take_nil]; rfl
  | case2 c bs ih =>
    obtain ⟨m, rfl⟩ : ∃ m, n = m + 2 := ⟨n - 2, by omega⟩
    rw [List.take_succ_cons, List.take_succ_cons]
    show 2 + stringLength (bs.take m) = _
    rw [ih (by omega)]
  | case3 =>
    obtain ⟨m, rfl⟩ : ∃ m, n = m + 1 := ⟨n - 1, by omega⟩
    rw [List.take_succ_cons, List.take_nil]
    rfl
  | case4 b bs hpair hlone hquote =>
    obtain ⟨m, rfl⟩ : ∃ m, n = m + 1 := ⟨n - 1, by omega⟩
    rw [List.take_succ_cons, stringLength_cons (fun hb => by cases bs <;> simp_all), if_pos hquote]
  | case5 b bs hpair hlone hquote ih =>
    obtain ⟨m, rfl⟩ : ∃ m, n = m + 1 := ⟨n - 1, by omega⟩
    rw [List.take_succ_cons, stringLength_cons (fun hb => by cases bs <;> simp_all), if_neg hquote,
      ih (by omega)]

theorem takeWhile_cut {p : UInt8 → Bool} {rest : Bytes} {n : Nat}
    (h : (rest.takeWhile p).length ≤ n) : (rest.take n).takeWhile p = rest.takeWhile p := by
  rw [← List.take_takeWhile, List.take_of_length_le h]

theorem lexIdent_take {first : UInt8} {rest : Bytes} {n : Nat}
    (h : (lexIdent first rest).text.length ≤ n + 1) :
    lexIdent first (rest.take n) = lexIdent first rest := by
  unfold lexIdent
  rw [takeWhile_cut (Nat.le_of_succ_le_succ h)]

theorem lexNumber_take {first : UInt8} {rest : Bytes} {n : Nat}
    (h : (lexNumber first rest).text.length ≤ n + 1) :
    lexNumber first (rest.take n) = lexNumber first rest := by
  unfold lexNumber
  rw [takeWhile_cut (Nat.le_of_succ_le_succ h)]

theorem string_take {first : UInt8} {rest : Bytes} {n : Nat}
    (h : (first :: rest.take (stringLength rest)).length ≤ n + 1) :
    (rest.take n).take (stringLength (rest.take n)) = rest.take (stringLength rest) := by
  have hle := stringLength_le rest
  rw [List.length_cons, List.length_take, Nat.min_eq_left hle] at h
  have hn : stringLength rest ≤ n := by omega
  rw [stringLength_take hn, List.take_take, Nat.min_eq_left hn]

theorem lexNumber_long {first r : UInt8} {rest : Bytes} (h : isDigit r = true) :
    1 < (lexNumber first (r :: rest)).text.length := by
  have hmore : isNumberContinue r = true := by
    unfold isNumberContinue
    rw [h]
    rfl
  rw [lexNumber, List.takeWhile_cons_of_pos hmore, List.length_cons, List.length_cons]
  omega

theorem lexToken_alone {first r : UInt8} {rest : Bytes}
    (h : (lexToken first (r :: rest)).text.length ≤ 1) :
    lexToken first [] = lexToken first (r :: rest) := by
  have hident := @lexIdent_take first (r :: rest) 0
  have hnumber := @lexNumber_take first (r :: rest) 0
  have hstring := @string_take first (r :: rest) 0
  have hlong := @lexNumber_long first r rest
  rw [List.take_zero] at hident hnumber hstring
  revert h
  unfold lexToken
  split
  all_goals grind

theorem lexToken_cut {first r : UInt8} {rest : Bytes} {n : Nat}
    (h : (lexToken first (r :: rest)).text.length ≤ n + 2) :
    lexToken first (r :: rest.take n) = lexToken first (r :: rest) := by
  have hident := @lexIdent_take first (r :: rest) (n + 1)
  have hnumber := @lexNumber_take first (r :: rest) (n + 1)
  have hstring := @string_take first (r :: rest) (n + 1)
  have hhead := @List.head?_take _ rest n
  rw [List.take_succ_cons] at hident hnumber hstring
  revert h
  unfold lexToken
  split
  all_goals grind

theorem lexToken_take {first : UInt8} {rest : Bytes} {n : Nat}
    (h : (lexToken first rest).text.length ≤ n + 1) :
    lexToken first (rest.take n) = lexToken first rest := by
  match rest, n with
  | [], n => rw [List.take_nil]
  | r :: rest, 0 => exact lexToken_alone h
  | r :: rest, n + 1 => exact lexToken_cut h

/-! ## Where tokens stand -/

theorem lexFrom_step {src : Bytes} {i : Nat} (hi : i ≤ src.length) :
    (Layout true (src.drop i) ∧ ∀ fuel, lexFrom src fuel i = []) ∨
    ∃ gap first more, src.drop i = gap ++ first :: more ∧ Layout false gap ∧
      skipWsAndComments false (first :: more) = first :: more ∧
      ∀ fuel, lexFrom src (fuel + 1) i = ⟨lexToken first more, i + gap.length⟩ ::
        lexFrom src fuel (i + gap.length + (lexToken first more).text.length) := by
  obtain ⟨gap, hgap, hlayout⟩ := (skip_split (src.drop i)).1
  have hagain := skip_skip (src.drop i)
  cases hrest : skipWsAndComments false (src.drop i) with
  | nil =>
    rw [hrest, List.append_nil] at hgap
    rw [hrest, ← hgap] at hlayout
    refine Or.inl ⟨hlayout, fun fuel => ?_⟩
    cases fuel with
    | zero => rfl
    | succ fuel => rw [lexFrom, hrest]
  | cons first more =>
    rw [hrest] at hgap hlayout hagain
    refine Or.inr ⟨gap, first, more, hgap, hlayout, hagain, fun fuel => ?_⟩
    have hlen := congrArg List.length hgap
    rw [List.length_drop, List.length_append] at hlen
    have hstart : src.length - (first :: more).length = i + gap.length := by omega
    rw [lexFrom, hrest]
    show ⟨lexToken first more, src.length - (first :: more).length⟩ :: lexFrom src fuel
      (src.length - (first :: more).length + (lexToken first more).text.length) = _
    rw [hstart]

theorem lexToken_length (first : UInt8) (rest : Bytes) :
    0 < (lexToken first rest).text.length ∧
      (lexToken first rest).text.length ≤ (first :: rest).length :=
  ⟨List.length_pos_iff.mpr (lexToken_front first rest).2, (lexToken_front first rest).1.length_le⟩

theorem stop_le {src gap more : Bytes} {i : Nat} {first : UInt8} (hi : i ≤ src.length)
    (h : src.drop i = gap ++ first :: more) :
    i + gap.length + (lexToken first more).text.length ≤ src.length := by
  have hlen := congrArg List.length h
  rw [List.length_drop, List.length_append] at hlen
  have := (lexToken_length first more).2
  omega

/-- Tokens from an offset on to the end of the text: one behind the other, with layout and
nothing else in front of each and behind the last. -/
def Spaced (src : Bytes) : Nat → List Placed → Prop
  | i, [] => Layout true (src.drop i)
  | i, p :: ps => i ≤ p.start ∧ Layout false (slice src i p.start) ∧ p.start < p.stop ∧
    p.stop ≤ src.length ∧ slice src p.start p.stop = p.token.text ∧ Spaced src p.stop ps

theorem spaced_lexFrom {src : Bytes} {fuel i : Nat} (hi : i ≤ src.length)
    (hfuel : src.length ≤ fuel + i) : Spaced src i (lexFrom src fuel i) := by
  induction fuel generalizing i with
  | zero =>
    show Layout true (src.drop i)
    rw [List.drop_eq_nil_of_le (by omega)]
    exact .nil
  | succ fuel ih =>
    rcases lexFrom_step hi with ⟨hlayout, hnil⟩ | ⟨gap, first, more, hgap, hlayout, -, hcons⟩
    · rw [hnil]
      exact hlayout
    · have hmem := @slice_placed src (fuel + 1) i
      have hstop := stop_le hi hgap
      have hpos := (lexToken_length first more).1
      rw [hcons] at hmem ⊢
      refine ⟨Nat.le_add_right i _, ?_, ?_, hstop, hmem List.mem_cons_self, ih hstop ?_⟩
      · show Layout false (slice src i (i + gap.length))
        rw [slice, List.drop_take, hgap, Nat.add_sub_cancel_left, List.take_left]
        exact hlayout
      · show i + gap.length < i + gap.length + (lexToken first more).text.length
        omega
      · show src.length ≤ fuel + (i + gap.length + (lexToken first more).text.length)
        omega

theorem lexFrom_fuel {src : Bytes} {f g i : Nat} (hi : i ≤ src.length) (hf : src.length ≤ f + i)
    (hg : src.length ≤ g + i) : lexFrom src f i = lexFrom src g i := by
  induction f generalizing g i with
  | zero =>
    rcases lexFrom_step hi with ⟨-, hnil⟩ | ⟨gap, first, more, hgap, -⟩
    · rw [hnil, hnil]
    · have hstop := stop_le hi hgap
      have := (lexToken_length first more).1
      omega
  | succ f ih =>
    rcases lexFrom_step hi with ⟨-, hnil⟩ | ⟨gap, first, more, hgap, -, -, hcons⟩
    · rw [hnil, hnil]
    · have hstop := stop_le hi hgap
      have hpos := (lexToken_length first more).1
      obtain ⟨g, rfl⟩ : ∃ m, g = m + 1 := ⟨g - 1, by omega⟩
      rw [hcons, hcons, @ih g _ hstop (by omega) (by omega)]

theorem Spaced.facts {src : Bytes} {ps : List Placed} {i : Nat} (h : Spaced src i ps) :
    (∀ p ∈ ps, i ≤ p.start ∧ p.start < p.stop ∧ p.stop ≤ src.length) ∧
      ps.Pairwise fun p q => p.stop ≤ q.start := by
  induction ps generalizing i with
  | nil => exact ⟨fun p hp => absurd hp List.not_mem_nil, .nil⟩
  | cons p ps ih =>
    obtain ⟨hstart, -, hpos, hstop, -, hrest⟩ := h
    obtain ⟨hall, hsorted⟩ := ih hrest
    constructor
    · intro q hq
      rcases List.mem_cons.mp hq with rfl | hq
      · exact ⟨hstart, hpos, hstop⟩
      · have := hall q hq
        omega
    · exact .cons (fun q hq => (hall q hq).1) hsorted

/-! ## Slices -/

def Placed.shift (a : Nat) (p : Placed) : Placed := { p with start := p.start - a }

theorem lexFrom_nil {src : Bytes} {i : Nat} (h : skipWsAndComments false (src.drop i) = [])
    (fuel : Nat) : lexFrom src fuel i = [] := by
  cases fuel with
  | zero => rfl
  | succ fuel => rw [lexFrom, h]

theorem lexFrom_cons {src more : Bytes} {i start : Nat} {first : UInt8}
    (h : skipWsAndComments false (src.drop i) = first :: more)
    (hstart : start = src.length - (more.length + 1)) (fuel : Nat) :
    lexFrom src (fuel + 1) i = ⟨lexToken first more, start⟩ ::
      lexFrom src fuel (start + (lexToken first more).text.length) := by
  rw [lexFrom, h, hstart]
  rfl

theorem lexFrom_drop {src : Bytes} {fuel a i : Nat} (hi : a + i ≤ src.length) :
    lexFrom (src.drop a) fuel i = (lexFrom src fuel (a + i)).map (Placed.shift a) := by
  induction fuel generalizing i with
  | zero => rfl
  | succ fuel ih =>
    have hlen := skip_length false (src.drop (a + i))
    have hdrop : (src.drop a).drop i = src.drop (a + i) := List.drop_drop
    cases hrest : skipWsAndComments false (src.drop (a + i)) with
    | nil => rw [lexFrom_nil hrest, lexFrom_nil (hdrop ▸ hrest), List.map_nil]
    | cons first more =>
      rw [hrest, List.length_drop, List.length_cons] at hlen
      have hpos := (lexToken_length first more).2
      obtain ⟨start, hstart⟩ : ∃ start, start = (src.drop a).length - (more.length + 1) := ⟨_, rfl⟩
      have hthere : a + start = src.length - (more.length + 1) := by
        rw [List.length_drop] at hstart
        omega
      rw [List.length_cons] at hpos
      rw [lexFrom_cons hrest hthere, lexFrom_cons (hdrop ▸ hrest) hstart, ih (by omega),
        List.map_cons, Placed.shift, Nat.add_sub_cancel_left, Nat.add_assoc]

def Clear (b : Nat) (ps : List Placed) : Prop := ∀ p ∈ ps, p.stop ≤ b ∨ b ≤ p.start

theorem lexFrom_take {src : Bytes} {fuel b i : Nat} (hi : i ≤ b) (hb : b ≤ src.length)
    (h : Clear b (lexFrom src fuel i)) :
    lexFrom (src.take b) fuel i = (lexFrom src fuel i).takeWhile (·.stop ≤ b) := by
  induction fuel generalizing i with
  | zero => rfl
  | succ fuel ih =>
    have hlen := skip_length false (src.drop i)
    rw [List.length_drop] at hlen
    have hskip := skip_take false (src.drop i) (b - i)
    rw [← List.drop_take] at hskip
    cases hrest : skipWsAndComments false (src.drop i) with
    | nil =>
      rw [hrest, List.take_nil] at hskip
      rw [lexFrom_nil hrest, lexFrom_nil hskip, List.takeWhile_nil]
    | cons first more =>
      rw [hrest, List.length_drop, List.length_cons] at hskip
      rw [hrest, List.length_cons] at hlen
      obtain ⟨start, hstart⟩ : ∃ start, start = src.length - (more.length + 1) := ⟨_, rfl⟩
      have hpos := (lexToken_length first more).1
      rw [lexFrom_cons hrest hstart] at h ⊢
      rw [show b - i - (src.length - i - (more.length + 1)) = b - start by omega] at hskip
      by_cases hbefore : b ≤ start
      · rw [Nat.sub_eq_zero_of_le hbefore, List.take_zero] at hskip
        rw [lexFrom_nil hskip, List.takeWhile_cons_of_neg]
        rw [decide_eq_true_iff]
        show ¬ start + (lexToken first more).text.length ≤ b
        omega
      · have hstop : start + (lexToken first more).text.length ≤ b :=
          (h _ List.mem_cons_self).resolve_right hbefore
        obtain ⟨n, hn⟩ : ∃ n, b - start = n + 1 := ⟨b - start - 1, by omega⟩
        rw [hn, List.take_succ_cons] at hskip
        have htoken : lexToken first (more.take n) = lexToken first more :=
          lexToken_take (by omega)
        have hplace : start = (src.take b).length - ((more.take n).length + 1) := by
          rw [List.length_take, List.length_take]
          omega
        rw [lexFrom_cons hskip hplace, htoken, List.takeWhile_cons_of_pos,
          ih hstop fun p hp => h p (List.mem_cons_of_mem _ hp)]
        rw [decide_eq_true_iff]
        exact hstop

theorem lex_spaced (src : Bytes) : Spaced src 0 (lex src) :=
  spaced_lexFrom (Nat.zero_le _) (Nat.le_refl _)

theorem lexFrom_tail {src : Bytes} {before after : List Placed} {p : Placed} {i : Nat}
    (hi : i ≤ src.length) (h : lexFrom src src.length i = before ++ p :: after) :
    lexFrom src src.length p.start = p :: after ∧ lexFrom src src.length p.stop = after := by
  induction before generalizing i with
  | nil =>
    rcases lexFrom_step hi with ⟨-, hnil⟩ | ⟨gap, first, more, hgap, -, hagain, hcons⟩
    · rw [hnil] at h
      cases h
    · have hlen := congrArg List.length hgap
      rw [List.length_drop, List.length_append, List.length_cons] at hlen
      have hthere : src.drop (i + gap.length) = first :: more := by
        rw [← List.drop_drop, hgap, List.drop_left]
      have hstop := stop_le hi hgap
      rw [lexFrom_fuel (g := src.length + 1) hi (by omega) (by omega), hcons] at h
      obtain ⟨rfl, rfl⟩ := List.cons.inj h
      constructor
      · rw [lexFrom_fuel (g := src.length + 1) (by show i + gap.length ≤ _; omega) (by omega)
          (by omega)]
        exact lexFrom_cons (hthere ▸ hagain) (by show i + gap.length = _; omega) src.length
      · rfl
  | cons q before ih =>
    rcases lexFrom_step hi with ⟨-, hnil⟩ | ⟨gap, first, more, hgap, -, hagain, hcons⟩
    · rw [hnil] at h
      cases h
    · rw [lexFrom_fuel (g := src.length + 1) hi (by omega) (by omega), hcons] at h
      exact ih (stop_le hi hgap) (List.cons.inj h).2

def startAt (src : Bytes) (k : Nat) : Nat := ((lex src)[k]?).elim src.length Placed.start

def stopAt (src : Bytes) (k : Nat) : Nat := ((lex src)[k]?).elim src.length Placed.stop

section Places

variable {src : Bytes} {k m : Nat}

theorem lexFrom_startAt (hk : k ≤ (lex src).length) :
    lexFrom src src.length (startAt src k) = (lex src).drop k := by
  rcases Nat.eq_or_lt_of_le hk with rfl | hlt
  · rw [List.drop_length, startAt, List.getElem?_eq_none (Nat.le_refl _)]
    exact lexFrom_nil (by rw [Option.elim_none, List.drop_length]; rfl) _
  · have hsplit : lex src = (lex src).take k ++ (lex src)[k] :: (lex src).drop (k + 1) := by
      rw [← List.drop_eq_getElem_cons hlt, List.take_append_drop]
    rw [startAt, List.getElem?_eq_getElem hlt, List.drop_eq_getElem_cons hlt]
    exact (lexFrom_tail (Nat.zero_le _) hsplit).1

theorem lexFrom_stopAt (hk : k < (lex src).length) :
    lexFrom src src.length (stopAt src k) = (lex src).drop (k + 1) := by
  have hsplit : lex src = (lex src).take k ++ (lex src)[k] :: (lex src).drop (k + 1) := by
    rw [← List.drop_eq_getElem_cons hk, List.take_append_drop]
  rw [stopAt, List.getElem?_eq_getElem hk]
  exact (lexFrom_tail (Nat.zero_le _) hsplit).2

theorem startAt_lt_stopAt (hk : k < (lex src).length) :
    startAt src k < stopAt src k ∧ stopAt src k ≤ src.length := by
  rw [startAt, stopAt, List.getElem?_eq_getElem hk]
  exact ((lex_spaced src).facts.1 _ (List.getElem_mem hk)).2

theorem startAt_le (src : Bytes) (k : Nat) : startAt src k ≤ src.length := by
  rcases Nat.lt_or_ge k (lex src).length with hk | hk
  · have := startAt_lt_stopAt hk
    omega
  · rw [startAt, List.getElem?_eq_none hk]
    exact Nat.le_refl _

theorem stopAt_le_startAt (hk : k < (lex src).length) (hkm : k < m) :
    stopAt src k ≤ startAt src m := by
  have hstop := (startAt_lt_stopAt hk).2
  rcases Nat.lt_or_ge m (lex src).length with hm | hm
  · have hsorted := List.pairwise_iff_getElem.mp (lex_spaced src).facts.2 k m hk hm hkm
    rw [startAt, stopAt, List.getElem?_eq_getElem hk, List.getElem?_eq_getElem hm]
    exact hsorted
  · rw [startAt, List.getElem?_eq_none hm]
    exact hstop

theorem startAt_mono (hkm : k ≤ m) : startAt src k ≤ startAt src m := by
  rcases Nat.eq_or_lt_of_le hkm with rfl | hlt
  · exact Nat.le_refl _
  · rcases Nat.lt_or_ge k (lex src).length with hk | hk
    · exact Nat.le_trans (Nat.le_of_lt (startAt_lt_stopAt hk).1) (stopAt_le_startAt hk hlt)
    · refine Nat.le_of_eq ?_
      rw [startAt, startAt, List.getElem?_eq_none hk, List.getElem?_eq_none (by omega)]

/-- A slice that is read alone has the tokens of the source from one to another, and no others. -/
def Relexed (src : Bytes) (a b k m : Nat) : Prop :=
  a ≤ b ∧ b ≤ src.length ∧
    lex (slice src a b) = (((lex src).drop k).take (m - k)).map (Placed.shift a)

theorem relexed_of {a b : Nat} (hleft : lexFrom src src.length a = (lex src).drop k) (hkm : k ≤ m)
    (hm : m ≤ (lex src).length) (hab : a ≤ b) (hb : b ≤ startAt src m)
    (hin : ∀ i, i < m → stopAt src i ≤ b) : Relexed src a b k m := by
  have hlen := Nat.le_trans hb (startAt_le src m)
  have hsplit : (lex src).drop k = ((lex src).drop k).take (m - k) ++ (lex src).drop m := by
    have hdrop : (lex src).drop m = ((lex src).drop k).drop (m - k) := by
      rw [List.drop_drop]
      congr 1
      omega
    rw [hdrop, List.take_append_drop]
  have hbefore : ∀ p ∈ ((lex src).drop k).take (m - k), p.stop ≤ b := by
    intro p hp
    obtain ⟨i, hi, rfl⟩ := List.getElem_of_mem hp
    rw [List.length_take, List.length_drop] at hi
    have hstop := hin (k + i) (by omega)
    rw [stopAt, List.getElem?_eq_getElem (by omega)] at hstop
    rw [List.getElem_take, List.getElem_drop]
    exact hstop
  have hbehind : ∀ p ∈ (lex src).drop m, b ≤ p.start := by
    intro p hp
    obtain ⟨i, hi, rfl⟩ := List.getElem_of_mem hp
    rw [List.length_drop] at hi
    have hstart := Nat.le_trans hb (startAt_mono (Nat.le_add_right m i))
    rw [startAt, List.getElem?_eq_getElem (by omega)] at hstart
    rw [List.getElem_drop]
    exact hstart
  have hnone : ((lex src).drop m).takeWhile (·.stop ≤ b) = [] := by
    cases hrest : (lex src).drop m with
    | nil => rfl
    | cons p ps =>
      have hmem : p ∈ (lex src).drop m := hrest ▸ List.mem_cons_self
      have hpos := ((lex_spaced src).facts.1 p (List.mem_of_mem_drop hmem)).2.1
      have hstart := hbehind p hmem
      rw [List.takeWhile_cons_of_neg]
      rw [decide_eq_true_iff]
      omega
  have hclear : Clear b (lexFrom src src.length a) := by
    intro p hp
    rw [hleft, hsplit] at hp
    exact (List.mem_append.mp hp).imp (hbefore p) (hbehind p)
  have htake : (src.take b).length = b := List.length_take_of_le hlen
  refine ⟨hab, hlen, ?_⟩
  rw [lex, slice, lexFrom_drop (by omega), lexFrom_fuel (g := src.length) (by omega)
    (by rw [List.length_drop]; omega) (by omega), Nat.add_zero, lexFrom_take hab hlen hclear, hleft]
  congr 1
  conv => lhs; rw [hsplit]
  rw [List.takeWhile_append_of_pos (fun p hp => decide_eq_true (hbefore p hp)), hnone,
    List.append_nil]

theorem relexed_up_to (hkm : k ≤ m) (hm : m ≤ (lex src).length) :
    Relexed src (startAt src k) (startAt src m) k m :=
  relexed_of (lexFrom_startAt (by omega)) hkm hm (startAt_mono hkm) (Nat.le_refl _)
    fun i hi => stopAt_le_startAt (by omega) hi

theorem relexed_through (hkm : k < m) (hm : m ≤ (lex src).length) :
    Relexed src (startAt src k) (stopAt src (m - 1)) k m := by
  have hk := startAt_lt_stopAt (show k < (lex src).length by omega)
  refine relexed_of (lexFrom_startAt (by omega)) (by omega) hm ?_
    (stopAt_le_startAt (by omega) (by omega)) fun i hi => ?_
  · exact Nat.le_trans (startAt_mono (by omega)) (Nat.le_of_lt (startAt_lt_stopAt (by omega)).1)
  · rcases Nat.eq_or_lt_of_le (show i ≤ m - 1 by omega) with rfl | hlt
    · exact Nat.le_refl _
    · exact Nat.le_trans (stopAt_le_startAt (by omega) hlt)
        (Nat.le_of_lt (startAt_lt_stopAt (by omega)).1)

theorem relexed_between (hkm : k + 1 < m) (hm : m ≤ (lex src).length) :
    Relexed src (stopAt src k) (startAt src (m - 1)) (k + 1) (m - 1) :=
  relexed_of (lexFrom_stopAt (by omega)) (by omega) (by omega)
    (stopAt_le_startAt (by omega) (by omega)) (Nat.le_refl _)
    fun i hi => stopAt_le_startAt (by omega) hi

end Places

end Tyu.Frontend

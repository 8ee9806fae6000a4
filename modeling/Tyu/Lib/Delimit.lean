import Mathlib

/-! # Cutting a text at its delimiters -/

namespace Lib

/-- A statement about the characters of a text is decided along the text, and not over all
characters. -/
instance (priority := 1100) decidableAll {p : Char → Prop} [DecidablePred p] (text : List Char) :
    Decidable (∀ c ∈ text, p c) :=
  List.decidableBAll p text

universe u v

variable {σ : Type u} {α : Type v} (step : σ → α → Option σ)

def scan (s : σ) (text : List α) : Option σ := text.foldlM step s

theorem scan_nil (s : σ) : scan step s [] = some s := rfl

theorem scan_cons (s : σ) (c : α) (text : List α) :
    scan step s (c :: text) = (step s c).bind fun s' => scan step s' text := rfl

theorem scan_append (s : σ) (front back : List α) :
    scan step s (front ++ back) = (scan step s front).bind fun s' => scan step s' back :=
  List.foldlM_append

variable {step}

theorem scan_append_of {s s' s'' : σ} {f b : List α} (hfront : scan step s f = some s')
    (hback : scan step s' b = some s'') : scan step s (f ++ b) = some s'' := by
  rw [scan_append, hfront]
  exact hback

theorem scan_same {s : σ} {text : List α} (h : ∀ c ∈ text, step s c = some s) :
    scan step s text = some s := by
  induction text with
  | nil => rfl
  | cons c text ih =>
    rw [scan_cons, h c List.mem_cons_self]
    exact ih fun c' hc' => h c' (List.mem_cons_of_mem _ hc')

variable (step)

/-- What stands in front of the first refused character, and what behind it. -/
def cut : σ → List α → Option (List α × List α)
  | _, [] => none
  | s, c :: text =>
    match step s c with
    | none => some ([], text)
    | some s' => (cut s' text).map fun parts => (c :: parts.1, parts.2)

variable {step}

theorem cut_append {s s' : σ} {front rest : List α} {c : α} (hfront : scan step s front = some s')
    (hc : step s' c = none) : cut step s (front ++ c :: rest) = some (front, rest) := by
  induction front generalizing s with
  | nil =>
    cases hfront
    rw [List.nil_append, cut, hc]
  | cons b front ih =>
    rw [scan_cons] at hfront
    obtain ⟨s₁, hstep, hfront⟩ := Option.bind_eq_some_iff.mp hfront
    rw [List.cons_append, cut, hstep]
    show (cut step s₁ (front ++ c :: rest)).map _ = _
    rw [ih hfront, Option.map_some]

variable (step)

def pieces : σ → List α → List (List α)
  | _, [] => [[]]
  | s, c :: text =>
    match step s c with
    | none => [] :: pieces s text
    | some s' => (pieces s' text).modifyHead (c :: ·)

variable {step}

theorem pieces_of_scan {s s' : σ} {text : List α} (h : scan step s text = some s') :
    pieces step s text = [text] := by
  induction text generalizing s with
  | nil => rfl
  | cons c text ih =>
    rw [scan_cons] at h
    obtain ⟨s₁, hstep, h⟩ := Option.bind_eq_some_iff.mp h
    rw [pieces, hstep]
    show (pieces step s₁ text).modifyHead _ = _
    rw [ih h]
    rfl

theorem pieces_append {s s' : σ} {front rest : List α} {c : α}
    (hfront : scan step s front = some s') (hc : step s' c = none) :
    pieces step s (front ++ c :: rest) = front :: pieces step s' rest := by
  induction front generalizing s with
  | nil =>
    cases hfront
    rw [List.nil_append, pieces, hc]
  | cons b front ih =>
    rw [scan_cons] at hfront
    obtain ⟨s₁, hstep, hfront⟩ := Option.bind_eq_some_iff.mp hfront
    rw [List.cons_append, pieces, hstep]
    show (pieces step s₁ (front ++ c :: rest)).modifyHead _ = _
    rw [ih hfront]
    rfl

theorem pieces_join {s : σ} {sep : α} {ps : List (List α)} (hsep : step s sep = none)
    (hne : ps ≠ []) (h : ∀ p ∈ ps, scan step s p = some s) :
    pieces step s ([sep].intercalate ps) = ps := by
  induction ps with
  | nil => exact absurd rfl hne
  | cons p ps ih =>
    have hp := h p List.mem_cons_self
    cases ps with
    | nil =>
      rw [List.intercalate_singleton]
      exact pieces_of_scan hp
    | cons q ps =>
      rw [List.intercalate_cons_cons, List.append_assoc, List.singleton_append,
        pieces_append hp hsep,
        ih (List.cons_ne_nil _ _) fun p' hp' => h p' (List.mem_cons_of_mem _ hp')]

end Lib

/-!
## Taking a text apart from its head

The steps of a reader that works on the text in hand: a word that has to come next, all that
stands in front of the first delimiter, and the longest run of one kind.  Each says what the
text was, so that a text is taken apart in one way only.
-/

namespace Lib

universe u

variable {α : Type u} [DecidableEq α]

def stripPrefix (word text : List α) : Option (List α) := text.dropPrefix? word

theorem stripPrefix_eq_some {word text rest : List α} :
    stripPrefix word text = some rest ↔ text = word ++ rest := by
  rw [stripPrefix, List.dropPrefix?_eq_some_iff]
  constructor
  · rintro ⟨p, htext, hp⟩
    rw [htext, eq_of_beq hp]
  · exact fun htext => ⟨word, htext, beq_self_eq_true word⟩

/-- What stands in front of the first `c`, and what behind it. -/
def upTo (c : α) : List α → Option (List α × List α)
  | [] => none
  | b :: text =>
    if b = c then some ([], text) else (upTo c text).map fun parts => (b :: parts.1, parts.2)

theorem upTo_eq_some {c : α} {text front rest : List α} :
    upTo c text = some (front, rest) ↔ text = front ++ c :: rest ∧ c ∉ front := by
  induction text generalizing front with
  | nil =>
    constructor
    · intro h
      cases h
    · rintro ⟨h, -⟩
      cases front <;> cases h
  | cons b text ih =>
    rw [upTo]
    by_cases hb : b = c
    · rw [if_pos hb, Option.some.injEq, Prod.mk.injEq]
      constructor
      · rintro ⟨rfl, rfl⟩
        exact ⟨by rw [hb, List.nil_append], List.not_mem_nil⟩
      · rintro ⟨htext, hfront⟩
        cases front with
        | nil =>
          rw [List.nil_append, List.cons.injEq] at htext
          exact ⟨rfl, htext.2⟩
        | cons d front =>
          rw [List.cons_append, List.cons.injEq] at htext
          exact absurd (by rw [← htext.1, hb]; exact List.mem_cons_self) hfront
    · rw [if_neg hb, Option.map_eq_some_iff]
      constructor
      · rintro ⟨⟨front', rest'⟩, hup, hparts⟩
        cases hparts
        obtain ⟨htext, hfront⟩ := ih.mp hup
        refine ⟨by rw [htext, List.cons_append], ?_⟩
        rw [List.mem_cons, not_or]
        exact ⟨Ne.symm hb, hfront⟩
      · rintro ⟨htext, hfront⟩
        cases front with
        | nil =>
          rw [List.nil_append, List.cons.injEq] at htext
          exact absurd htext.1 hb
        | cons d front =>
          rw [List.cons_append, List.cons.injEq] at htext
          obtain ⟨rfl, htext⟩ := htext
          exact ⟨(front, rest), ih.mpr ⟨htext, fun h => hfront (List.mem_cons_of_mem b h)⟩, rfl⟩

theorem upTo_unique {c : α} {front front' rest rest' : List α} (hfront : c ∉ front)
    (hfront' : c ∉ front') (h : front ++ c :: rest = front' ++ c :: rest') :
    front = front' ∧ rest = rest' := by
  have hup : upTo c (front ++ c :: rest) = some (front, rest) := upTo_eq_some.mpr ⟨rfl, hfront⟩
  have hup' : upTo c (front ++ c :: rest) = some (front', rest') := upTo_eq_some.mpr ⟨h, hfront'⟩
  rw [hup] at hup'
  exact Prod.mk.inj (Option.some.inj hup')

omit [DecidableEq α] in
theorem run_unique {p : α → Bool} {run run' rest rest' : List α} (hrun : ∀ b ∈ run, p b = true)
    (hrun' : ∀ b ∈ run', p b = true) (hrest : ∀ b ∈ rest.head?, p b = false)
    (hrest' : ∀ b ∈ rest'.head?, p b = false) (h : run ++ rest = run' ++ rest') :
    run = run' ∧ rest = rest' := by
  have htake : ∀ run rest : List α, (∀ b ∈ run, p b = true) → (∀ b ∈ rest.head?, p b = false) →
      (run ++ rest).takeWhile p = run := by
    intro run rest hrun hrest
    rw [List.takeWhile_append_of_pos hrun]
    cases rest with
    | nil => rw [List.takeWhile_nil, List.append_nil]
    | cons b rest =>
      rw [List.takeWhile_cons, if_neg (by rw [hrest b rfl]; decide), List.append_nil]
  have heq : run = run' := by
    rw [← htake run rest hrun hrest, h, htake run' rest' hrun' hrest']
  refine ⟨heq, ?_⟩
  rw [heq] at h
  exact List.append_cancel_left h

end Lib

import Mathlib.Logic.Relation

/-! # Assembly code -/

namespace Lib

universe u

variable {L I X σ : Type u}

inductive Line (L I : Type u) where
  | label (l : L)
  | instr (i : I)

inductive Effect (L X σ : Type u) where
  | next (s : σ)
  | jump (l : L) (s : σ)
  | forward (l : L) (s : σ)
  | leave (x : X) (s : σ)

inductive Point (L I X σ : Type u) where
  | at (code : List (Line L I)) (s : σ)
  | seek (l : L) (s : σ)
  | left (x : X) (s : σ)

inductive Exit (L X : Type u) where
  | through
  | to (l : L)
  | out (x : X)

def target [DecidableEq L] (l : L) : List (Line L I) → Option (List (Line L I))
  | [] => none
  | .label l' :: code => if l' = l then some code else target l code
  | .instr _ :: code => target l code

def Labelled (code : List (Line L I)) (l : L) : Prop := .label l ∈ code

/-- Where an instruction leads that has `code` behind it. -/
def Effect.point [DecidableEq L] (code : List (Line L I)) : Effect L X σ → Option (Point L I X σ)
  | .next s => some (.at code s)
  | .jump l s => some (.seek l s)
  | .forward l s => (target l code).map (Point.at · s)
  | .leave x s => some (.left x s)

def Exit.point (code : List (Line L I)) (s : σ) : Exit L X → Point L I X σ
  | .through => .at code s
  | .to l => .seek l s
  | .out x => .left x s

def Effect.state : Effect L X σ → σ
  | .next s | .jump _ s | .forward _ s | .leave _ s => s

def Point.state : Point L I X σ → σ
  | .at _ s | .seek _ s | .left _ s => s

theorem Effect.point_state [DecidableEq L] {code : List (Line L I)} {e : Effect L X σ}
    {p : Point L I X σ} (h : e.point code = some p) : p.state = e.state := by
  cases e with
  | next s =>
    cases h
    rfl
  | jump l s =>
    cases h
    rfl
  | forward l s =>
    obtain ⟨_, -, rfl⟩ := Option.map_eq_some_iff.mp h
    rfl
  | leave x s =>
    cases h
    rfl

section Runs

variable [DecidableEq L] (exec : I → σ → Option (Effect L X σ)) (prog : List (Line L I))

/-- One step.  There is none outside the code, from an instruction without an effect,
and to a label that does not occur. -/
def advance : Point L I X σ → Option (Point L I X σ)
  | .at [] _ => none
  | .at (.label _ :: code) s => some (.at code s)
  | .at (.instr i :: code) s => (exec i s).bind (Effect.point code)
  | .seek l s => (target l prog).map (Point.at · s)
  | .left _ _ => none

def Leads : Point L I X σ → Point L I X σ → Prop :=
  Relation.ReflTransGen fun p q => advance exec prog p = some q

def advanceFor : Nat → Point L I X σ → Option (Point L I X σ)
  | 0, p => some p
  | n + 1, p => (advance exec prog p).bind (advanceFor n)

end Runs

section Leads

variable [DecidableEq L] {exec : I → σ → Option (Effect L X σ)} {prog : List (Line L I)}
  {p q r : Point L I X σ}

theorem Leads.refl : Leads exec prog p p := Relation.ReflTransGen.refl

theorem Leads.trans (h : Leads exec prog p q) (h' : Leads exec prog q r) : Leads exec prog p r :=
  Relation.ReflTransGen.trans h h'

theorem Leads.head (h : advance exec prog p = some q) (h' : Leads exec prog q r) :
    Leads exec prog p r :=
  Relation.ReflTransGen.head h h'

theorem Leads.single (h : advance exec prog p = some q) : Leads exec prog p q :=
  Relation.ReflTransGen.single h

theorem leads_of_advanceFor {n : Nat} (h : advanceFor exec prog n p = some q) :
    Leads exec prog p q := by
  induction n generalizing p with
  | zero =>
    cases h
    exact .refl
  | succ n ih =>
    rw [advanceFor, Option.bind_eq_some_iff] at h
    obtain ⟨p', hp, hq⟩ := h
    exact .head hp (ih hq)

theorem Leads.linear (h : Leads exec prog p q) (h' : Leads exec prog p r) :
    Leads exec prog q r ∨ Leads exec prog r q := by
  induction h with
  | refl => exact .inl h'
  | @tail q₁ q₂ _ hstep ih =>
    rcases ih with hr | hr
    · rcases Relation.ReflTransGen.cases_head hr with rfl | ⟨q₃, hstep', hr⟩
      · exact .inr (.single hstep)
      · rw [hstep] at hstep'
        cases hstep'
        exact .inl hr
    · exact .inr (hr.trans (.single hstep))

theorem Leads.left_unique {x y : X} {s t : σ} (h : Leads exec prog p (.left x s))
    (h' : Leads exec prog p (.left y t)) : x = y ∧ s = t := by
  have hend : ∀ {z : X} {u : σ} {q : Point L I X σ}, Leads exec prog (.left z u) q → q = .left z u := by
    intro z u q hq
    rcases Relation.ReflTransGen.cases_head hq with rfl | ⟨_, hstep, -⟩
    · rfl
    · cases hstep
  rcases h.linear h' with h | h
  · cases hend h
    exact ⟨rfl, rfl⟩
  · cases hend h
    exact ⟨rfl, rfl⟩

theorem Leads.keeps {P : σ → Prop} (hexec : ∀ i s e, P s → exec i s = some e → P e.state)
    (h : Leads exec prog p q) (hp : P p.state) : P q.state := by
  induction h with
  | refl => exact hp
  | @tail r q _ hstep ih =>
    cases r with
    | «at» code s =>
      cases code with
      | nil => cases hstep
      | cons line code =>
        cases line with
        | label l =>
          cases hstep
          exact ih
        | instr i =>
          obtain ⟨e, he, hq⟩ := Option.bind_eq_some_iff.mp hstep
          rw [Effect.point_state hq]
          exact hexec i s e ih he
    | seek l s =>
      obtain ⟨code, -, rfl⟩ := Option.map_eq_some_iff.mp hstep
      exact ih
    | left x s => cases hstep

end Leads

section Target

variable [DecidableEq L]

theorem target_append {l : L} {pre code : List (Line L I)} (h : ¬Labelled pre l) :
    target l (pre ++ code) = target l code := by
  induction pre with
  | nil => rfl
  | cons line pre ih =>
    have hpre : ¬Labelled pre l := fun hl => h (List.mem_cons_of_mem _ hl)
    cases line with
    | label l' =>
      have hne : l' ≠ l := by
        rintro rfl
        exact h (List.mem_cons_self ..)
      rw [List.cons_append, target, if_neg hne, ih hpre]
    | instr i => exact ih hpre

theorem target_label {l : L} {code : List (Line L I)} : target l (.label l :: code) = some code := by
  rw [target, if_pos rfl]

end Target

@[simp] theorem labelled_append {c c' : List (Line L I)} {l : L} :
    Labelled (c ++ c') l ↔ Labelled c l ∨ Labelled c' l := List.mem_append

@[simp] theorem not_labelled_nil {l : L} : ¬Labelled ([] : List (Line L I)) l := List.not_mem_nil

@[simp] theorem labelled_label {l l' : L} {c : List (Line L I)} :
    Labelled (.label l' :: c) l ↔ l = l' ∨ Labelled c l := by
  simp [Labelled]

@[simp] theorem labelled_instr {i : I} {l : L} {c : List (Line L I)} :
    Labelled (.instr i :: c) l ↔ Labelled c l := by
  simp [Labelled]

theorem not_labelled_instrs (is : List I) (l : L) : ¬Labelled (is.map .instr) l := by
  simp [Labelled]

/-! ## Segments -/

section Segments

variable [DecidableEq L] {exec : I → σ → Option (Effect L X σ)}

/-- In a program where only labels that satisfy `used` stand before it, the segment
takes every state of `P` to an exit and a state of `Q`. -/
def Segment (exec : I → σ → Option (Effect L X σ)) (used : L → Prop) (P : σ → Prop)
    (code : List (Line L I)) (Q : Exit L X → σ → Prop) : Prop :=
  ∀ pre k s, (∀ l, Labelled pre l → used l) → P s →
    ∃ e s', Q e s' ∧ Leads exec (pre ++ (code ++ k)) (.at (code ++ k) s) (e.point k s')

abbrev Straight (exec : I → σ → Option (Effect L X σ)) (used : L → Prop) (P : σ → Prop)
    (code : List (Line L I)) (Q : σ → Prop) : Prop :=
  Segment exec used P code fun e s => e = .through ∧ Q s

variable {used used' : L → Prop} {P T R : σ → Prop} {code c c' : List (Line L I)}
  {Q Q' : Exit L X → σ → Prop}

theorem Segment.conseq (h : Segment exec used P code Q) (hP : ∀ s, T s → P s)
    (hQ : ∀ e s, Q e s → Q' e s) : Segment exec used T code Q' := by
  intro pre k s hpre hs
  obtain ⟨e, s', hq, hrun⟩ := h pre k s hpre (hP s hs)
  exact ⟨e, s', hQ e s' hq, hrun⟩

theorem Segment.pre (h : Segment exec used P code Q) (hP : ∀ s, T s → P s) :
    Segment exec used T code Q :=
  h.conseq hP fun _ _ hq => hq

theorem Segment.post (h : Segment exec used P code Q) (hQ : ∀ e s, Q e s → Q' e s) :
    Segment exec used P code Q' :=
  h.conseq (fun _ hs => hs) hQ

theorem Segment.of_each (h : ∀ s, P s → Segment exec used (· = s) code Q) :
    Segment exec used P code Q := by
  intro pre k s hpre hs
  exact h s hs pre k s hpre rfl

theorem Segment.nil (h : ∀ s, P s → Q .through s) : Segment (I := I) exec used P [] Q := by
  intro pre k s _ hs
  exact ⟨.through, s, h s hs, .refl⟩

theorem Segment.append (h : Segment exec used P c fun e s => (e = .through ∧ R s) ∨ e ≠ .through ∧ Q e s)
    (hused : ∀ l, used l ∨ Labelled c l → used' l) (h' : Segment exec used' R c' Q) :
    Segment exec used P (c ++ c') Q := by
  intro pre k s hpre hs
  obtain ⟨e, s₁, hq, hrun⟩ := h pre (c' ++ k) s hpre hs
  rw [← List.append_assoc c c' k] at hrun
  rcases hq with ⟨rfl, hr⟩ | ⟨hne, hq⟩
  · have hpre' : ∀ l, Labelled (pre ++ c) l → used' l := by
      intro l hl
      rcases labelled_append.mp hl with hl | hl
      · exact hused l (.inl (hpre l hl))
      · exact hused l (.inr hl)
    obtain ⟨e', s', hq', hrun'⟩ := h' (pre ++ c) k s₁ hpre' hr
    rw [List.append_assoc, ← List.append_assoc c c' k] at hrun'
    exact ⟨e', s', hq', hrun.trans hrun'⟩
  · refine ⟨e, s₁, hq, ?_⟩
    cases e with
    | through => exact absurd rfl hne
    | «to» l => exact hrun
    | out x => exact hrun

theorem Straight.append (h : Straight exec used P c R)
    (hused : ∀ l, used l ∨ Labelled c l → used' l) (h' : Segment exec used' R c' Q) :
    Segment exec used P (c ++ c') Q :=
  Segment.append (h.post fun _ _ hs => .inl hs) hused h'

theorem Straight.append_free (h : Straight exec used P c R) (hfree : ∀ l, ¬Labelled c l)
    (h' : Segment exec used R c' Q) : Segment exec used P (c ++ c') Q := by
  refine h.append (fun l hl => ?_) h'
  rcases hl with hl | hl
  · exact hl
  · exact absurd hl (hfree l)

theorem Segment.next {i : I} (hi : ∀ s, P s → ∃ s', exec i s = some (.next s') ∧ R s')
    (h : Segment exec used R code Q) : Segment exec used P (.instr i :: code) Q := by
  intro pre k s hpre hs
  obtain ⟨s₁, hexec, hr⟩ := hi s hs
  have hpre' : ∀ l, Labelled (pre ++ [.instr i]) l → used l := by
    intro l hl
    exact hpre l (by simpa using hl)
  obtain ⟨e, s', hq, hrun⟩ := h (pre ++ [.instr i]) k s₁ hpre' hr
  rw [List.append_assoc] at hrun
  refine ⟨e, s', hq, .head ?_ hrun⟩
  rw [List.cons_append, advance, hexec]
  rfl

theorem Segment.jump {i : I} (hi : ∀ s, P s → ∃ l s', exec i s = some (.jump l s') ∧ Q (.to l) s') :
    Segment exec used P (.instr i :: code) Q := by
  intro pre k s _ hs
  obtain ⟨l, s', hexec, hq⟩ := hi s hs
  refine ⟨.to l, s', hq, .single ?_⟩
  rw [List.cons_append, advance, hexec]
  rfl

theorem Segment.leave {i : I}
    (hi : ∀ s, P s → ∃ x s', exec i s = some (.leave x s') ∧ Q (.out x) s') :
    Segment exec used P (.instr i :: code) Q := by
  intro pre k s _ hs
  obtain ⟨x, s', hexec, hq⟩ := hi s hs
  refine ⟨.out x, s', hq, .single ?_⟩
  rw [List.cons_append, advance, hexec]
  rfl

/-- The label at the end of a segment that jumps over code to it: on the one side the
jump is taken, on the other the code behind it runs. -/
theorem Segment.over {i : I} {l : L} {body : List (Line L I)} (hl : ¬used l)
    (hbody : ¬Labelled body l)
    (htaken : ∀ s, P s → ¬T s → ∃ s', exec i s = some (.jump l s') ∧ Q .through s')
    (hfall : ∀ s, P s → T s → ∃ s', exec i s = some (.next s') ∧ R s')
    (h : Segment exec used R body Q) :
    Segment exec used P (.instr i :: (body ++ [.label l])) Q := by
  intro pre k s hpre hs
  have htarget : target l (pre ++ (.instr i :: (body ++ [.label l]) ++ k)) = some k := by
    have hno : ¬Labelled (pre ++ (.instr i :: body)) l := by
      simp only [labelled_append, labelled_instr, not_or]
      exact ⟨fun h => hl (hpre l h), hbody⟩
    have hcode : pre ++ (.instr i :: (body ++ [.label l]) ++ k) =
        pre ++ (.instr i :: body) ++ (.label l :: k) := by simp
    rw [hcode, target_append hno, target_label]
  by_cases hp : T s
  · obtain ⟨s₁, hexec, hr⟩ := hfall s hs hp
    have hpre' : ∀ l, Labelled (pre ++ [.instr i]) l → used l := by
      intro l hl
      exact hpre l (by simpa using hl)
    obtain ⟨e, s', hq, hrun⟩ := h (pre ++ [.instr i]) (.label l :: k) s₁ hpre' hr
    have hcode : pre ++ [.instr i] ++ (body ++ .label l :: k) =
        pre ++ (.instr i :: (body ++ [.label l]) ++ k) := by simp
    have hstart : body ++ [.label l] ++ k = body ++ .label l :: k := by simp
    rw [hcode] at hrun
    refine ⟨e, s', hq, .head (q := .at (body ++ .label l :: k) s₁) ?_ (hrun.trans ?_)⟩
    · rw [List.cons_append, advance, hexec, ← hstart]
      rfl
    · cases e with
      | through => exact .single rfl
      | «to» l => exact .refl
      | out x => exact .refl
  · obtain ⟨s', hexec, hq⟩ := htaken s hs hp
    refine ⟨.through, s', hq, .head (q := .seek l s') ?_ (.single ?_)⟩
    · rw [List.cons_append, advance, hexec]
      rfl
    · rw [advance, htarget]
      rfl

def runAll (exec : I → σ → Option (Effect L X σ)) : List I → σ → Option σ
  | [], s => some s
  | i :: is, s =>
    match exec i s with
    | some (.next s') => runAll exec is s'
    | _ => none

omit [DecidableEq L] in
theorem runAll_append {is js : List I} {s s' s'' : σ} (h : runAll exec is s = some s')
    (h' : runAll exec js s' = some s'') : runAll exec (is ++ js) s = some s'' := by
  induction is generalizing s with
  | nil =>
    cases h
    exact h'
  | cons i is ih =>
    rw [runAll] at h
    rw [List.cons_append, runAll]
    split at h
    · exact ih h
    · cases h

theorem Straight.runAll {is : List I} {S : σ → Prop}
    (h : ∀ s, P s → ∃ s', runAll exec is s = some s' ∧ S s') :
    Straight exec used P (is.map .instr) S := by
  induction is generalizing P with
  | nil =>
    refine Segment.nil fun s hs => ?_
    obtain ⟨s', hrun, hS⟩ := h s hs
    cases hrun
    exact ⟨rfl, hS⟩
  | cons i is ih =>
    refine Segment.next (R := fun s' => ∃ s'', Lib.runAll exec is s' = some s'' ∧ S s'') ?_
      (ih fun s hs => hs)
    intro s hs
    obtain ⟨s'', hrun, hS⟩ := h s hs
    rw [Lib.runAll] at hrun
    split at hrun
    · rename_i s' hexec
      exact ⟨s', hexec, s'', hrun, hS⟩
    · cases hrun

end Segments
end Lib

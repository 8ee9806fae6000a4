import Tyu.Lib.Assembly

/-! # Code of a block graph -/

namespace Lib

universe u

variable {L I X σ Op C B : Type u}

structure Emitter (L I Op C : Type u) where
  code : C → Op → Option (List (Line L I))
  next : C → Op → C
  issued : C → L → Prop

namespace Emitter

def ops (T : Emitter L I Op C) : C → List Op → Option (List (Line L I))
  | _, [] => some []
  | c, op :: rest =>
    (T.code c op).bind fun code => (T.ops (T.next c op) rest).map (code ++ ·)

def after (T : Emitter L I Op C) (c : C) (ops : List Op) : C := ops.foldl T.next c

def blocks (T : Emitter L I Op C) (mark : B → L) : C → List (B × List Op) →
    Option (List (Line L I))
  | _, [] => some []
  | c, b :: rest =>
    (T.ops c b.2).bind fun code =>
      (T.blocks mark (T.after c b.2) rest).map fun more => .label (mark b.1) :: (code ++ more)

/-- Labels of an operation are issued behind it, none is forgotten, and none marks a
block. -/
structure Fresh (T : Emitter L I Op C) (mark : B → L) : Prop where
  keeps : ∀ c op l, T.issued c l → T.issued (T.next c op) l
  own : ∀ c op code l, T.code c op = some code → Labelled code l → T.issued (T.next c op) l
  marks : ∀ c b, T.issued c (mark b)
  apart : ∀ c op code b, T.code c op = some code → ¬Labelled code (mark b)
  inj : ∀ b b', mark b = mark b' → b = b'

/-- The code from some operations of a block on, in its place in the program. -/
def Stands (T : Emitter L I Op C) (prog : List (Line L I)) (ops : List Op)
    (code : List (Line L I)) : Prop :=
  ∃ pre c body k, prog = pre ++ code ∧ code = body ++ k ∧ T.ops c ops = some body ∧
    ∀ l, Labelled pre l → T.issued c l

variable {T : Emitter L I Op C} {mark : B → L} {prog code : List (Line L I)} {c : C}

theorem ops_cons {op : Op} {rest : List Op} (h : T.ops c (op :: rest) = some code) :
    ∃ own more, T.code c op = some own ∧ T.ops (T.next c op) rest = some more ∧
      code = own ++ more := by
  rw [Emitter.ops, Option.bind_eq_some_iff] at h
  obtain ⟨own, hown, h⟩ := h
  obtain ⟨more, hmore, rfl⟩ := Option.map_eq_some_iff.mp h
  exact ⟨own, more, hown, hmore, rfl⟩

theorem blocks_cons {b : B × List Op} {rest : List (B × List Op)}
    (h : T.blocks mark c (b :: rest) = some code) :
    ∃ own more, T.ops c b.2 = some own ∧ T.blocks mark (T.after c b.2) rest = some more ∧
      code = .label (mark b.1) :: (own ++ more) := by
  rw [Emitter.blocks, Option.bind_eq_some_iff] at h
  obtain ⟨own, hown, h⟩ := h
  obtain ⟨more, hmore, rfl⟩ := Option.map_eq_some_iff.mp h
  exact ⟨own, more, hown, hmore, rfl⟩

theorem Fresh.after (hT : T.Fresh mark) {ops : List Op} (h : T.ops c ops = some code) {l : L}
    (hl : T.issued c l ∨ Labelled code l) : T.issued (T.after c ops) l := by
  induction ops generalizing c code with
  | nil =>
    cases h
    rcases hl with hl | hl
    · exact hl
    · exact absurd hl not_labelled_nil
  | cons op ops ih =>
    obtain ⟨own, more, hown, hmore, rfl⟩ := ops_cons h
    have hnext : T.issued (T.next c op) l ∨ Labelled more l := by
      rcases hl with hl | hl
      · exact .inl (hT.keeps c op l hl)
      · rcases labelled_append.mp hl with hl | hl
        · exact .inl (hT.own c op own l hown hl)
        · exact .inr hl
    exact ih hmore hnext

theorem ops_code {ops : List Op} (h : T.ops c ops = some code) {op : Op} (hop : op ∈ ops) :
    ∃ c own, T.code c op = some own := by
  induction ops generalizing c code with
  | nil => cases hop
  | cons op' ops ih =>
    obtain ⟨own, more, hown, hmore, -⟩ := ops_cons h
    rcases List.mem_cons.mp hop with rfl | hop
    · exact ⟨c, own, hown⟩
    · exact ih hmore hop

theorem blocks_code {bs : List (B × List Op)} (h : T.blocks mark c bs = some code) {b : B × List Op}
    (hb : b ∈ bs) {op : Op} (hop : op ∈ b.2) : ∃ c own, T.code c op = some own := by
  induction bs generalizing c code with
  | nil => cases hb
  | cons b' bs ih =>
    obtain ⟨own, more, hown, hmore, -⟩ := blocks_cons h
    rcases List.mem_cons.mp hb with rfl | hb
    · exact ops_code hown hop
    · exact ih hmore hb

theorem ops_free {l : L} (hop : ∀ c op own, T.code c op = some own → ¬Labelled own l)
    {ops : List Op} (h : T.ops c ops = some code) : ¬Labelled code l := by
  induction ops generalizing c code with
  | nil =>
    cases h
    exact not_labelled_nil
  | cons op ops ih =>
    obtain ⟨own, more, hown, hmore, rfl⟩ := ops_cons h
    rw [labelled_append, not_or]
    exact ⟨hop c op own hown, ih hmore⟩

theorem blocks_free {l : L} (hop : ∀ c op own, T.code c op = some own → ¬Labelled own l)
    (hmark : ∀ b, mark b ≠ l) {bs : List (B × List Op)} (h : T.blocks mark c bs = some code) :
    ¬Labelled code l := by
  induction bs generalizing c code with
  | nil =>
    cases h
    exact not_labelled_nil
  | cons b bs ih =>
    obtain ⟨own, more, hown, hmore, rfl⟩ := blocks_cons h
    rw [labelled_label, labelled_append, not_or, not_or]
    exact ⟨(hmark b.1).symm, ops_free hop hown, ih hmore⟩

theorem Fresh.find [DecidableEq L] [DecidableEq B] (hT : T.Fresh mark) {b : B}
    {bs : List (B × List Op)} {pre body k : List (Line L I)} {ops : List Op}
    (hprog : prog = pre ++ (body ++ k)) (hbody : T.blocks mark c bs = some body)
    (hpre : ∀ l, Labelled pre l → T.issued c l) (hfree : ¬Labelled pre (mark b))
    (hfind : bs.find? (fun p => p.1 == b) = some (b, ops)) :
    ∃ code, target (mark b) prog = some code ∧ T.Stands prog ops code := by
  induction bs generalizing c pre body with
  | nil => cases hfind
  | cons p bs ih =>
    obtain ⟨own, more, hown, hmore, rfl⟩ := blocks_cons hbody
    by_cases hp : p.1 = b
    · have hpb : p = (b, ops) := by
        simpa [List.find?_cons, hp] using hfind
      have hcode : prog = pre ++ (.label (mark b) :: (own ++ (more ++ k))) := by
        rw [hprog, hp]
        simp
      refine ⟨own ++ (more ++ k), ?_, pre ++ [.label (mark b)], c, own, more ++ k, ?_, rfl, ?_, ?_⟩
      · rw [hcode, target_append hfree, target_label]
      · rw [hcode]
        simp
      · rw [← hown, hpb]
      · intro l hl
        rcases labelled_append.mp hl with hl | hl
        · exact hpre l hl
        · rw [labelled_label] at hl
          rcases hl with rfl | hl
          · exact hT.marks c b
          · exact absurd hl not_labelled_nil
    · have hrest : bs.find? (fun p => p.1 == b) = some (b, ops) := by
        rwa [List.find?_cons_of_neg (by simpa using hp)] at hfind
      refine @ih (T.after c p.2) (pre ++ .label (mark p.1) :: own) more ?_ hmore ?_ ?_ hrest
      · rw [hprog]
        simp
      · intro l hl
        rcases labelled_append.mp hl with hl | hl
        · exact hT.after hown (.inl (hpre l hl))
        · rw [labelled_label] at hl
          rcases hl with rfl | hl
          · exact hT.marks _ p.1
          · exact hT.after hown (.inr hl)
      · rw [labelled_append, labelled_label, not_or, not_or]
        exact ⟨hfree, fun h => hp (hT.inj _ _ h).symm, ops_free (fun c op own h => hT.apart c op own b h) hown⟩

theorem Stands.run [DecidableEq L] (hT : T.Fresh mark) {exec : I → σ → Option (Effect L X σ)}
    {op : Op} {ops : List Op} {s : σ} {Q : Exit L X → σ → Prop}
    (h : T.Stands prog (op :: ops) code)
    (hop : ∀ c own, T.code c op = some own → Segment exec (T.issued c) (· = s) own Q) :
    ∃ e s' rest, Q e s' ∧ Leads exec prog (.at code s) (e.point rest s') ∧
      T.Stands prog ops rest := by
  obtain ⟨pre, c, body, k, rfl, rfl, hbody, hpre⟩ := h
  obtain ⟨own, more, hown, hmore, rfl⟩ := ops_cons hbody
  rw [List.append_assoc]
  obtain ⟨e, s', hq, hrun⟩ := hop c own hown pre (more ++ k) s hpre rfl
  refine ⟨e, s', more ++ k, hq, hrun, pre ++ own, T.next c op, more, k, ?_, rfl, hmore, ?_⟩
  · simp
  · intro l hl
    rcases labelled_append.mp hl with hl | hl
    · exact hT.keeps c op l (hpre l hl)
    · exact hT.own c op own l hown hl

end Emitter
end Lib

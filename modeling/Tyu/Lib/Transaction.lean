import Mathlib.Data.List.Basic

/-! # Transactions -/

namespace Lib

universe u v w

/-- The part in use of an array with `cap` places. -/
@[ext]
structure Journal (α : Type u) (cap : Nat) where
  items : List α
  bounded : items.length ≤ cap

namespace Journal

variable {α : Type u} {cap : Nat}

def empty : Journal α cap := ⟨[], Nat.zero_le _⟩

def length (j : Journal α cap) : Nat := j.items.length

/-- One more item; `none` where every place is in use. -/
def append (j : Journal α cap) (x : α) : Option (Journal α cap) :=
  if h : j.length < cap then
    some ⟨j.items ++ [x], by rw [List.length_append]; exact h⟩
  else none

def truncate (j : Journal α cap) (mark : Nat) : Journal α cap :=
  ⟨j.items.take mark, by
    rw [List.length_take]
    exact Nat.le_trans (Nat.min_le_right _ _) j.bounded⟩

def Extends (j j' : Journal α cap) : Prop := j.items <+: j'.items

variable {j j' : Journal α cap} {x : α}

theorem append_eq_some : j.append x = some j' ↔ j.length < cap ∧ j'.items = j.items ++ [x] := by
  unfold append
  by_cases h : j.length < cap
  · rw [dif_pos h]
    constructor
    · intro hj
      cases hj
      exact ⟨h, rfl⟩
    · intro ⟨_, hitems⟩
      exact congrArg some (Journal.ext hitems.symm)
  · rw [dif_neg h]
    constructor
    · intro hj
      cases hj
    · intro ⟨hlt, _⟩
      exact absurd hlt h

theorem append_eq_none : j.append x = none ↔ cap ≤ j.length := by
  unfold append
  by_cases h : j.length < cap
  · rw [dif_pos h]
    constructor
    · intro hj
      cases hj
    · intro hle
      omega
  · rw [dif_neg h]
    exact ⟨fun _ => Nat.le_of_not_lt h, fun _ => rfl⟩

theorem Extends.refl (j : Journal α cap) : j.Extends j := List.prefix_refl _

theorem Extends.trans {j₁ j₂ j₃ : Journal α cap} (h : j₁.Extends j₂) (h' : j₂.Extends j₃) :
    j₁.Extends j₃ := List.IsPrefix.trans h h'

theorem extends_append (h : j.append x = some j') : j.Extends j' := by
  unfold Extends
  rw [(append_eq_some.mp h).2]
  exact List.prefix_append _ _

theorem truncate_of_extends (h : j.Extends j') : j'.truncate j.length = j := by
  obtain ⟨added, hadded⟩ := h
  apply Journal.ext
  show j'.items.take j.items.length = j.items
  rw [← hadded, List.take_left' rfl]

end Journal

/-! ## Stoppable computations -/

/-- A computation over a state that may stop; it leaves a state in both cases. -/
def Stoppable (ε : Type u) (σ : Type v) (α : Type w) := σ → Except ε α × σ

namespace Stoppable

variable {ε : Type u} {σ : Type v} {α β : Type w}

def stop (e : ε) : Stoppable ε σ α := fun s => (.error e, s)

instance : Monad (Stoppable ε σ) where
  pure a := fun s => (.ok a, s)
  bind x f := fun s =>
    match x s with
    | (.ok a, s') => f a s'
    | (.error e, s') => (.error e, s')

def ofExcept (x : Except ε α) : Stoppable ε σ α := fun s => (x, s)

def get : Stoppable ε σ σ := fun s => (.ok s, s)

def modify (f : σ → σ) : Stoppable ε σ PUnit := fun s => (.ok ⟨⟩, f s)

/-- Where the computation stops, `undo` gets the state before it and the state it left. -/
def guarded (undo : σ → σ → σ) (x : Stoppable ε σ α) : Stoppable ε σ α := fun s =>
  match x s with
  | (.ok a, s') => (.ok a, s')
  | (.error e, s') => (.error e, undo s s')

variable {x : Stoppable ε σ α} {f : α → Stoppable ε σ β} {s' m : σ} {a : α} {undo : σ → σ → σ}

theorem bind_eq_ok {s : σ} {b : β} :
    (x >>= f) s = (.ok b, s') ↔ ∃ a m, x s = (.ok a, m) ∧ f a m = (.ok b, s') := by
  show (match x s with
    | (.ok a, m) => f a m
    | (.error e, m) => (.error e, m)) = _ ↔ _
  rcases x s with ⟨a | a, m⟩
  · simp
  · simp

theorem bind_eq_error {s : σ} {e : ε} :
    (x >>= f) s = (.error e, s') ↔
      x s = (.error e, s') ∨ ∃ a m, x s = (.ok a, m) ∧ f a m = (.error e, s') := by
  show (match x s with
    | (.ok a, m) => f a m
    | (.error e, m) => (.error e, m)) = _ ↔ _
  rcases x s with ⟨a | a, m⟩
  · simp
  · simp

theorem bind_of_ok {s : σ} (h : x s = (.ok a, m)) : (x >>= f) s = f a m := by
  show (match x s with
    | (.ok a, m) => f a m
    | (.error e, m) => (.error e, m)) = _
  rw [h]

theorem bind_of_error {s : σ} {e : ε} (h : x s = (.error e, m)) : (x >>= f) s = (.error e, m) := by
  show (match x s with
    | (.ok a, m) => f a m
    | (.error e, m) => (.error e, m)) = _
  rw [h]

theorem pure_eq_ok {s : σ} {b : α} :
    (pure a : Stoppable ε σ α) s = (.ok b, s') ↔ a = b ∧ s = s' := by
  show ((.ok a, s) : Except ε α × σ) = _ ↔ _
  simp

theorem ofExcept_eq_ok {x : Except ε α} {s : σ} :
    ofExcept x s = (.ok a, s') ↔ x = .ok a ∧ s = s' := by
  simp [ofExcept]

theorem ofExcept_eq_error {x : Except ε α} {s : σ} {e : ε} :
    ofExcept x s = (.error e, s') ↔ x = .error e ∧ s = s' := by
  simp [ofExcept]

theorem get_eq_ok {s : σ} : (get : Stoppable ε σ σ) s = (.ok m, s') ↔ s = m ∧ s = s' := by
  simp [get]

theorem guarded_eq_ok {s : σ} : guarded undo x s = (.ok a, s') ↔ x s = (.ok a, s') := by
  unfold guarded
  rcases x s with ⟨a | a, m⟩
  · simp
  · simp

theorem guarded_eq_error {s : σ} {e : ε} :
    guarded undo x s = (.error e, s') ↔ ∃ m, x s = (.error e, m) ∧ undo s m = s' := by
  unfold guarded
  rcases x s with ⟨a | a, m⟩
  · simp
  · simp

/-! ### What a computation does to the state -/

/-- Whatever the outcome, the state goes on by `R`. -/
def Moves (R : σ → σ → Prop) (x : Stoppable ε σ α) : Prop := ∀ s, R s (x s).2

/-- Where the computation stops, the state has gone on by `R`. -/
def Fails (R : σ → σ → Prop) (x : Stoppable ε σ α) : Prop :=
  ∀ s e s', x s = (.error e, s') → R s s'

variable {R : σ → σ → Prop}

theorem Moves.fails (h : Moves R x) : Fails R x := by
  intro s e s' hx
  have hs := h s
  rw [hx] at hs
  exact hs

theorem Moves.of_ok (h : Moves R x) {s : σ} (hx : x s = (.ok a, s')) : R s s' := by
  have hs := h s
  rw [hx] at hs
  exact hs

theorem moves_pure (hrefl : ∀ s, R s s) (a : α) : Moves R (pure a : Stoppable ε σ α) := hrefl

theorem moves_stop (hrefl : ∀ s, R s s) (e : ε) : Moves R (stop e : Stoppable ε σ α) := hrefl

theorem moves_ofExcept (hrefl : ∀ s, R s s) (x : Except ε α) :
    Moves R (ofExcept x : Stoppable ε σ α) := hrefl

theorem moves_get (hrefl : ∀ s, R s s) : Moves R (get : Stoppable ε σ σ) := hrefl

theorem moves_bind (htrans : ∀ s m s', R s m → R m s' → R s s') (hx : Moves R x)
    (hf : ∀ a, Moves R (f a)) : Moves R (x >>= f) := by
  intro s
  have hs := hx s
  show R s (match x s with
    | (.ok a, m) => f a m
    | (.error e, m) => (.error e, m)).2
  revert hs
  rcases x s with ⟨e | a, m⟩
  · exact fun hs => hs
  · exact fun hs => htrans _ _ _ hs (hf a m)

theorem moves_forM {τ : Type w} (hrefl : ∀ s, R s s) (htrans : ∀ s m s', R s m → R m s' → R s s')
    {f : τ → Stoppable ε σ PUnit} (hf : ∀ t, Moves R (f t)) (ts : List τ) :
    Moves R (ts.forM f) := by
  induction ts with
  | nil => exact moves_pure hrefl _
  | cons t ts ih => exact moves_bind htrans (hf t) fun _ => ih

theorem fails_bind (htrans : ∀ s m s', R s m → R m s' → R s s') (hx : Moves R x)
    (hf : ∀ a, Fails R (f a)) : Fails R (x >>= f) := by
  intro s e s' h
  rcases bind_eq_error.mp h with hstop | ⟨a, m, ha, hrest⟩
  · exact hx.fails s e s' hstop
  · exact htrans _ _ _ (hx.of_ok ha) (hf a m e s' hrest)

theorem fails_guarded {R' : σ → σ → Prop} (hx : Fails R x)
    (hundo : ∀ s s', R s s' → R' s (undo s s')) : Fails R' (guarded undo x) := by
  intro s e s' h
  obtain ⟨m, hm, hs'⟩ := guarded_eq_error.mp h
  subst hs'
  exact hundo s m (hx s e m hm)

end Stoppable

end Lib

/-!
## Undo logs

A computation keeps one record for every change it makes, newest first.  A record is
taken back by `undo`, which may fail.  States are compared by `same`, a relation that
`undo` respects: taking a record back need only lead to a state that matches the one
before the change.
-/

namespace Lib

universe u v

structure UndoLog (σ : Type u) (ε : Type v) where
  undo : ε → σ → Option σ
  same : σ → σ → Prop
  refl : ∀ s, same s s
  symm : ∀ {s t}, same s t → same t s
  trans : ∀ {s t r}, same s t → same t r → same s r
  undo_same : ∀ {e s t s'}, same s t → undo e s = some s' → ∃ t', undo e t = some t' ∧ same s' t'

namespace UndoLog

variable {σ : Type u} {ε : Type v} (L : UndoLog σ ε)

def rollback : List ε → σ → Option σ
  | [], s => some s
  | e :: es, s => (L.undo e s).bind (rollback es)

/-- Every state on the way back satisfies `I`, and no record fails to be taken back. -/
def Leads (I : σ → Prop) : List ε → σ → Prop
  | [], s => I s
  | e :: es, s => I s ∧ ∃ s', L.undo e s = some s' ∧ Leads I es s'

/-- The records lead back to a state that matches `b`. -/
def LeadsTo (b : σ) (es : List ε) (s : σ) : Prop := ∃ r, L.rollback es s = some r ∧ L.same r b

variable {L} {I : σ → Prop} {es : List ε} {e : ε} {s t b : σ}

theorem Leads.here (h : L.Leads I es s) : I s := by
  cases es with
  | nil => exact h
  | cons e es => exact h.1

theorem Leads.of_same (hI : ∀ {s t}, L.same s t → I s → I t) (hst : L.same s t)
    (h : L.Leads I es s) : L.Leads I es t := by
  induction es generalizing s t with
  | nil => exact hI hst h
  | cons e es ih =>
    obtain ⟨hs, s', hundo, hrest⟩ := h
    obtain ⟨t', hundo', hst'⟩ := L.undo_same hst hundo
    exact ⟨hI hst hs, t', hundo', ih hst' hrest⟩

variable {r : σ}

theorem Leads.record (hI : ∀ {s t}, L.same s t → I s → I t) {s' : σ} (h : L.Leads I es s)
    (hs' : I s') (hundo : L.undo e s' = some r) (hr : L.same s r) : L.Leads I (e :: es) s' :=
  ⟨hs', r, hundo, h.of_same hI hr⟩

theorem rollback_same (hst : L.same s t) (h : L.rollback es s = some r) :
    ∃ r', L.rollback es t = some r' ∧ L.same r r' := by
  induction es generalizing s t with
  | nil =>
    cases h
    exact ⟨t, rfl, hst⟩
  | cons e es ih =>
    obtain ⟨s', hundo, hrest⟩ := Option.bind_eq_some_iff.mp h
    obtain ⟨t', hundo', hst'⟩ := L.undo_same hst hundo
    obtain ⟨r', hr', hsame⟩ := ih hst' hrest
    exact ⟨r', Option.bind_eq_some_iff.mpr ⟨t', hundo', hr'⟩, hsame⟩

theorem LeadsTo.nil (b : σ) : L.LeadsTo b [] b := ⟨b, rfl, L.refl b⟩

theorem LeadsTo.of_same (hst : L.same s t) (h : L.LeadsTo b es s) : L.LeadsTo b es t := by
  obtain ⟨r, hr, hrb⟩ := h
  obtain ⟨r', hr', hsame⟩ := rollback_same hst hr
  exact ⟨r', hr', L.trans (L.symm hsame) hrb⟩

theorem LeadsTo.to_same {b' : σ} (hb : L.same b b') (h : L.LeadsTo b es s) :
    L.LeadsTo b' es s := by
  obtain ⟨r, hr, hrb⟩ := h
  exact ⟨r, hr, L.trans hrb hb⟩

theorem LeadsTo.record {s' : σ} (h : L.LeadsTo b es s) (hundo : L.undo e s' = some r)
    (hr : L.same s r) : L.LeadsTo b (e :: es) s' := by
  obtain ⟨q, hq, hqb⟩ := h.of_same hr
  exact ⟨q, Option.bind_eq_some_iff.mpr ⟨r, hundo, hq⟩, hqb⟩

end UndoLog

end Lib

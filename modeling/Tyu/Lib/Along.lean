import Mathlib.Order.Defs.Unbundled

/-! # Computations that move a state along a relation -/

namespace Lib

universe u

variable {σ ε α β γ : Type u} {R : σ → σ → Prop}

/-- Every accepting run of `m` goes along `R`. -/
class Along (R : σ → σ → Prop) (m : StateT σ (Except ε) α) : Prop where
  run : ∀ s a s', m s = .ok (a, s') → R s s'

theorem bind_run {m : StateT σ (Except ε) α} {f : α → StateT σ (Except ε) β} {s s' : σ} {b : β}
    (h : (m >>= f) s = .ok (b, s')) : ∃ a t, m s = .ok (a, t) ∧ f a t = .ok (b, s') := by
  change (m s).bind (fun p => f p.1 p.2) = .ok (b, s') at h
  cases hm : m s with
  | error e =>
    rw [hm] at h
    cases h
  | ok p =>
    rw [hm] at h
    exact ⟨p.1, p.2, rfl, h⟩

theorem along_of_eq [Std.Refl R] {m : StateT σ (Except ε) α}
    (h : ∀ s a s', m s = .ok (a, s') → s' = s) : Along R m := by
  refine ⟨fun s a s' hm => ?_⟩
  rw [h s a s' hm]
  exact Std.Refl.refl s

instance along_pure [Std.Refl R] {a : α} : Along R (pure a : StateT σ (Except ε) α) := by
  refine along_of_eq fun s b s' h => ?_
  cases h
  rfl

instance along_get [Std.Refl R] : Along R (get : StateT σ (Except ε) σ) := by
  refine along_of_eq fun s b s' h => ?_
  cases h
  rfl

theorem along_modify {f : σ → σ} (h : ∀ s, R s (f s)) :
    Along R (modify f : StateT σ (Except ε) PUnit) := by
  refine ⟨fun s a s' hm => ?_⟩
  cases hm
  exact h s

instance along_throw {e : ε} : Along R (throw e : StateT σ (Except ε) α) := by
  refine ⟨fun s a s' h => ?_⟩
  cases h

instance along_lift [Std.Refl R] {x : Except ε α} :
    Along R (liftM x : StateT σ (Except ε) α) := by
  refine along_of_eq fun s a s' h => ?_
  cases x with
  | error e => cases h
  | ok c =>
    cases h
    rfl

/-- A sequence.  Long ones are taken apart with this rule, the short ones inside them are
found as instances. -/
theorem Along.seq [IsTrans σ R] {m : StateT σ (Except ε) α} {f : α → StateT σ (Except ε) β}
    (hm : Along R m) (hf : ∀ a, Along R (f a)) : Along R (m >>= f) := by
  refine ⟨fun s b s' h => ?_⟩
  obtain ⟨a, t, hma, hfa⟩ := bind_run h
  exact IsTrans.trans _ _ _ (hm.run s a t hma) ((hf a).run t b s' hfa)

instance along_bind [IsTrans σ R] {m : StateT σ (Except ε) α} {f : α → StateT σ (Except ε) β}
    [hm : Along R m] [hf : ∀ a, Along R (f a)] : Along R (m >>= f) := .seq hm hf

theorem Along.cond {c : Prop} [Decidable c] {m n : StateT σ (Except ε) α} (hm : Along R m)
    (hn : Along R n) : Along R (if c then m else n) := by
  split
  · exact hm
  · exact hn

instance along_ite {c : Prop} [Decidable c] {m n : StateT σ (Except ε) α} [hm : Along R m]
    [hn : Along R n] : Along R (if c then m else n) := .cond hm hn

section Loops

variable [Std.Refl R] [IsTrans σ R]

instance along_mapM {f : γ → StateT σ (Except ε) α} [hf : ∀ x, Along R (f x)] {xs : List γ} :
    Along R (xs.mapM f) := by
  induction xs with
  | nil => exact along_pure
  | cons x xs ih =>
    rw [List.mapM_cons]
    infer_instance

instance along_forM {f : γ → StateT σ (Except ε) PUnit} [hf : ∀ x, Along R (f x)] {xs : List γ} :
    Along R (xs.forM f) := by
  induction xs with
  | nil => exact along_pure
  | cons x xs ih =>
    show Along R (f x >>= fun _ => xs.forM f)
    infer_instance

instance along_foldlM {f : α → γ → StateT σ (Except ε) α} [hf : ∀ a x, Along R (f a x)]
    {xs : List γ} {a : α} : Along R (xs.foldlM f a) := by
  induction xs generalizing a with
  | nil => exact along_pure
  | cons x xs ih =>
    rw [List.foldlM_cons]
    infer_instance

end Loops

end Lib

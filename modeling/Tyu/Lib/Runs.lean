import Mathlib.Logic.Relation

/-! # Runs of a transition system -/

namespace Lib

universe u v

structure System (σ : Type u) where
  init : σ → Prop
  step : σ → σ → Prop

namespace System

variable {σ : Type u} {τ : Type v}

/-- The states reached by runs whose every step starts in a state that satisfies
`ok`. -/
inductive Reach (S : System σ) (ok : σ → Prop) : σ → Prop
  | start {s : σ} : S.init s → Reach S ok s
  | next {s s' : σ} : Reach S ok s → ok s → S.step s s' → Reach S ok s'

abbrev Reachable (S : System σ) : σ → Prop := S.Reach fun _ => True

variable {S : System σ} {ok : σ → Prop}

/-- A property of the initial states that every guarded step keeps holds all
along every guarded run. -/
theorem Reach.invariant {I : σ → Prop} (hinit : ∀ s, S.init s → I s)
    (hstep : ∀ s s', I s → ok s → S.step s s' → I s') {s : σ} (h : S.Reach ok s) : I s := by
  induction h with
  | start h => exact hinit _ h
  | next _ hok hst ih => exact hstep _ _ ih hok hst

theorem Reach.weaken {ok' : σ → Prop} (hok : ∀ s, ok s → ok' s) {s : σ} (h : S.Reach ok s) :
    S.Reach ok' s := by
  induction h with
  | start h => exact .start h
  | next _ hs hst ih => exact .next ih (hok _ hs) hst

theorem Reach.reachable {s : σ} (h : S.Reach ok s) : S.Reachable s :=
  h.weaken fun _ _ => trivial

end System
end Lib

import Mathlib.Data.Nat.Notation
import Mathlib.Order.Basic

/-! # Binary search -/

namespace Lib

/-- A place from `lo` up to `hi` at which the probe answers `eq`. -/
def bisect {m : Type → Type} [Monad m] (probe : Nat → m Ordering) :
    Nat → Nat → Nat → m (Option Nat)
  | 0, _, _ => pure none
  | fuel + 1, lo, hi =>
    if lo < hi then do
      let mid := lo + (hi - lo) / 2
      match ← probe mid with
      | .lt => bisect probe fuel (mid + 1) hi
      | .gt => bisect probe fuel lo mid
      | .eq => pure (some mid)
    else pure none

/-- Along the places below `n` the answers do not decrease. -/
def Ascending (n : Nat) (answer : Nat → Ordering) : Prop :=
  ∀ i j, i ≤ j → j < n → (answer j = .lt → answer i = .lt) ∧ (answer i = .gt → answer j = .gt)

variable {m : Type → Type} [Monad m] [LawfulMonad m] {probe : Nat → m Ordering}
  {answer : Nat → Ordering} {n fuel lo hi : Nat}

theorem bisect_spec (hprobe : ∀ i < n, probe i = pure (answer i)) (hasc : Ascending n answer)
    (hn : hi ≤ n) (hfuel : hi - lo < fuel) :
    ∃ r, bisect probe fuel lo hi = pure r ∧ (∀ i, r = some i → i < hi ∧ answer i = .eq) ∧
      (r = none → ∀ i, lo ≤ i → i < hi → answer i ≠ .eq) := by
  induction fuel generalizing lo hi with
  | zero => omega
  | succ fuel ih =>
    unfold bisect
    by_cases hlt : lo < hi
    · obtain ⟨mid, hmid⟩ : ∃ mid, mid = lo + (hi - lo) / 2 := ⟨_, rfl⟩
      rw [if_pos hlt, ← hmid]
      dsimp only
      rw [hprobe mid (by omega), pure_bind]
      cases hanswer : answer mid with
      | lt =>
        obtain ⟨r, hr, hfound, hmissed⟩ := @ih (mid + 1) hi hn (by omega)
        refine ⟨r, hr, hfound, fun hnone i hlo hhi heq => ?_⟩
        by_cases hi' : mid + 1 ≤ i
        · exact hmissed hnone i hi' hhi heq
        · -- Every place up to the middle answers as the middle does.
          have hbelow := (hasc i mid (by omega) (by omega)).1 hanswer
          rw [heq] at hbelow
          cases hbelow
      | gt =>
        obtain ⟨r, hr, hfound, hmissed⟩ := @ih lo mid (by omega) (by omega)
        refine ⟨r, hr, ?_, fun hnone i hlo hhi heq => ?_⟩
        · intro i hi'
          obtain ⟨hlt', heq⟩ := hfound i hi'
          exact ⟨by omega, heq⟩
        by_cases hi' : i < mid
        · exact hmissed hnone i hlo hi' heq
        · have habove := (hasc mid i (by omega) (by omega)).2 hanswer
          rw [heq] at habove
          cases habove
      | eq =>
        refine ⟨some mid, rfl, ?_, fun hnone => nomatch hnone⟩
        intro i hi'
        cases hi'
        exact ⟨by omega, hanswer⟩
    · rw [if_neg hlt]
      refine ⟨none, rfl, ?_, ?_⟩
      · intro i hi'
        cases hi'
      · intro _ i hlo hhi
        omega

end Lib

import Mathlib

/-! # Spans -/

namespace Lib

def satAdd (top a b : Nat) : Nat := min (a + b) top

def span (start size : Nat) : Set Nat := Set.Ico start (start + size)

theorem disjoint_span {a m b n : Nat} (hm : 0 < m) (hn : 0 < n) :
    Disjoint (span a m) (span b n) ↔ a + m ≤ b ∨ b + n ≤ a := by
  rw [span, span, Set.Ico_disjoint_Ico]
  omega

theorem disjoint_span_of_le {a m b n : Nat} (h : a + m ≤ b) : Disjoint (span a m) (span b n) := by
  rw [span, span, Set.Ico_disjoint_Ico]
  omega

end Lib

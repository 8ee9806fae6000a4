import Tyu.Verifier.Order

/-! # The intervals as an abstract domain -/

namespace Tyu

namespace Interval

theorem subsetOf_antisymm {a b : Interval} (hab : a.subsetOf b = true)
    (hba : b.subsetOf a = true) : a = b := by
  cases a with
  | bottom => cases b <;> first | rfl | cases hba
  | top => cases b <;> first | rfl | cases hab
  | range lo hi =>
    cases b with
    | bottom => cases hab
    | top => cases hba
    | range lo' hi' =>
      simp only [subsetOf, Bool.and_eq_true, decide_eq_true_eq] at hab hba
      rw [show lo = lo' by omega, show hi = hi' by omega]

instance : PartialOrder Interval where
  le a b := a.subsetOf b = true
  le_refl := subsetOf_refl
  le_trans _ _ _ := subsetOf_trans
  le_antisymm _ _ := subsetOf_antisymm

theorem join_le {a b c : Interval} (hac : a ≤ c) (hbc : b ≤ c) : a.join b ≤ c := by
  change a.subsetOf c = true at hac
  change b.subsetOf c = true at hbc
  show (a.join b).subsetOf c = true
  cases a with
  | bottom => exact hbc
  | top => cases b <;> exact hac
  | range lo hi =>
    cases b with
    | bottom => exact hac
    | top => exact hbc
    | range lo' hi' =>
      cases c with
      | bottom => cases hac
      | top => rfl
      | range l h =>
        simp only [subsetOf, join, Bool.and_eq_true, decide_eq_true_eq] at hac hbc ⊢
        omega

theorem isLUB_join (a b : Interval) : IsLUB {a, b} (a.join b) := by
  refine ⟨fun c hc => ?_, fun c hc => join_le (hc (Or.inl rfl)) (hc (Or.inr rfl))⟩
  rcases hc with rfl | rfl
  · exact subsetOf_join_left c b
  · exact subsetOf_join_right a c

def Fits (x : Int) : Prop := I64_MIN ≤ x ∧ x ≤ I64_MAX

def WellFormed : Interval → Prop
  | .range lo hi => Fits lo ∧ Fits hi ∧ lo ≤ hi
  | _ => True

def Covered (a b : Interval) : Prop := ∀ v, Fits v → a.contains v = true → b.contains v = true

theorem contains_between {c : Interval} {x y v : Int} (hx : c.contains x = true)
    (hy : c.contains y = true) (hxv : x ≤ v) (hvy : v ≤ y) : c.contains v = true := by
  cases c with
  | bottom => cases hx
  | top => rfl
  | range lo hi =>
    rw [contains_range] at *
    omega

theorem covered_join {a b c : Interval} (ha : a.WellFormed) (hb : b.WellFormed)
    (hac : Covered a c) (hbc : Covered b c) : Covered (a.join b) c := by
  intro v hv h
  cases a with
  | bottom => exact hbc v hv h
  | top => exact hac v hv rfl
  | range lo hi =>
    cases b with
    | bottom => exact hac v hv h
    | top => exact hbc v hv rfl
    | range lo' hi' =>
      obtain ⟨hlo, hhi, hle⟩ := ha
      obtain ⟨hlo', hhi', hle'⟩ := hb
      have h1 := hac lo hlo (contains_range.mpr ⟨le_refl lo, hle⟩)
      have h2 := hac hi hhi (contains_range.mpr ⟨hle, le_refl hi⟩)
      have h3 := hbc lo' hlo' (contains_range.mpr ⟨le_refl lo', hle'⟩)
      have h4 := hbc hi' hhi' (contains_range.mpr ⟨hle', le_refl hi'⟩)
      have hmin : c.contains (min lo lo') = true := by rcases min_choice lo lo' with e | e <;> rwa [e]
      have hmax : c.contains (max hi hi') = true := by rcases max_choice hi hi' with e | e <;> rwa [e]
      have hmem := contains_range.mp h
      exact contains_between hmin hmax hmem.1 hmem.2

/-- The operation on intervals has every result on their values that fits, and gives up when
some result does not. -/
def Exact (op : Interval → Interval → Interval) (f : Int → Int → Int) : Prop :=
  ∀ a b x y, a.contains x = true → b.contains y = true →
    (Fits (f x y) → (op a b).contains (f x y) = true) ∧ (¬ Fits (f x y) → op a b = .top)

theorem checkedI64_none {x : Int} (h : ¬ Fits x) : checkedI64 x = none := if_neg h

theorem checkedRange_top {lo hi v : Int} (hlo : lo ≤ v) (hhi : v ≤ hi) (h : ¬ Fits v) :
    checkedRange lo hi = .top := by
  unfold checkedRange
  by_cases hl : Fits lo
  · have hh : ¬ Fits hi := by
      unfold Fits at *
      omega
    rw [checkedI64_none hh]
    cases checkedI64 lo <;> rfl
  · rw [checkedI64_none hl]

theorem exact_of {op : Interval → Interval → Interval} {f : Int → Int → Int}
    (hwrap : ∀ a b x y, a.contains x = true → b.contains y = true →
      (op a b).contains (wrapI64 (f x y)) = true)
    (htop : ∀ lo hi b, b ≠ .bottom → op .top b = .top ∧ op (.range lo hi) .top = .top)
    (hranges : ∀ a b c d x y, a ≤ x → x ≤ b → c ≤ y → y ≤ d → ¬ Fits (f x y) →
      op (.range a b) (.range c d) = .top) : Exact op f := by
  intro a b x y hx hy
  refine ⟨fun hfits => ?_, fun hout => ?_⟩
  · rw [← wrapI64_of_range hfits.1 hfits.2]
    exact hwrap a b x y hx hy
  · cases a with
    | bottom => cases hx
    | top => exact (htop 0 0 b (by rintro rfl; cases hy)).1
    | range lo hi =>
      cases b with
      | bottom => cases hy
      | top => exact (htop lo hi .top (by intro h; cases h)).2
      | range lo' hi' =>
        rw [contains_range] at hx hy
        exact hranges lo hi lo' hi' x y hx.1 hx.2 hy.1 hy.2 hout

theorem exact_add : Exact add (· + ·) := by
  refine exact_of (fun _ _ _ _ => contains_add) (fun lo hi b hb => ⟨?_, rfl⟩) ?_
  · cases b <;> first | rfl | exact absurd rfl hb
  · intro a b c d x y hax hxb hcy hyd hout
    exact checkedRange_top (by omega) (by omega) hout

theorem exact_sub : Exact sub (· - ·) := by
  refine exact_of (fun _ _ _ _ => contains_sub) (fun lo hi b hb => ⟨?_, rfl⟩) ?_
  · cases b <;> first | rfl | exact absurd rfl hb
  · intro a b c d x y hax hxb hcy hyd hout
    exact checkedRange_top (by omega) (by omega) hout

theorem exact_mul : Exact mul (· * ·) := by
  refine exact_of (fun _ _ _ _ => contains_mul) (fun lo hi b hb => ⟨?_, rfl⟩) ?_
  · cases b <;> first | rfl | exact absurd rfl hb
  · intro a b c d x y hax hxb hcy hyd hout
    have hcorner := mul_corners hax hxb hcy hyd
    unfold mul
    dsimp only
    split
    · rename_i w p q z hw hp hq hz
      have hw := (checkedI64_eq_some hw).2
      have hp := (checkedI64_eq_some hp).2
      have hq := (checkedI64_eq_some hq).2
      have hz := (checkedI64_eq_some hz).2
      refine absurd ⟨?_, ?_⟩ hout <;> omega
    · rfl

end Interval

theorem eventually_const {α : Type} {t : α} {x : Nat → α}
    (hstep : ∀ n, x (n + 1) = x n ∨ x (n + 1) = t) (hstay : ∀ n, x n = t → x (n + 1) = t) :
    ∃ N, ∀ n, N ≤ n → x n = x N := by
  by_cases hex : ∃ N, x N = t
  · obtain ⟨N, hN⟩ := hex
    refine ⟨N, fun n hn => ?_⟩
    rw [hN]
    induction n, hn using Nat.le_induction with
    | base => exact hN
    | succ n _ ih => exact hstay n ih
  · refine ⟨0, fun n _ => ?_⟩
    induction n with
    | zero => rfl
    | succ n ih =>
      have hne : x (n + 1) ≠ t := fun h => hex ⟨n + 1, h⟩
      exact ((hstep n).resolve_right hne).trans (ih (Nat.zero_le n))

theorem widen_chain_const {s new : Nat → Slot} (h : ∀ n, s (n + 1) = widenSlot (s n) (new n)) :
    ∃ N, ∀ n, N ≤ n → s n = s N := by
  have hiv : ∃ N, ∀ n, N ≤ n → (s n).iv = (s N).iv := by
    refine eventually_const (t := .top) (fun n => ?_) (fun n htop => ?_)
    · rw [h n, widenSlot_iv]
      split
      · exact .inl rfl
      · exact .inr rfl
    · rw [h n, widenSlot_iv, htop, if_pos (Interval.subsetOf_top _)]
  have horigin : ∃ N, ∀ n, N ≤ n → (s n).origin = (s N).origin := by
    refine eventually_const (t := .computed) (fun n => ?_) (fun n hcomputed => ?_)
    · rw [h n]
      unfold widenSlot
      dsimp only
      split
      · exact .inl rfl
      · exact .inr rfl
    · rw [h n]
      unfold widenSlot
      dsimp only
      rw [hcomputed]
      exact ite_self _
  obtain ⟨N, hN⟩ := hiv
  obtain ⟨M, hM⟩ := horigin
  refine ⟨max N M, fun n hn => ?_⟩
  have hsame : (s n).iv = (s (max N M)).iv := (hN n (by omega)).trans (hN _ (by omega)).symm
  have hkept : (s n).origin = (s (max N M)).origin := (hM n (by omega)).trans (hM _ (by omega)).symm
  exact congrArg₂ Slot.mk hsame hkept

/-- **Intervals are the domain of the engine.**  The hull is the least upper bound of two
intervals, in the order and among the sets of 64-bit values.  The widening is an upper bound of
both slots, and every chain of widenings becomes constant.  Sum, difference and product have
every exact result of 64 bits and are the full range when there is another. -/
theorem interval_domain :
    (∀ a b : Interval, IsLUB {a, b} (a.join b)) ∧
    (∀ a b c : Interval, a.WellFormed → b.WellFormed →
      (Interval.Covered (a.join b) c ↔ Interval.Covered a c ∧ Interval.Covered b c)) ∧
    (∀ old new : Slot, old.iv ≤ (widenSlot old new).iv ∧ new.iv ≤ (widenSlot old new).iv) ∧
    (∀ s new : Nat → Slot, (∀ n, s (n + 1) = widenSlot (s n) (new n)) →
      ∃ N, ∀ n, N ≤ n → s n = s N) ∧
    Interval.Exact .add (· + ·) ∧ Interval.Exact .sub (· - ·) ∧ Interval.Exact .mul (· * ·) := by
  refine ⟨Interval.isLUB_join, fun a b c ha hb => ⟨fun h => ⟨?_, ?_⟩, fun h =>
    Interval.covered_join ha hb h.1 h.2⟩, fun old new => ⟨?_, ?_⟩, fun _ _ => widen_chain_const,
    Interval.exact_add, Interval.exact_sub, Interval.exact_mul⟩
  · exact fun v hv hmem => h v hv (Interval.contains_join_left hmem)
  · exact fun v hv hmem => h v hv (Interval.contains_join_right hmem)
  · exact admits_widen_left new (Interval.subsetOf_refl _)
  · exact admits_widen_right old (Interval.subsetOf_refl _)

end Tyu

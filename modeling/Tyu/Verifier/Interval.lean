import Tyu.Ir.Exec

/-! # The interval lattice -/

namespace Tyu

def I64_MIN : Int := -(2 ^ 63)
def I64_MAX : Int := 2 ^ 63 - 1

def checkedI64 (x : Int) : Option Int :=
  if I64_MIN ≤ x ∧ x ≤ I64_MAX then some x else none

inductive Tri where
  | defTrue | defFalse | top

inductive Interval where
  | bottom
  | range (lo hi : Int)
  | top
deriving DecidableEq

namespace Interval

def constVal (v : Int) : Interval := .range v v

def join : Interval → Interval → Interval
  | .bottom, x => x
  | x, .bottom => x
  | .top, _ => .top
  | _, .top => .top
  | .range a b, .range c d => .range (min a c) (max b d)

def intersect : Interval → Interval → Interval
  | .bottom, _ => .bottom
  | _, .bottom => .bottom
  | .top, x => x
  | x, .top => x
  | .range a b, .range c d =>
    if min b d < max a c then .bottom else .range (max a c) (min b d)

def subsetOf : Interval → Interval → Bool
  | .bottom, _ => true
  | _, .top => true
  | .range a b, .range c d => c ≤ a && b ≤ d
  | _, _ => false

def contains : Interval → Int → Bool
  | .bottom, _ => false
  | .range lo hi, v => lo ≤ v && v ≤ hi
  | .top, _ => true

def checkedRange (lo hi : Int) : Interval :=
  match checkedI64 lo, checkedI64 hi with
  | some lo, some hi => .range lo hi
  | _, _ => .top

def add : Interval → Interval → Interval
  | .bottom, _ => .bottom
  | _, .bottom => .bottom
  | .top, _ => .top
  | _, .top => .top
  | .range a b, .range c d => checkedRange (a + c) (b + d)

def sub : Interval → Interval → Interval
  | .bottom, _ => .bottom
  | _, .bottom => .bottom
  | .top, _ => .top
  | _, .top => .top
  | .range a b, .range c d => checkedRange (a - d) (b - c)

def mul : Interval → Interval → Interval
  | .bottom, _ => .bottom
  | _, .bottom => .bottom
  | .top, _ => .top
  | _, .top => .top
  | .range a b, .range c d =>
    match checkedI64 (a * c), checkedI64 (a * d), checkedI64 (b * c), checkedI64 (b * d) with
    | some w, some x, some y, some z =>
      .range (min (min (min w x) y) z) (max (max (max w x) y) z)
    | _, _, _, _ => .top

def castNarrow (iv : Interval) (lo hi : Int) : Interval := iv.intersect (.range lo hi)

end Interval

def evalInRange : Interval → Int → Int → Tri
  | .bottom, _, _ => .top
  | .top, _, _ => .top
  | .range a b, lo, hi =>
    if lo ≤ a ∧ b ≤ hi then .defTrue
    else if b < lo ∨ hi < a then .defFalse
    else .top

def triFromBoolIv : Interval → Tri
  | .range lo hi =>
    if lo = 0 ∧ hi = 0 then .defFalse else if lo = 1 ∧ hi = 1 then .defTrue else .top
  | _ => .top

def boolIv : Tri → Interval
  | .defTrue => .constVal 1
  | .defFalse => .constVal 0
  | .top => .range 0 1

def triNot : Tri → Tri
  | .defTrue => .defFalse
  | .defFalse => .defTrue
  | .top => .top

def triAnd : Tri → Tri → Tri
  | .defTrue, x => x
  | x, .defTrue => x
  | .defFalse, _ => .defFalse
  | _, .defFalse => .defFalse
  | .top, .top => .top

def triOr : Tri → Tri → Tri
  | .defFalse, x => x
  | x, .defFalse => x
  | .defTrue, _ => .defTrue
  | _, .defTrue => .defTrue
  | .top, .top => .top

/-- `defTrue` when the first condition holds, else `defFalse` when the second does. -/
def triOf (yes no : Bool) : Tri := if yes then .defTrue else if no then .defFalse else .top

def triCmp (a b : Interval) (kind : CmpKind) : Tri :=
  match a, b with
  | .range aLo aHi, .range bLo bHi =>
    match kind with
    | .lt => triOf (aHi < bLo) (bHi ≤ aLo)
    | .le => triOf (aHi ≤ bLo) (bHi < aLo)
    | .gt => triOf (bHi < aLo) (aHi ≤ bLo)
    | .ge => triOf (bHi ≤ aLo) (aHi < bLo)
    | .eq => triOf (aLo = aHi && bLo = bHi && aLo = bLo) (aHi < bLo || bHi < aLo)
    | .ne =>
      if aLo = aHi ∧ bLo = bHi ∧ aLo = bLo then .defFalse
      else if aHi < bLo ∨ bHi < aLo then .defTrue
      else .top
  | _, _ => .top

/-! ## Membership -/

def Tri.Allows (t : Tri) (b : Bool) : Prop :=
  match t with
  | .defTrue => b = true
  | .defFalse => b = false
  | .top => True

variable {x : Int} {t : Tri} {b : Bool}

theorem wrapI64_of_range (hlo : I64_MIN ≤ x) (hhi : x ≤ I64_MAX) : wrapI64 x = x := by
  unfold I64_MIN at hlo
  unfold I64_MAX at hhi
  exact Int.bmod_eq_of_le (by omega) (by omega)

theorem checkedI64_eq_some {y : Int} (h : checkedI64 x = some y) :
    y = x ∧ I64_MIN ≤ x ∧ x ≤ I64_MAX := by
  unfold checkedI64 at h
  split at h
  · rename_i hr
    cases h
    exact ⟨rfl, hr⟩
  · cases h

namespace Interval

@[simp] theorem contains_top (v : Int) : contains .top v = true := rfl

variable {lo hi v x y : Int} {a b : Interval}

theorem contains_range : contains (.range lo hi) v = true ↔ lo ≤ v ∧ v ≤ hi := by
  simp [contains]

theorem contains_constVal (v : Int) : contains (constVal v) v = true :=
  contains_range.mpr ⟨le_refl v, le_refl v⟩

theorem contains_join_left (h : a.contains v = true) : (a.join b).contains v = true := by
  cases a with
  | bottom => cases h
  | top => cases b <;> rfl
  | range lo hi =>
    rw [contains_range] at h
    cases b with
    | bottom => exact contains_range.mpr h
    | top => rfl
    | range lo' hi' =>
      exact contains_range.mpr ⟨le_trans (min_le_left _ _) h.1, le_trans h.2 (le_max_left _ _)⟩

theorem contains_join_right (h : b.contains v = true) : (a.join b).contains v = true := by
  cases b with
  | bottom => cases h
  | top => cases a <;> rfl
  | range lo hi =>
    rw [contains_range] at h
    cases a with
    | bottom => exact contains_range.mpr h
    | top => rfl
    | range lo' hi' =>
      exact contains_range.mpr ⟨le_trans (min_le_right _ _) h.1, le_trans h.2 (le_max_right _ _)⟩

theorem contains_of_subsetOf (hsub : a.subsetOf b = true) (h : a.contains v = true) :
    b.contains v = true := by
  cases a with
  | bottom => cases h
  | top => cases b <;> first | rfl | cases hsub
  | range lo hi =>
    cases b with
    | bottom => cases hsub
    | top => rfl
    | range lo' hi' =>
      simp only [subsetOf, Bool.and_eq_true, decide_eq_true_eq] at hsub
      rw [contains_range] at h ⊢
      omega

theorem contains_intersect (ha : a.contains v = true) (hb : b.contains v = true) :
    (a.intersect b).contains v = true := by
  cases a with
  | bottom => cases ha
  | top => cases b <;> exact hb
  | range lo hi =>
    cases b with
    | bottom => cases hb
    | top => exact ha
    | range lo' hi' =>
      rw [contains_range] at ha hb
      have hmeet : ¬min hi hi' < max lo lo' := by omega
      simp only [intersect, if_neg hmeet]
      exact contains_range.mpr (by omega)

theorem contains_checkedRange (hlo : lo ≤ v) (hhi : v ≤ hi) :
    (checkedRange lo hi).contains (wrapI64 v) = true := by
  unfold checkedRange
  cases hl : checkedI64 lo with
  | none => rfl
  | some l =>
    cases hh : checkedI64 hi with
    | none => rfl
    | some h =>
      obtain ⟨rfl, hmin, -⟩ := checkedI64_eq_some hl
      obtain ⟨rfl, -, hmax⟩ := checkedI64_eq_some hh
      rw [wrapI64_of_range (le_trans hmin hlo) (le_trans hhi hmax)]
      exact contains_range.mpr ⟨hlo, hhi⟩

theorem contains_add (hx : a.contains x = true) (hy : b.contains y = true) :
    (a.add b).contains (wrapI64 (x + y)) = true := by
  cases a with
  | bottom => cases hx
  | top => cases b <;> first | rfl | cases hy
  | range lo hi =>
    cases b with
    | bottom => cases hy
    | top => rfl
    | range lo' hi' =>
      rw [contains_range] at hx hy
      exact contains_checkedRange (by omega) (by omega)

theorem contains_sub (hx : a.contains x = true) (hy : b.contains y = true) :
    (a.sub b).contains (wrapI64 (x - y)) = true := by
  cases a with
  | bottom => cases hx
  | top => cases b <;> first | rfl | cases hy
  | range lo hi =>
    cases b with
    | bottom => cases hy
    | top => rfl
    | range lo' hi' =>
      rw [contains_range] at hx hy
      exact contains_checkedRange (by omega) (by omega)

theorem mul_between {a b : Int} (y : Int) (ha : a ≤ x) (hb : x ≤ b) :
    min (a * y) (b * y) ≤ x * y ∧ x * y ≤ max (a * y) (b * y) := by
  rcases le_total 0 y with hy | hy
  · exact ⟨le_trans (min_le_left _ _) (Int.mul_le_mul_of_nonneg_right ha hy),
      le_trans (Int.mul_le_mul_of_nonneg_right hb hy) (le_max_right _ _)⟩
  · exact ⟨le_trans (min_le_right _ _) (Int.mul_le_mul_of_nonpos_right hb hy),
      le_trans (Int.mul_le_mul_of_nonpos_right ha hy) (le_max_left _ _)⟩

theorem mul_corners {a b c d : Int} (ha : a ≤ x) (hb : x ≤ b) (hc : c ≤ y) (hd : y ≤ d) :
    min (min (min (a * c) (a * d)) (b * c)) (b * d) ≤ x * y ∧
      x * y ≤ max (max (max (a * c) (a * d)) (b * c)) (b * d) := by
  have hx := mul_between y ha hb
  have hay := mul_between a hc hd
  have hby := mul_between b hc hd
  rw [Int.mul_comm c a, Int.mul_comm d a, Int.mul_comm y a] at hay
  rw [Int.mul_comm c b, Int.mul_comm d b, Int.mul_comm y b] at hby
  omega

theorem contains_mul (hx : a.contains x = true) (hy : b.contains y = true) :
    (a.mul b).contains (wrapI64 (x * y)) = true := by
  cases a with
  | bottom => cases hx
  | top => cases b <;> first | rfl | cases hy
  | range lo hi =>
    cases b with
    | bottom => cases hy
    | top => rfl
    | range lo' hi' =>
      rw [contains_range] at hx hy
      unfold mul
      simp only
      split
      · rename_i w p q z hw hp hq hz
        obtain ⟨rfl, hw⟩ := checkedI64_eq_some hw
        obtain ⟨rfl, hp⟩ := checkedI64_eq_some hp
        obtain ⟨rfl, hq⟩ := checkedI64_eq_some hq
        obtain ⟨rfl, hz⟩ := checkedI64_eq_some hz
        have hcorner := mul_corners hx.1 hx.2 hy.1 hy.2
        rw [wrapI64_of_range (by omega) (by omega)]
        exact contains_range.mpr hcorner
      · rfl

theorem contains_castNarrow {iv : Interval} (h : iv.contains v = true) (hlo : lo ≤ v) (hhi : v ≤ hi)
    :
    (iv.castNarrow lo hi).contains v = true :=
  contains_intersect h (contains_range.mpr ⟨hlo, hhi⟩)

end Interval

theorem boolIv_contains (h : t.Allows b) : (boolIv t).contains (boolVal b) = true := by
  cases t with
  | defTrue => cases h; rfl
  | defFalse => cases h; rfl
  | top => cases b <;> rfl

theorem triFromBoolIv_allows {iv : Interval} {v : Int} (h : iv.contains v = true) :
    (triFromBoolIv iv).Allows (v != 0) := by
  cases iv with
  | bottom => cases h
  | top => trivial
  | range lo hi =>
    rw [Interval.contains_range] at h
    simp only [triFromBoolIv]
    split
    · have hv : v = 0 := by omega
      rw [hv]
      rfl
    · split
      · have hv : v = 1 := by omega
        rw [hv]
        rfl
      · trivial

theorem triNot_allows (h : t.Allows b) : (triNot t).Allows (!b) := by
  cases t with
  | defTrue => cases h; rfl
  | defFalse => cases h; rfl
  | top => trivial

theorem triAnd_allows {s : Tri} {a : Bool} (ha : s.Allows a) (hb : t.Allows b) :
    (triAnd s t).Allows (a && b) := by
  cases s <;> cases t <;> simp_all [triAnd, Tri.Allows]

theorem triOr_allows {s : Tri} {a : Bool} (ha : s.Allows a) (hb : t.Allows b) :
    (triOr s t).Allows (a || b) := by
  cases s <;> cases t <;> simp_all [triOr, Tri.Allows]

theorem triOf_allows {yes no : Bool} (hyes : yes = true → b = true) (hno : no = true → b = false) :
    (triOf yes no).Allows b := by
  unfold triOf
  split
  · rename_i h
    exact hyes h
  · split
    · rename_i h
      exact hno h
    · trivial

theorem triCmp_allows {a b : Interval} {y : Int} {kind : CmpKind} (hx : a.contains x = true)
    (hy : b.contains y = true) : (triCmp a b kind).Allows (kind.holds x y) := by
  cases a with
  | bottom => cases hx
  | top => trivial
  | range aLo aHi =>
    cases b with
    | bottom => cases hy
    | top => trivial
    | range bLo bHi =>
      rw [Interval.contains_range] at hx hy
      cases kind with
      | lt =>
        refine triOf_allows ?_ ?_ <;> simp only [decide_eq_true_eq, CmpKind.holds,
          decide_eq_false_iff_not] <;> omega
      | le =>
        refine triOf_allows ?_ ?_ <;> simp only [decide_eq_true_eq, CmpKind.holds,
          decide_eq_false_iff_not] <;> omega
      | gt =>
        refine triOf_allows ?_ ?_ <;> simp only [decide_eq_true_eq, CmpKind.holds,
          decide_eq_false_iff_not] <;> omega
      | ge =>
        refine triOf_allows ?_ ?_ <;> simp only [decide_eq_true_eq, CmpKind.holds,
          decide_eq_false_iff_not] <;> omega
      | eq =>
        refine triOf_allows ?_ ?_ <;> simp only [decide_eq_true_eq, CmpKind.holds,
          decide_eq_false_iff_not, Bool.and_eq_true, Bool.or_eq_true] <;> omega
      | ne =>
        unfold triCmp
        simp only
        split
        · simp only [Tri.Allows, CmpKind.holds, decide_eq_false_iff_not]
          omega
        · split
          · simp only [Tri.Allows, CmpKind.holds, decide_eq_true_eq]
            omega
          · trivial

end Tyu

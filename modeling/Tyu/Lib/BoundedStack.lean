import Mathlib

/-! # Stacks and vectors of bounded length -/

namespace Lib

universe u v

/-- A list of at most `cap` entries. -/
@[ext]
structure BoundedStack (α : Type u) (cap : Nat) where
  items : List α
  bounded : items.length ≤ cap

namespace BoundedStack

variable {α : Type u} {β : Type v} {cap : Nat}

def empty : BoundedStack α cap := ⟨[], Nat.zero_le _⟩

def depth (s : BoundedStack α cap) : Nat := s.items.length

/-- Put `x` on top, or fail when the stack is full. -/
def push (s : BoundedStack α cap) (x : α) : Option (BoundedStack α cap) :=
  if h : s.items.length < cap then some ⟨x :: s.items, h⟩ else none

def pop (s : BoundedStack α cap) : Option (α × BoundedStack α cap) :=
  match s with
  | ⟨[], _⟩ => none
  | ⟨x :: rest, h⟩ => some (x, ⟨rest, Nat.le_of_succ_le h⟩)

/-- Take the `n` topmost entries off, topmost first. -/
def popN (s : BoundedStack α cap) (n : Nat) : Option (List α × BoundedStack α cap) :=
  if n ≤ s.items.length then
    some (s.items.take n, ⟨s.items.drop n, by
      rw [List.length_drop]; exact Nat.le_trans (Nat.sub_le _ _) s.bounded⟩)
  else none

/-- Push the entries of `xs` in turn; the last one ends on top. -/
def pushAll (s : BoundedStack α cap) : List α → Option (BoundedStack α cap)
  | [] => some s
  | x :: xs => (s.push x).bind fun s' => s'.pushAll xs

def map (f : α → β) (s : BoundedStack α cap) : BoundedStack β cap :=
  ⟨s.items.map f, by rw [List.length_map]; exact s.bounded⟩

@[simp] theorem map_items (f : α → β) (s : BoundedStack α cap) :
    (s.map f).items = s.items.map f := rfl

@[simp] theorem map_depth (f : α → β) (s : BoundedStack α cap) :
    (s.map f).depth = s.depth := List.length_map f

variable {s s' : BoundedStack α cap} {x : α}

theorem push_eq_some : s.push x = some s' ↔ s'.items = x :: s.items := by
  unfold push
  constructor
  · intro h
    split at h
    · cases h; rfl
    · cases h
  · intro h
    have hlt : s.items.length < cap := by
      have := s'.bounded
      rw [h] at this
      exact this
    rw [dif_pos hlt]
    exact congrArg some (BoundedStack.ext h.symm)

theorem push_eq_none : s.push x = none ↔ s.depth = cap := by
  have := s.bounded
  unfold push depth
  split <;> simp <;> omega

theorem pop_eq_some : s.pop = some (x, s') ↔ s.items = x :: s'.items := by
  obtain ⟨items, hb⟩ := s
  cases items with
  | nil => simp [pop]
  | cons y rest =>
    simp only [pop, Option.some.injEq, Prod.mk.injEq, List.cons.injEq]
    constructor
    · rintro ⟨rfl, rfl⟩
      exact ⟨rfl, rfl⟩
    · rintro ⟨rfl, h⟩
      exact ⟨rfl, BoundedStack.ext h⟩

theorem pop_eq_none : s.pop = none ↔ s.items = [] := by
  obtain ⟨items, hb⟩ := s
  cases items <;> simp [pop]

theorem popN_eq_some {n : Nat} {xs : List α} :
    s.popN n = some (xs, s') ↔ s.items = xs ++ s'.items ∧ xs.length = n := by
  unfold popN
  constructor
  · intro h
    split at h
    · rename_i hn
      simp only [Option.some.injEq, Prod.mk.injEq] at h
      obtain ⟨rfl, rfl⟩ := h
      exact ⟨(List.take_append_drop n s.items).symm, List.length_take_of_le hn⟩
    · cases h
  · rintro ⟨hitems, rfl⟩
    have hn : xs.length ≤ s.items.length := by rw [hitems]; simp
    rw [if_pos hn]
    have htake : s.items.take xs.length = xs := by rw [hitems]; simp
    have hdrop : s.items.drop xs.length = s'.items := by rw [hitems]; simp
    exact congrArg some (Prod.ext htake (BoundedStack.ext hdrop))

theorem popN_eq_none {n : Nat} : s.popN n = none ↔ s.depth < n := by
  unfold popN depth
  split <;> simp <;> omega

theorem pushAll_eq_some {xs : List α} :
    s.pushAll xs = some s' ↔ s'.items = xs.reverse ++ s.items := by
  induction xs generalizing s with
  | nil =>
    simp only [pushAll, Option.some.injEq, List.reverse_nil, List.nil_append]
    exact ⟨fun h => by rw [h], fun h => BoundedStack.ext h.symm⟩
  | cons x xs ih =>
    simp only [pushAll, List.reverse_cons, List.append_assoc, List.singleton_append]
    constructor
    · intro h
      obtain ⟨s₁, hpush, hrest⟩ := Option.bind_eq_some_iff.mp h
      rw [ih.mp hrest, push_eq_some.mp hpush]
    · intro h
      have hlt : s.items.length < cap := by
        have hb := s'.bounded
        rw [h] at hb
        simp only [List.length_append, List.length_cons] at hb
        omega
      have hpush : s.push x = some ⟨x :: s.items, hlt⟩ := push_eq_some.mpr rfl
      rw [hpush, Option.bind_some]
      exact ih.mpr h

/-! ## Operations commute with `map` -/

theorem push_map (f : α → β) (s : BoundedStack α cap) (x : α) :
    (s.map f).push (f x) = (s.push x).map (map f) := by
  cases h : s.push x with
  | none =>
    rw [push_eq_none] at h
    exact push_eq_none.mpr (by rw [map_depth, h])
  | some s' =>
    rw [push_eq_some] at h
    exact push_eq_some.mpr (by rw [map_items, map_items, h]; rfl)

theorem pop_map (f : α → β) (s : BoundedStack α cap) :
    (s.map f).pop = s.pop.map fun p => (f p.1, p.2.map f) := by
  cases h : s.pop with
  | none =>
    rw [pop_eq_none] at h
    exact pop_eq_none.mpr (by rw [map_items, h]; rfl)
  | some p =>
    obtain ⟨x, s'⟩ := p
    rw [pop_eq_some] at h
    exact pop_eq_some.mpr (by rw [map_items, h]; rfl)

theorem popN_map (f : α → β) (s : BoundedStack α cap) (n : Nat) :
    (s.map f).popN n = (s.popN n).map fun p => (p.1.map f, p.2.map f) := by
  cases h : s.popN n with
  | none =>
    rw [popN_eq_none] at h
    exact popN_eq_none.mpr (by rw [map_depth]; exact h)
  | some p =>
    obtain ⟨xs, s'⟩ := p
    rw [popN_eq_some] at h
    exact popN_eq_some.mpr ⟨by rw [map_items, h.1, List.map_append]; rfl,
      by rw [List.length_map]; exact h.2⟩

theorem pushAll_map (f : α → β) (s : BoundedStack α cap) (xs : List α) :
    (s.map f).pushAll (xs.map f) = (s.pushAll xs).map (map f) := by
  induction xs generalizing s with
  | nil => rfl
  | cons x xs ih =>
    simp only [List.map_cons, pushAll, push_map]
    cases s.push x with
    | none => rfl
    | some s₁ => exact ih s₁

end BoundedStack

end Lib

/-!
## Stack use of straight-line code

A straight-line run changes the depth of a stack again and again.  Two numbers describe it
to whoever runs it next: the change from its entry to its end, and the greatest depth above
its entry.  The greatest depth counts the entry itself, so it is never negative.

A `Use` is such a pair with a greatest depth that may be unbounded.  Uses compose like the
runs that they bound: `seq` for one run after the other, `alt` for either of two.
-/

namespace Lib

def peak : List Int → Nat
  | [] => 0
  | d :: ds => (d + peak ds).toNat

theorem peak_append (ds es : List Int) :
    peak (ds ++ es) = max (peak ds) (ds.sum + peak es).toNat := by
  induction ds with
  | nil => simp [peak]
  | cons d ds ih =>
    rw [List.cons_append, peak, ih, peak, List.sum_cons]
    omega

@[ext]
structure Use where
  net : Int
  peak : WithTop Nat

namespace Use

/-- A depth above the entry, seen from `d` below it. -/
def shift (d : Int) (p : WithTop Nat) : WithTop Nat := p.map fun n : Nat => (d + n).toNat

@[simp] theorem shift_top (d : Int) : shift d ⊤ = ⊤ := rfl

@[simp] theorem shift_coe (d : Int) (n : Nat) : shift d (.some n) = .some (d + n).toNat := rfl

def seq (a b : Use) : Use := ⟨a.net + b.net, max a.peak (shift a.net b.peak)⟩

def alt (a b : Use) : Use := ⟨a.net, max a.peak b.peak⟩

def nop : Use := ⟨0, .some 0⟩

def Bounds (a : Use) (ds : List Int) : Prop :=
  ds.sum = a.net ∧ .some (Lib.peak ds) ≤ a.peak

variable {a b c : Use} {ds es : List Int}

/-- **Sequencing is associative.**  What the second shift cuts off at zero lies below the
greatest depth of the run before. -/
theorem seq_assoc (a b c : Use) : (a.seq b).seq c = a.seq (b.seq c) := by
  obtain ⟨n, p⟩ := a
  obtain ⟨m, q⟩ := b
  obtain ⟨k, r⟩ := c
  have hpeak : max (max p (shift n q)) (shift (n + m) r) = max p (shift n (max q (shift m r))) := by
    cases p with
    | top => simp
    | coe x =>
      cases q with
      | top => simp
      | coe y =>
        cases r with
        | top => simp
        | coe z =>
          simp only [shift_coe, ← WithTop.coe_max]
          refine congrArg _ ?_
          omega
  exact Use.ext (Int.add_assoc n m k) hpeak

theorem alt_comm (h : a.net = b.net) : a.alt b = b.alt a := Use.ext h (max_comm _ _)

theorem alt_assoc (a b c : Use) : (a.alt b).alt c = a.alt (b.alt c) := Use.ext rfl (max_assoc _ _ _)

theorem alt_self (a : Use) : a.alt a = a := Use.ext rfl (max_self _)

theorem shift_mono (d : Int) {p q : WithTop Nat} (h : p ≤ q) : shift d p ≤ shift d q := by
  cases q with
  | top => simp
  | coe y =>
    cases p with
    | top => exact absurd h (by simp)
    | coe x =>
      rw [WithTop.coe_le_coe] at h
      rw [shift_coe, shift_coe, WithTop.coe_le_coe]
      omega

theorem Bounds.seq (ha : a.Bounds ds) (hb : b.Bounds es) : (a.seq b).Bounds (ds ++ es) := by
  obtain ⟨hnet, hpeak⟩ := ha
  refine ⟨by rw [List.sum_append, hnet, hb.1]; rfl, ?_⟩
  have hshift : .some (ds.sum + Lib.peak es).toNat ≤ shift a.net b.peak := by
    rw [hnet, ← shift_coe]
    exact shift_mono a.net hb.2
  rw [peak_append, WithTop.coe_max]
  exact max_le (hpeak.trans (le_max_left _ _)) (hshift.trans (le_max_right _ _))

theorem Bounds.alt_left (ha : a.Bounds ds) (b : Use) : (a.alt b).Bounds ds :=
  ⟨ha.1, ha.2.trans (le_max_left _ _)⟩

theorem Bounds.alt_right (hb : b.Bounds ds) (h : a.net = b.net) : (a.alt b).Bounds ds :=
  ⟨hb.1.trans h.symm, hb.2.trans (le_max_right _ _)⟩

end Use

end Lib

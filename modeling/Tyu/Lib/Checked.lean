import Mathlib.Data.List.Basic

/-! # Computations that may fail -/

namespace Lib

universe u v w

variable {ε : Type u} {α : Type v} {β : Type v}

/-- Go on when `c` holds and report `e` otherwise. -/
def require (c : Prop) [Decidable c] (e : ε) : Except ε PUnit.{v + 1} :=
  if c then .ok ⟨⟩ else .error e

/-- The value of an option, or the error `e` when there is none. -/
def expect (o : Option α) (e : ε) : Except ε α :=
  match o with
  | some a => .ok a
  | none => .error e

variable {e : ε} {a : α} {xs : List α} {ys : List β}

theorem require_eq_ok {c : Prop} [Decidable c] {u : PUnit.{v + 1}} : require c e = .ok u ↔ c := by
  unfold require
  split <;> simp_all

theorem expect_eq_ok {o : Option α} : expect o e = .ok a ↔ o = some a := by
  unfold expect
  cases o <;> simp

theorem bind_eq_ok {x : Except ε α} {f : α → Except ε β} {b : β} :
    (x >>= f) = .ok b ↔ ∃ a, x = .ok a ∧ f a = .ok b := by
  cases x with
  | error e => simp [bind, Except.bind]
  | ok a => simp [bind, Except.bind]

theorem pure_eq_ok {b : α} : (pure a : Except ε α) = .ok b ↔ a = b := by
  simp [pure, Except.pure]

theorem throw_ne_ok : (throw e : Except ε α) ≠ .ok a := by
  simp [throw, throwThe, MonadExceptOf.throw]

theorem mapM_eq_ok {f : α → Except ε β} (h : xs.mapM f = .ok ys) {y : β} (hy : y ∈ ys) :
    ∃ x ∈ xs, f x = .ok y := by
  induction xs generalizing ys with
  | nil =>
    rw [List.mapM_nil, pure_eq_ok] at h
    subst h
    cases hy
  | cons x xs ih =>
    rw [List.mapM_cons] at h
    simp only [bind_eq_ok, pure_eq_ok] at h
    obtain ⟨y', hx, ys', hxs, rfl⟩ := h
    rcases List.mem_cons.mp hy with rfl | hy
    · exact ⟨x, List.mem_cons_self .., hx⟩
    · obtain ⟨x', hx', hf⟩ := ih hxs hy
      exact ⟨x', List.mem_cons_of_mem _ hx', hf⟩

theorem mapM_of_mem {f : α → Except ε β} (h : xs.mapM f = .ok ys) {x : α} (hx : x ∈ xs) :
    ∃ y ∈ ys, f x = .ok y := by
  induction xs generalizing ys with
  | nil => cases hx
  | cons x' xs ih =>
    rw [List.mapM_cons] at h
    simp only [bind_eq_ok, pure_eq_ok] at h
    obtain ⟨y', hy', ys', hxs, rfl⟩ := h
    rcases List.mem_cons.mp hx with rfl | hx
    · exact ⟨y', List.mem_cons_self .., hy'⟩
    · obtain ⟨y, hy, hf⟩ := ih hxs hx
      exact ⟨y, List.mem_cons_of_mem _ hy, hf⟩

theorem length_mapM {f : α → Except ε β} (h : xs.mapM f = .ok ys) : ys.length = xs.length := by
  induction xs generalizing ys with
  | nil =>
    rw [List.mapM_nil, pure_eq_ok] at h
    rw [← h]
    rfl
  | cons x xs ih =>
    rw [List.mapM_cons] at h
    simp only [bind_eq_ok, pure_eq_ok] at h
    obtain ⟨y, -, ys', hxs, rfl⟩ := h
    rw [List.length_cons, List.length_cons, ih hxs]

theorem mapM_nil_eq_ok {f : α → Except ε β} : ([] : List α).mapM f = .ok ys ↔ ys = [] := by
  rw [List.mapM_nil, pure_eq_ok, eq_comm]

theorem mapM_cons_eq_ok {f : α → Except ε β} {x : α} :
    (x :: xs).mapM f = .ok ys ↔ ∃ y rest, f x = .ok y ∧ xs.mapM f = .ok rest ∧ ys = y :: rest := by
  rw [List.mapM_cons]
  simp only [bind_eq_ok, pure_eq_ok]
  constructor
  · rintro ⟨y, hy, rest, hrest, rfl⟩
    exact ⟨y, rest, hy, hrest, rfl⟩
  · rintro ⟨y, rest, hy, hrest, rfl⟩
    exact ⟨y, hy, rest, hrest, rfl⟩

theorem mapM_flatMap {γ : Type v} {f : α → Except ε (List γ)} {g : α → List β} {e : β → Except ε γ}
    (hpart : ∀ x part, f x = .ok part → (g x).mapM e = .ok part) {parts : List (List γ)}
    (h : xs.mapM f = .ok parts) : (xs.flatMap g).mapM e = .ok parts.flatten := by
  induction xs generalizing parts with
  | nil =>
    rw [mapM_nil_eq_ok.mp h]
    exact mapM_nil_eq_ok.mpr rfl
  | cons x xs ih =>
    obtain ⟨part, rest, hx, hrest, rfl⟩ := mapM_cons_eq_ok.mp h
    rw [List.flatMap_cons, List.mapM_append, hpart x part hx]
    simp only [bind_eq_ok, pure_eq_ok]
    exact ⟨part, rfl, rest.flatten, ih hrest, rfl⟩

theorem filterMap_eq_of_mapM {γ δ : Type v} {f : α → Except ε β} {p : β → Option γ}
    {q : γ → Except ε δ} {r : α → Option δ} (hnone : ∀ x y, f x = .ok y → p y = none → r x = none)
    (hsome : ∀ x y i z, f x = .ok y → p y = some i → q i = .ok z → r x = some z) {zs : List δ}
    (hf : xs.mapM f = .ok ys) (hq : (ys.filterMap p).mapM q = .ok zs) : xs.filterMap r = zs := by
  induction xs generalizing ys zs with
  | nil =>
    rw [mapM_nil_eq_ok.mp hf] at hq
    rw [mapM_nil_eq_ok.mp hq]
    rfl
  | cons x xs ih =>
    obtain ⟨y, rest, hx, hrest, rfl⟩ := mapM_cons_eq_ok.mp hf
    cases hy : p y with
    | none =>
      rw [List.filterMap_cons_none hy] at hq
      rw [List.filterMap_cons_none (hnone x y hx hy)]
      exact ih hrest hq
    | some i =>
      rw [List.filterMap_cons_some hy] at hq
      obtain ⟨z, tail, hz, htail, rfl⟩ := mapM_cons_eq_ok.mp hq
      rw [List.filterMap_cons_some (hsome x y i z hx hy hz), ih hrest htail]

section Fold

variable {σ : Type v} {τ : Type w} {f : σ → τ → Except ε σ}

variable {xs : List τ} {s s' : σ}

theorem foldlM_append_eq_ok {ys : List τ} :
    (xs ++ ys).foldlM f s = .ok s' ↔
      ∃ m, xs.foldlM f s = .ok m ∧ ys.foldlM f m = .ok s' := by
  rw [List.foldlM_append]
  exact bind_eq_ok

theorem foldlM_cons_eq_ok {x : τ} :
    (x :: xs).foldlM f s = .ok s' ↔ ∃ m, f s x = .ok m ∧ xs.foldlM f m = .ok s' := by
  rw [List.foldlM_cons]
  exact bind_eq_ok

theorem foldlM_nil_eq_ok : ([] : List τ).foldlM f s = .ok s' ↔ s = s' := by
  rw [List.foldlM_nil]
  exact pure_eq_ok

/-- The entry at position `i` of an accepted list was accepted from the state that
the entries before it left. -/
theorem foldlM_at {m : σ} {i : Nat} {x : τ} (hall : xs.foldlM f s = .ok s')
    (hpre : (xs.take i).foldlM f s = .ok m) (hx : xs[i]? = some x) :
    ∃ m', f m x = .ok m' ∧ (xs.take (i + 1)).foldlM f s = .ok m' := by
  have hi : i < xs.length := (List.getElem?_eq_some_iff.mp hx).1
  have hxi : xs[i] = x := (List.getElem?_eq_some_iff.mp hx).2
  rw [← List.take_append_drop i xs, foldlM_append_eq_ok] at hall
  obtain ⟨m₀, hm₀, hrest⟩ := hall
  rw [hpre] at hm₀
  cases hm₀
  rw [List.drop_eq_getElem_cons hi, hxi, foldlM_cons_eq_ok] at hrest
  obtain ⟨m', hstep, -⟩ := hrest
  refine ⟨m', hstep, ?_⟩
  rw [List.take_succ_eq_append_getElem hi, hxi, foldlM_append_eq_ok]
  exact ⟨m, hpre, by rw [foldlM_cons_eq_ok]; exact ⟨m', hstep, foldlM_nil_eq_ok.mpr rfl⟩⟩

theorem forM_eq_ok {g : τ → Except ε PUnit.{v + 1}} {u : PUnit.{v + 1}} :
    xs.forM g = .ok u ↔ ∀ x ∈ xs, g x = .ok ⟨⟩ := by
  induction xs with
  | nil => simp [pure, Except.pure]
  | cons x xs ih =>
    change (g x >>= fun _ => xs.forM g) = .ok u ↔ _
    rw [bind_eq_ok]
    constructor
    · rintro ⟨⟨⟩, hx, hxs⟩ y hy
      rcases List.mem_cons.mp hy with rfl | hy
      · exact hx
      · exact ih.mp hxs y hy
    · intro h
      exact ⟨⟨⟩, h x (List.mem_cons_self ..), ih.mpr fun y hy => h y (List.mem_cons_of_mem _ hy)⟩

end Fold

end Lib

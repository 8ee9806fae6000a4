import Mathlib.Data.List.Basic
import Mathlib.Tactic.Common

/-! # Parsers with checked sites -/

namespace Lib

/-- The result of a run: a value, the position behind it and the sites on the way. -/
abbrev SiteResult (κ ε α : Type) := Except ε (α × Nat × List κ)

structure SiteParser (τ κ ε α : Type) where
  run : (κ → Bool) → List τ → Nat → SiteResult κ ε α
  checked : ∀ pass inp i r, run pass inp i = .ok r ↔
    run (fun _ => true) inp i = .ok r ∧ r.2.2.all pass = true
  forward : ∀ pass inp i r, run pass inp i = .ok r → i ≤ r.2.1 ∧ r.2.1 ≤ max i inp.length

namespace SiteParser

variable {τ κ ε α β σ : Type}

/-! ## Combinators -/

protected def pure (a : α) : SiteParser τ κ ε α where
  run _ _ i := .ok (a, i, [])
  checked pass inp i r := by
    constructor
    · intro h
      cases h
      exact ⟨rfl, rfl⟩
    · exact fun h => h.1
  forward pass inp i r h := by
    cases h
    exact ⟨Nat.le_refl i, Nat.le_max_left i _⟩

def andThen (first : SiteResult κ ε α) (next : α → Nat → SiteResult κ ε β) : SiteResult κ ε β :=
  match first with
  | .error e => .error e
  | .ok (a, j, l) =>
    match next a j with
    | .error e => .error e
    | .ok (b, k, l') => .ok (b, k, l ++ l')

theorem andThen_eq_ok {first : SiteResult κ ε α} {next : α → Nat → SiteResult κ ε β} {b : β}
    {k : Nat} {sites : List κ} : andThen first next = .ok (b, k, sites) ↔
      ∃ a j l l', first = .ok (a, j, l) ∧ next a j = .ok (b, k, l') ∧ sites = l ++ l' := by
  unfold andThen
  constructor
  · intro h
    split at h
    · cases h
    · rename_i a j l
      split at h
      · cases h
      · rename_i b' k' l' hnext
        cases h
        exact ⟨a, j, l, l', rfl, hnext, rfl⟩
  · rintro ⟨a, j, l, l', rfl, hnext, rfl⟩
    simp only [hnext]

protected def bind (p : SiteParser τ κ ε α) (f : α → SiteParser τ κ ε β) :
    SiteParser τ κ ε β where
  run pass inp i := andThen (p.run pass inp i) fun a j => (f a).run pass inp j
  checked pass inp i r := by
    obtain ⟨b, k, sites⟩ := r
    rw [andThen_eq_ok, andThen_eq_ok]
    constructor
    · rintro ⟨a, j, l, l', hp, hf, rfl⟩
      obtain ⟨hp, hl⟩ := (p.checked pass inp i _).mp hp
      obtain ⟨hf, hl'⟩ := ((f a).checked pass inp j _).mp hf
      refine ⟨⟨a, j, l, l', hp, hf, rfl⟩, ?_⟩
      rw [List.all_append, Bool.and_eq_true]
      exact ⟨hl, hl'⟩
    · rintro ⟨⟨a, j, l, l', hp, hf, rfl⟩, hall⟩
      rw [List.all_append, Bool.and_eq_true] at hall
      exact ⟨a, j, l, l', (p.checked pass inp i _).mpr ⟨hp, hall.1⟩,
        ((f a).checked pass inp j _).mpr ⟨hf, hall.2⟩, rfl⟩
  forward pass inp i r h := by
    obtain ⟨b, k, sites⟩ := r
    obtain ⟨a, j, l, l', hp, hf, -⟩ := andThen_eq_ok.mp h
    have hfirst : i ≤ j ∧ j ≤ max i inp.length := p.forward pass inp i _ hp
    have hnext : j ≤ k ∧ k ≤ max j inp.length := (f a).forward pass inp j _ hf
    show i ≤ k ∧ k ≤ max i inp.length
    omega

instance : Monad (SiteParser τ κ ε) where
  pure := SiteParser.pure
  bind := SiteParser.bind

def fail (e : ε) : SiteParser τ κ ε α where
  run _ _ _ := .error e
  checked pass inp i r := by
    constructor
    · exact fun h => nomatch h
    · exact fun h => nomatch h.1
  forward pass inp i r h := nomatch h

def peek (n : Nat) : SiteParser τ κ ε (Option τ) where
  run _ inp i := .ok (inp[i + n]?, i, [])
  checked pass inp i r := by
    constructor
    · intro h
      cases h
      exact ⟨rfl, rfl⟩
    · exact fun h => h.1
  forward pass inp i r h := by
    cases h
    exact ⟨Nat.le_refl i, Nat.le_max_left i _⟩

def here : SiteParser τ κ ε Nat where
  run _ _ i := .ok (i, i, [])
  checked pass inp i r := by
    constructor
    · intro h
      cases h
      exact ⟨rfl, rfl⟩
    · exact fun h => h.1
  forward pass inp i r h := by
    cases h
    exact ⟨Nat.le_refl i, Nat.le_max_left i _⟩

def advance : SiteParser τ κ ε Unit where
  run _ inp i := .ok ((), min (i + 1) (max i inp.length), [])
  checked pass inp i r := by
    constructor
    · intro h
      cases h
      exact ⟨rfl, rfl⟩
    · exact fun h => h.1
  forward pass inp i r h := by
    cases h
    show i ≤ min (i + 1) (max i inp.length) ∧ min (i + 1) (max i inp.length) ≤ max i inp.length
    omega

def check (site : κ) (e : ε) : SiteParser τ κ ε Unit where
  run pass _ i := if pass site then .ok ((), i, [site]) else .error e
  checked pass inp i r := by
    by_cases hp : pass site = true
    · rw [if_pos hp]
      constructor
      · intro h
        cases h
        exact ⟨rfl, by simpa using hp⟩
      · exact fun h => h.1
    · rw [if_neg hp]
      constructor
      · exact fun h => nomatch h
      · rintro ⟨h, hall⟩
        cases h
        exact absurd (by simpa using hall) hp
  forward pass inp i r h := by
    by_cases hp : pass site = true
    · rw [if_pos hp] at h
      cases h
      exact ⟨Nat.le_refl i, Nat.le_max_left i _⟩
    · rw [if_neg hp] at h
      cases h

def turns (stuck : ε) (body : σ → SiteParser τ κ ε (σ ⊕ β)) : Nat → σ → SiteParser τ κ ε β
  | 0, _ => fail stuck
  | n + 1, s => do
    match ← body s with
    | .inl s' => turns stuck body n s'
    | .inr b => pure b

/-- Turn after turn until one ends the loop.  A turn that goes on takes a token, so there are
never more of them than tokens. -/
def loop (stuck : ε) (body : σ → SiteParser τ κ ε (σ ⊕ β)) (s : σ) : SiteParser τ κ ε β where
  run pass inp i := (turns stuck body (inp.length + 1) s).run pass inp i
  checked pass inp i r := (turns stuck body (inp.length + 1) s).checked pass inp i r
  forward pass inp i r h := (turns stuck body (inp.length + 1) s).forward pass inp i r h

section Runs

variable {p : SiteParser τ κ ε α} {f : α → SiteParser τ κ ε β} {pass : κ → Bool} {inp : List τ}
  {i : Nat}

theorem run_loop {stuck : ε} {body : σ → SiteParser τ κ ε (σ ⊕ β)} {s : σ} :
    (loop stuck body s).run pass inp i = (turns stuck body (inp.length + 1) s).run pass inp i :=
  rfl

theorem run_bind_eq_ok {b : β} {k : Nat} {sites : List κ} :
    (p >>= f).run pass inp i = .ok (b, k, sites) ↔
      ∃ a j l l', p.run pass inp i = .ok (a, j, l) ∧ (f a).run pass inp j = .ok (b, k, l') ∧
        sites = l ++ l' := andThen_eq_ok

theorem run_unique {pass' : κ → Bool} {r r' : α × Nat × List κ} (h : p.run pass inp i = .ok r)
    (h' : p.run pass' inp i = .ok r') : r = r' :=
  Except.ok.inj
    (((p.checked pass inp i r).mp h).1.symm.trans ((p.checked pass' inp i r').mp h').1)

end Runs

end SiteParser

end Lib

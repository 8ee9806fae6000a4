import Tyu.Lib.Wire

/-! # Readers that may run off the end -/

namespace Lib.Wire

inductive Stop (ε : Type) where
  | error (e : ε)
  | outOfRange

def Reader (ε α : Type) := Bytes → Except (Stop ε) (α × Bytes)

namespace Reader

variable {ε α β : Type}

instance : Monad (Reader ε) where
  pure a := fun bs => .ok (a, bs)
  bind r f := fun bs =>
    match r bs with
    | .error e => .error e
    | .ok (a, rest) => f a rest

def fail (e : ε) : Reader ε α := fun _ => .error (.error e)

def require (c : Prop) [Decidable c] (e : ε) : Reader ε Unit := if c then pure () else fail e

def byte : Reader ε UInt8
  | [] => .error .outOfRange
  | b :: rest => .ok (b, rest)

def take (n : Nat) : Reader ε Bytes := fun bs =>
  if bs.length < n then .error .outOfRange else .ok (bs.take n, bs.drop n)

def u32 : Reader ε UInt32 := do return UInt32.ofNat (getLE (← take 4))
def u64 : Reader ε UInt64 := do return UInt64.ofNat (getLE (← take 8))

def times : Nat → Reader ε α → Reader ε (List α)
  | 0, _ => pure []
  | n + 1, r => do
    let a ← r
    let as ← times n r
    return a :: as

/-! ## What is read -/

variable {bs rest : Bytes} {r : Reader ε α} {f : α → Reader ε β} {e : ε}

theorem bind_apply : (r >>= f) bs =
    match r bs with
    | Except.error e => Except.error e
    | Except.ok (a, rest) => f a rest := rfl

theorem bind_ok {b : β} : (r >>= f) bs = .ok (b, rest) ↔
    ∃ a mid, r bs = .ok (a, mid) ∧ f a mid = .ok (b, rest) := by
  rw [bind_apply]
  cases h : r bs with
  | error e => simp
  | ok p =>
    obtain ⟨a, mid⟩ := p
    constructor
    · intro hf
      exact ⟨a, mid, rfl, hf⟩
    · rintro ⟨a', mid', heq, hf⟩
      cases heq
      exact hf

theorem pure_ok {a b : α} : (pure a : Reader ε α) bs = .ok (b, rest) ↔ b = a ∧ rest = bs := by
  show Except.ok (a, bs) = Except.ok (b, rest) ↔ _
  rw [Except.ok.injEq, Prod.mk.injEq, eq_comm (a := a), eq_comm (a := bs)]

theorem fail_ok {a : α} : (fail e : Reader ε α) bs ≠ .ok (a, rest) := fun h => nomatch h

theorem require_ok {c : Prop} [Decidable c] {u : Unit} :
    (require c e : Reader ε Unit) bs = .ok (u, rest) ↔ c ∧ rest = bs := by
  unfold require
  by_cases hc : c
  · rw [if_pos hc, pure_ok]
    simp [hc]
  · rw [if_neg hc]
    simp [hc, fail_ok]

theorem byte_ok {b : UInt8} : (byte : Reader ε UInt8) bs = .ok (b, rest) ↔ bs = b :: rest := by
  cases bs with
  | nil => exact ⟨(fun h => nomatch h), (fun h => nomatch h)⟩
  | cons c cs =>
    show Except.ok (c, cs) = Except.ok (b, rest) ↔ _
    rw [Except.ok.injEq, Prod.mk.injEq, List.cons.injEq]

theorem take_ok {n : Nat} {xs : Bytes} :
    (take n : Reader ε Bytes) bs = .ok (xs, rest) ↔ bs = xs ++ rest ∧ xs.length = n := by
  unfold take
  by_cases hn : bs.length < n
  · rw [if_pos hn]
    constructor
    · intro h
      cases h
    · rintro ⟨rfl, hlen⟩
      rw [List.length_append] at hn
      omega
  · rw [if_neg hn, Except.ok.injEq, Prod.mk.injEq]
    constructor
    · rintro ⟨rfl, rfl⟩
      exact ⟨(List.take_append_drop n bs).symm, List.length_take_of_le (by omega)⟩
    · rintro ⟨rfl, hlen⟩
      exact ⟨List.take_left' hlen, List.drop_left' hlen⟩

theorem take_number {n : Nat} {v : α} {ofNat : Nat → α} {toNat : α → Nat}
    (hlt : ∀ v, toNat v < 256 ^ n) (hof : ∀ v, ofNat (toNat v) = v)
    (hto : ∀ k, k < 256 ^ n → toNat (ofNat k) = k) :
    (do return ofNat (getLE (← take n)) : Reader ε α) bs = .ok (v, rest) ↔
      bs = putLE n (toNat v) ++ rest := by
  rw [bind_ok]
  simp only [take_ok, pure_ok]
  constructor
  · rintro ⟨xs, mid, ⟨rfl, hlen⟩, rfl, rfl⟩
    have hget := getLE_lt xs
    rw [hlen] at hget
    rw [hto _ hget, ← hlen, putLE_getLE]
  · rintro rfl
    exact ⟨_, _, ⟨rfl, length_putLE ..⟩, by rw [getLE_putLE (hlt v), hof], rfl⟩

theorem u32_ok {v : UInt32} :
    (u32 : Reader ε UInt32) bs = .ok (v, rest) ↔ bs = put32 v ++ rest :=
  take_number (fun v => v.toNat_lt) (fun _ => UInt32.ofNat_toNat)
    (fun _ h => UInt32.toNat_ofNat_of_lt' h)

theorem u64_ok {v : UInt64} :
    (u64 : Reader ε UInt64) bs = .ok (v, rest) ↔ bs = put64 v ++ rest :=
  take_number (fun v => v.toNat_lt) (fun _ => UInt64.ofNat_toNat)
    (fun _ h => UInt64.toNat_ofNat_of_lt' h)

def Takes (r : Reader ε α) (enc : α → Bytes) (valid : α → Prop) : Prop :=
  ∀ bs a rest, r bs = .ok (a, rest) ↔ valid a ∧ bs = enc a ++ rest

variable {enc : α → Bytes} {valid : α → Prop}

theorem Takes.times (h : Takes r enc valid) (n : Nat) :
    Takes (times n r) (fun as => as.flatMap enc)
      (fun as => as.length = n ∧ ∀ a ∈ as, valid a) := by
  induction n with
  | zero =>
    intro bs as rest
    show (pure [] : Reader ε (List α)) bs = _ ↔ _
    rw [pure_ok]
    constructor
    · rintro ⟨rfl, rfl⟩
      simp
    · rintro ⟨⟨hlen, _⟩, hbs⟩
      rw [List.eq_nil_of_length_eq_zero hlen] at hbs ⊢
      exact ⟨rfl, hbs.symm⟩
  | succ n ih =>
    intro bs as rest
    show (r >>= fun a => Reader.times n r >>= fun as => pure (a :: as)) bs = _ ↔ _
    simp only [bind_ok, pure_ok, h _ _ _, ih _ _ _]
    constructor
    · rintro ⟨a, mid, ⟨ha, rfl⟩, as', mid', ⟨⟨hlen, hvalid⟩, rfl⟩, rfl, rfl⟩
      refine ⟨⟨by simp [hlen], ?_⟩, by simp⟩
      intro a' ha'
      rcases List.mem_cons.mp ha' with rfl | ha'
      · exact ha
      · exact hvalid a' ha'
    · rintro ⟨⟨hlen, hvalid⟩, rfl⟩
      cases as with
      | nil => cases hlen
      | cons a as =>
        refine ⟨a, as.flatMap enc ++ rest, ⟨hvalid a (List.mem_cons_self ..), by simp⟩, as, rest,
          ⟨⟨by simpa using hlen, fun a' ha' => hvalid a' (List.mem_cons_of_mem _ ha')⟩, rfl⟩, rfl,
          rfl⟩

end Reader

end Lib.Wire

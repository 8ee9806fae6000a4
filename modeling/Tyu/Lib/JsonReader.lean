import Tyu.Lib.Json

/-! # Streaming readers of JSON texts -/

namespace Lib.Json

universe u

variable {ε α β σ : Type}

abbrev Reader (ε : Type) (α : Type) := StateT Bytes (Except ε) α

def isSpace (b : UInt8) : Bool := b = 0x20 || b = 0x0A || b = 0x0D || b = 0x09

def skipWs : Reader ε Unit := modify fun bytes => bytes.dropWhile isSpace

def peek : Reader ε (Option UInt8) := do
  let bytes ← get
  pure bytes.head?

def advance : Reader ε Unit := modify List.tail

def bump (bad : ε) : Reader ε UInt8 := do
  match ← get with
  | [] => throw bad
  | b :: rest =>
    set rest
    pure b

def expectByte (bad : ε) (want : UInt8) : Reader ε Unit := do
  skipWs
  let b ← bump bad
  if b ≠ want then throw bad

/-- The members of an object, each handed to `member` with its key.  Every round consumes
a byte, so the length of the text is fuel enough. -/
def objectLoop (bad : ε) (key : Reader ε String) (member : String → σ → Reader ε σ) :
    Nat → σ → Reader ε σ
  | 0, _ => throw bad
  | fuel + 1, s => do
    skipWs
    let next ← peek
    if next = some 0x7D then
      advance
      pure s
    else
      if next = some 0x2C then
        advance
      skipWs
      let k ← key
      expectByte bad 0x3A
      let s ← member k s
      objectLoop bad key member fuel s

def readObject (bad : ε) (key : Reader ε String) (member : String → σ → Reader ε σ) (s : σ) :
    Reader ε σ := do
  expectByte bad 0x7B
  let rest ← get
  objectLoop bad key member (rest.length + 1) s

def arrayLoop (bad : ε) (item : Reader ε α) : Nat → List α → Reader ε (List α)
  | 0, _ => throw bad
  | fuel + 1, out => do
    skipWs
    let next ← peek
    if next = some 0x5D then
      advance
      pure out
    else
      if next = some 0x2C then
        advance
      skipWs
      if (← peek) = some 0x5D then
        advance
        pure out
      else
        let x ← item
        arrayLoop bad item fuel (out ++ [x])

def readArray (bad : ε) (item : Reader ε α) : Reader ε (List α) := do
  expectByte bad 0x5B
  let rest ← get
  arrayLoop bad item (rest.length + 1) []

/-- On `text`, whatever follows it, the reader answers `v` when `good` and fails when not. -/
structure Reads (p : Reader ε α) (bad : ε) (text : Bytes) (good : Prop) (v : α) : Prop where
  accept : good → ∀ rest, Follow rest → p.run (text ++ rest) = .ok (v, rest)
  refuse : ¬ good → ∀ rest, Follow rest → p.run (text ++ rest) = .error bad

namespace Reads

variable {p : Reader ε α} {bad : ε} {text : Bytes} {good : Prop} {v : α}

theorem congr {good' : Prop} (h : Reads p bad text good v) (hgood : good ↔ good') :
    Reads p bad text good' v where
  accept hg := h.accept (hgood.mpr hg)
  refuse hg := h.refuse fun hn => hg (hgood.mp hn)

theorem bind {f : α → Reader ε β} {w : β} (h : Reads p bad text good v)
    (hf : ∀ rest, (f v).run rest = .ok (w, rest)) : Reads (p >>= f) bad text good w where
  accept hg rest hrest := by
    rw [StateT.run_bind, h.accept hg rest hrest]
    exact hf rest
  refuse hg rest hrest := by
    rw [StateT.run_bind, h.refuse hg rest hrest]
    rfl

theorem map (h : Reads p bad text good v) (f : α → β) :
    Reads (do let a ← p; pure (f a)) bad text good (f v) :=
  h.bind fun _ => rfl

end Reads

/-! ## Steps of the loops -/

variable {bad : ε}

theorem run_get_bind (f : Bytes → Reader ε α) (bytes : Bytes) :
    (get >>= f : Reader ε α).run bytes = (f bytes).run bytes := rfl

theorem run_bump_bind (f : UInt8 → Reader ε α) (b : UInt8) (rest : Bytes) :
    (bump bad >>= f).run (b :: rest) = (f b).run rest := rfl

theorem run_skipWs_of_head {b : UInt8} {rest : Bytes} (h : isSpace b = false) :
    (skipWs : Reader ε Unit).run (b :: rest) = .ok ((), b :: rest) := by
  have hdrop : (b :: rest).dropWhile isSpace = b :: rest := by simp [h]
  show Except.ok ((), (b :: rest).dropWhile isSpace) = _
  rw [hdrop]

theorem run_skipWs_bind {b : UInt8} {rest : Bytes} (h : isSpace b = false)
    (f : Unit → Reader ε α) : (skipWs >>= f).run (b :: rest) = (f ()).run (b :: rest) := by
  rw [StateT.run_bind, run_skipWs_of_head h]
  rfl

theorem run_expectByte {b : UInt8} {rest : Bytes} (h : isSpace b = false) :
    (expectByte bad b).run (b :: rest) = .ok ((), rest) := by
  unfold expectByte
  rw [run_skipWs_bind h, run_bump_bind, if_neg (fun hne => hne rfl)]
  rfl

variable {key : Reader ε String} {member : String → σ → Reader ε σ}

theorem run_objectLoop_close (fuel : Nat) (s : σ) (rest : Bytes) :
    (objectLoop bad key member (fuel + 1) s).run (0x7D :: rest) = .ok (s, rest) := by
  unfold objectLoop
  rw [StateT.run_bind, run_skipWs_of_head (by decide)]
  rfl

theorem run_objectLoop_comma (fuel : Nat) (s : σ) (rest : Bytes) :
    (objectLoop bad key member (fuel + 1) s).run (0x2C :: 0x22 :: rest) =
      (objectLoop bad key member (fuel + 1) s).run (0x22 :: rest) := by
  unfold objectLoop
  rw [StateT.run_bind, run_skipWs_of_head (by decide), StateT.run_bind,
    run_skipWs_of_head (by decide)]
  rfl

theorem run_objectLoop_member (fuel : Nat) (s : σ) (rest : Bytes) :
    (objectLoop bad key member (fuel + 1) s).run (0x22 :: rest) =
      (do let k ← key
          expectByte bad 0x3A
          let s ← member k s
          objectLoop bad key member fuel s : Reader ε σ).run (0x22 :: rest) := by
  rw [objectLoop, StateT.run_bind, run_skipWs_of_head (by decide)]
  rfl

structure ReadsMembers (bad : ε) (key : Reader ε String) (member : String → σ → Reader ε σ)
    (s : σ) (ms : List (String × Json)) (good : Prop) (s' : σ) : Prop where
  accept : good → ∀ fuel rest, ms.length < fuel →
    (objectLoop bad key member fuel s).run (writeMembers ms ++ 0x7D :: rest) = .ok (s', rest)
  refuse : ¬ good → ∀ fuel rest, ms.length < fuel →
    (objectLoop bad key member fuel s).run (writeMembers ms ++ 0x7D :: rest) = .error bad

namespace ReadsMembers

variable {s s₁ s₂ : σ} {k : String} {j : Json} {ms : List (String × Json)} {a b : Prop}

theorem nil : ReadsMembers bad key member s [] True s where
  accept _ fuel rest hfuel := by
    obtain ⟨n, rfl⟩ := Nat.exists_eq_add_one_of_ne_zero (Nat.ne_zero_of_lt hfuel)
    exact run_objectLoop_close n s rest
  refuse h := absurd trivial h

theorem run_cons (hkey : Reads key bad (quote k) True k) (fuel : Nat) (rest : Bytes) :
    (objectLoop bad key member (fuel + 1) s).run (0x2C :: (quote k ++ 0x3A :: rest)) =
      (do let s ← member k s; objectLoop bad key member fuel s : Reader ε σ).run rest := by
  have hquote : ∃ t, quote k ++ 0x3A :: rest = 0x22 :: t := ⟨_, rfl⟩
  obtain ⟨t, ht⟩ := hquote
  rw [ht, run_objectLoop_comma, run_objectLoop_member, ← ht, StateT.run_bind,
    hkey.accept trivial _ (follow_colon rest)]
  show (expectByte bad 0x3A >>= fun _ => member k s >>= objectLoop bad key member fuel :
    Reader ε σ).run (0x3A :: rest) = _
  rw [StateT.run_bind, run_expectByte (by decide)]
  rfl

theorem cons (hkey : Reads key bad (quote k) True k)
    (hmember : Reads (member k s) bad (write j) a s₁)
    (hrest : ReadsMembers bad key member s₁ ms b s₂) :
    ReadsMembers bad key member s ((k, j) :: ms) (a ∧ b) s₂ := by
  have hstep : ∀ n rest, (objectLoop bad key member (n + 1) s).run
      (writeMembers ((k, j) :: ms) ++ 0x7D :: rest) =
      (do let s ← member k s; objectLoop bad key member n s : Reader ε σ).run
        (write j ++ (writeMembers ms ++ 0x7D :: rest)) := by
    intro n rest
    rw [← run_cons hkey]
    simp only [writeMembers, List.cons_append, List.append_assoc]
  constructor
  · intro hgood fuel rest hfuel
    obtain ⟨n, rfl⟩ := Nat.exists_eq_add_one_of_ne_zero (Nat.ne_zero_of_lt hfuel)
    rw [hstep, StateT.run_bind, hmember.accept hgood.1 _ (follow_writeMembers ms rest)]
    exact hrest.accept hgood.2 n rest (by simpa using hfuel)
  · intro hbad fuel rest hfuel
    obtain ⟨n, rfl⟩ := Nat.exists_eq_add_one_of_ne_zero (Nat.ne_zero_of_lt hfuel)
    rw [hstep, StateT.run_bind]
    by_cases ha : a
    · rw [hmember.accept ha _ (follow_writeMembers ms rest)]
      exact hrest.refuse (fun hb => hbad ⟨ha, hb⟩) n rest (by simpa using hfuel)
    · rw [hmember.refuse ha _ (follow_writeMembers ms rest)]
      rfl

theorem optional {o : Option β} {tree : β → Json} {good : β → Prop} (store : Option β → σ)
    (hkey : Reads key bad (quote k) True k)
    (hmember : ∀ x, Reads (member k (store none)) bad (write (tree x)) (good x) (store (some x)))
    (hrest : ReadsMembers bad key member (store o) ms b s₂) :
    ReadsMembers bad key member (store none) (optionalMember k tree o ++ ms)
      ((∀ x ∈ o, good x) ∧ b) s₂ := by
  cases o with
  | none =>
    constructor
    · intro hgood
      exact hrest.accept hgood.2
    · intro hbad
      exact hrest.refuse fun hb => hbad ⟨(fun x hx => nomatch hx), hb⟩
  | some x =>
    have hcons := cons hkey (hmember x) hrest
    constructor
    · intro hgood
      exact hcons.accept ⟨hgood.1 x rfl, hgood.2⟩
    · intro hbad
      refine hcons.refuse fun hb => hbad ⟨fun y hy => ?_, hb.2⟩
      rw [← Option.mem_some.mp hy]
      exact hb.1

theorem object (h : ReadsMembers bad key member s ms a s₁) :
    Reads (readObject bad key member s) bad (write (.obj ms)) a s₁ := by
  have hopen : ∀ rest : Bytes, (readObject bad key member s).run (0x7B :: rest) =
      (objectLoop bad key member (rest.length + 1) s).run rest := by
    intro rest
    unfold readObject
    rw [StateT.run_bind, run_expectByte (by decide)]
    rfl
  have htext : ∀ rest, ∃ fuel, ms.length < fuel ∧
      (readObject bad key member s).run (write (.obj ms) ++ rest) =
        (objectLoop bad key member fuel s).run (writeMembers ms ++ 0x7D :: rest) := by
    intro rest
    cases ms with
    | nil => exact ⟨_, by simp, hopen _⟩
    | cons m ms =>
      have hlen : ∀ ms : List (String × Json), ms.length ≤ (writeMembers ms).length := by
        intro ms
        induction ms with
        | nil => simp
        | cons m ms ih => simp only [writeMembers, List.length_cons, List.length_append]; omega
      have hquote : ∃ t, quote m.1 ++ 0x3A :: (write m.2 ++ (writeMembers ms ++ 0x7D :: rest)) =
          0x22 :: t := ⟨_, rfl⟩
      obtain ⟨t, ht⟩ := hquote
      refine ⟨(0x22 :: t).length + 1, ?_, ?_⟩
      · rw [← ht]
        simp only [List.length_cons, List.length_append]
        have := hlen ms
        omega
      · simp only [write, writeMembers, List.cons_append, List.append_assoc, List.nil_append]
        rw [hopen, ht, run_objectLoop_comma]
  constructor
  · intro hgood rest _
    obtain ⟨fuel, hfuel, hrun⟩ := htext rest
    rw [hrun]
    exact h.accept hgood fuel rest hfuel
  · intro hbad rest _
    obtain ⟨fuel, hfuel, hrun⟩ := htext rest
    rw [hrun]
    exact h.refuse hbad fuel rest hfuel

end ReadsMembers

/-! ## Arrays -/

theorem ne_of_isDigit {c d : UInt8} (hd : isDigit d = true) (hc : isDigit c = false) : d ≠ c := by
  intro h
  rw [h, hc] at hd
  cases hd

theorem isSpace_of_isDigit {d : UInt8} (h : isDigit d = true) : isSpace d = false := by
  simp [isSpace, ne_of_isDigit h (c := 0x20) (by decide), ne_of_isDigit h (c := 0x0A) (by decide),
    ne_of_isDigit h (c := 0x0D) (by decide), ne_of_isDigit h (c := 0x09) (by decide)]

theorem write_starts (j : Json) :
    ∃ b rest, write j = b :: rest ∧ isSpace b = false ∧ b ≠ 0x2C ∧ b ≠ 0x5D := by
  have hdigit : ∀ d : UInt8, isDigit d = true → isSpace d = false ∧ d ≠ 0x2C ∧ d ≠ 0x5D := by
    intro d hd
    exact ⟨isSpace_of_isDigit hd, ne_of_isDigit hd (by decide), ne_of_isDigit hd (by decide)⟩
  cases j with
  | null => exact ⟨_, _, rfl, by decide, by decide, by decide⟩
  | bool b => cases b <;> exact ⟨_, _, rfl, by decide, by decide, by decide⟩
  | num n =>
    simp only [write, number]
    by_cases hn : n < 0
    · exact ⟨_, _, if_pos hn, by decide, by decide, by decide⟩
    · obtain ⟨d, ds, hd, hdig⟩ := decimal_head n.natAbs
      exact ⟨d, ds, by rw [if_neg hn, hd], hdigit d hdig⟩
  | str s => exact ⟨_, _, rfl, by decide, by decide, by decide⟩
  | arr items => cases items <;> exact ⟨_, _, by rw [write], by decide, by decide, by decide⟩
  | obj members =>
    cases members with
    | nil => exact ⟨_, _, by rw [write], by decide, by decide, by decide⟩
    | cons m members => exact ⟨_, _, by rw [write], by decide, by decide, by decide⟩

variable {item : Reader ε α} {tree : α → Json} {good : α → Prop}

theorem run_arrayLoop_close (fuel : Nat) (out : List α) (rest : Bytes) :
    (arrayLoop bad item (fuel + 1) out).run (0x5D :: rest) = .ok (out, rest) := by
  unfold arrayLoop
  rw [StateT.run_bind, run_skipWs_of_head (by decide)]
  rfl

theorem run_arrayLoop_item {b : UInt8} (hspace : isSpace b = false) (hcomma : b ≠ 0x2C)
    (hclose : b ≠ 0x5D) (fuel : Nat) (out : List α) (rest : Bytes) :
    (arrayLoop bad item (fuel + 1) out).run (b :: rest) =
      (do let x ← item; arrayLoop bad item fuel (out ++ [x]) : Reader ε (List α)).run
        (b :: rest) := by
  rw [arrayLoop, StateT.run_bind, run_skipWs_of_head hspace]
  show (if some b = some 0x5D then _ else _ : Reader ε (List α)).run (b :: rest) = _
  rw [if_neg (by simpa using hclose), if_neg (by simpa using hcomma)]
  show ((skipWs >>= fun _ => peek >>= fun next => if next = some 0x5D then _ else _ :
    Reader ε (List α))).run (b :: rest) = _
  rw [StateT.run_bind, run_skipWs_of_head hspace]
  show (if some b = some 0x5D then _ else _ : Reader ε (List α)).run (b :: rest) = _
  rw [if_neg (by simpa using hclose)]

theorem run_arrayLoop_comma {b : UInt8} (hspace : isSpace b = false) (hcomma : b ≠ 0x2C)
    (hclose : b ≠ 0x5D) (fuel : Nat) (out : List α) (rest : Bytes) :
    (arrayLoop bad item (fuel + 1) out).run (0x2C :: b :: rest) =
      (arrayLoop bad item (fuel + 1) out).run (b :: rest) := by
  rw [run_arrayLoop_item hspace hcomma hclose, arrayLoop, StateT.run_bind,
    run_skipWs_of_head (by decide)]
  show ((skipWs >>= fun _ => peek >>= fun next => if next = some 0x5D then _ else _ :
    Reader ε (List α))).run (b :: rest) = _
  rw [StateT.run_bind, run_skipWs_of_head hspace]
  show (if some b = some 0x5D then _ else _ : Reader ε (List α)).run (b :: rest) = _
  rw [if_neg (by simpa using hclose)]

theorem run_arrayLoop {xs : List α} (hitem : ∀ x ∈ xs, Reads item bad (write (tree x)) (good x) x)
    (out : List α) (fuel : Nat) (rest : Bytes) (hfuel : xs.length < fuel) :
    ((∀ x ∈ xs, good x) → (arrayLoop bad item fuel out).run
      (writeItems (xs.map tree) ++ 0x5D :: rest) = .ok (out ++ xs, rest)) ∧
    (¬ (∀ x ∈ xs, good x) → (arrayLoop bad item fuel out).run
      (writeItems (xs.map tree) ++ 0x5D :: rest) = .error bad) := by
  induction xs generalizing out fuel with
  | nil =>
    obtain ⟨n, rfl⟩ := Nat.exists_eq_add_one_of_ne_zero (Nat.ne_zero_of_lt hfuel)
    constructor
    · intro _
      rw [List.append_nil]
      exact run_arrayLoop_close n out rest
    · intro hbad
      exact absurd (fun x hx => nomatch hx) hbad
  | cons x xs ih =>
    obtain ⟨n, rfl⟩ := Nat.exists_eq_add_one_of_ne_zero (Nat.ne_zero_of_lt hfuel)
    obtain ⟨b, t, hb, hspace, hcomma, hclose⟩ := write_starts (tree x)
    have hstep : (arrayLoop bad item (n + 1) out).run
        (writeItems ((x :: xs).map tree) ++ 0x5D :: rest) =
        (do let x ← item; arrayLoop bad item n (out ++ [x]) : Reader ε (List α)).run
          (write (tree x) ++ (writeItems (xs.map tree) ++ 0x5D :: rest)) := by
      simp only [List.map_cons, writeItems, List.cons_append, List.append_assoc]
      rw [hb, List.cons_append, run_arrayLoop_comma hspace hcomma hclose,
        run_arrayLoop_item hspace hcomma hclose]
    have hlater := ih (fun y hy => hitem y (by simp [hy])) (out ++ [x]) n (by simpa using hfuel)
    have hfollow := follow_writeItems (xs.map tree) rest
    rw [hstep, StateT.run_bind]
    constructor
    · intro hgood
      rw [(hitem x (by simp)).accept (hgood x (by simp)) _ hfollow]
      have hrest := hlater.1 fun y hy => hgood y (by simp [hy])
      rw [List.append_assoc] at hrest
      exact hrest
    · intro hbad
      by_cases hx : good x
      · rw [(hitem x (by simp)).accept hx _ hfollow]
        exact hlater.2 fun hall => hbad (by simpa [hx] using hall)
      · rw [(hitem x (by simp)).refuse hx _ hfollow]
        rfl

theorem Reads.array {xs : List α} (hitem : ∀ x ∈ xs, Reads item bad (write (tree x)) (good x) x) :
    Reads (readArray bad item) bad (write (.arr (xs.map tree))) (∀ x ∈ xs, good x) xs := by
  have hopen : ∀ rest : Bytes, (readArray bad item).run (0x5B :: rest) =
      (arrayLoop bad item (rest.length + 1) []).run rest := by
    intro rest
    unfold readArray
    rw [StateT.run_bind, run_expectByte (by decide)]
    rfl
  have htext : ∀ rest, ∃ fuel, xs.length < fuel ∧
      (readArray bad item).run (write (.arr (xs.map tree)) ++ rest) =
        (arrayLoop bad item fuel []).run (writeItems (xs.map tree) ++ 0x5D :: rest) := by
    intro rest
    cases xs with
    | nil => exact ⟨_, by simp, hopen _⟩
    | cons x xs =>
      have hlen : ∀ items : List Json, items.length ≤ (writeItems items).length := by
        intro items
        induction items with
        | nil => simp
        | cons j items ih => simp only [writeItems, List.length_cons, List.length_append]; omega
      obtain ⟨b, t, hb, hspace, hcomma, hclose⟩ := write_starts (tree x)
      refine ⟨(write (tree x) ++ (writeItems (xs.map tree) ++ 0x5D :: rest)).length + 1, ?_, ?_⟩
      · have hxs := hlen (xs.map tree)
        rw [List.length_map] at hxs
        simp only [List.length_cons, List.length_append]
        omega
      · simp only [List.map_cons, write, writeItems, List.cons_append, List.append_assoc,
          List.nil_append]
        rw [hopen, hb, List.cons_append, run_arrayLoop_comma hspace hcomma hclose]
  constructor
  · intro hgood rest _
    obtain ⟨fuel, hfuel, hrun⟩ := htext rest
    rw [hrun]
    exact (run_arrayLoop hitem [] fuel rest hfuel).1 hgood
  · intro hbad rest _
    obtain ⟨fuel, hfuel, hrun⟩ := htext rest
    rw [hrun]
    exact (run_arrayLoop hitem [] fuel rest hfuel).2 hbad

end Lib.Json

import Tyu.Lib.JsonReader

/-! # Texts that are cut short -/

namespace Lib.Json

universe u

variable {ε α β σ : Type}

def Refuses (p : Reader ε α) (bytes : Bytes) : Prop := ∀ v rest, p.run bytes ≠ .ok (v, rest)

def Definite (p : Reader ε α) : Prop :=
  ∀ bytes v rest tail, p.run bytes = .ok (v, rest) → p.run (bytes ++ tail) = .ok (v, rest ++ tail)

/-- On a proper beginning of the text the reader answers at the end at most. -/
def CutShort (p : Reader ε α) (text : Bytes) : Prop :=
  ∀ t u, t ++ u = text → u ≠ [] → ∀ v rest, p.run t = .ok (v, rest) → rest = []

theorem run_bind_eq_ok {p : Reader ε α} {f : α → Reader ε β} {bytes rest : Bytes} {v : β} :
    (p >>= f).run bytes = .ok (v, rest) ↔
      ∃ a mid, p.run bytes = .ok (a, mid) ∧ (f a).run mid = .ok (v, rest) := by
  rw [StateT.run_bind]
  cases h : p.run bytes with
  | error e =>
    constructor
    · intro hok
      cases hok
    · rintro ⟨a, mid, hok, -⟩
      cases hok
  | ok r =>
    obtain ⟨a, mid⟩ := r
    constructor
    · exact fun hok => ⟨a, mid, rfl, hok⟩
    · rintro ⟨a', mid', hok, hrun⟩
      cases hok
      exact hrun

theorem run_bind_of_ok {p : Reader ε α} {f : α → Reader ε β} {bytes mid : Bytes} {a : α}
    (h : p.run bytes = .ok (a, mid)) : (p >>= f).run bytes = (f a).run mid := by
  rw [StateT.run_bind, h]
  rfl

theorem refuses_bind {p : Reader ε α} {f : α → Reader ε β} {bytes : Bytes}
    (h : ∀ a mid, p.run bytes = .ok (a, mid) → Refuses (f a) mid) : Refuses (p >>= f) bytes := by
  intro v rest hok
  obtain ⟨a, mid, hp, hf⟩ := run_bind_eq_ok.mp hok
  exact h a mid hp v rest hf

theorem Refuses.bind {p : Reader ε α} {f : α → Reader ε β} {bytes : Bytes}
    (h : Refuses p bytes) : Refuses (p >>= f) bytes :=
  refuses_bind fun a mid hp => absurd hp (h a mid)

theorem Refuses.cutShort {p : Reader ε α} {text : Bytes}
    (h : ∀ t u, t ++ u = text → u ≠ [] → Refuses p t) : CutShort p text :=
  fun t u htext hu v rest hok => absurd hok (h t u htext hu v rest)

theorem CutShort.map {p : Reader ε α} {text : Bytes} {f : α → Reader ε β}
    (h : CutShort p text) (hf : ∀ a bytes v rest, (f a).run bytes = .ok (v, rest) → rest = bytes) :
    CutShort (p >>= f) text := by
  intro t u htext hu v rest hok
  obtain ⟨a, mid, hp, hrun⟩ := run_bind_eq_ok.mp hok
  rw [hf a mid v rest hrun]
  exact h t u htext hu a mid hp

namespace Definite

theorem pure (a : α) : Definite (Pure.pure a : Reader ε α) := by
  intro bytes v rest tail h
  cases h
  rfl

theorem throw (e : ε) : Definite (MonadExcept.throw e : Reader ε α) := by
  intro bytes v rest tail h
  cases h

theorem bind {p : Reader ε α} {f : α → Reader ε β} (hp : Definite p)
    (hf : ∀ a, Definite (f a)) : Definite (p >>= f) := by
  intro bytes v rest tail h
  obtain ⟨a, mid, hrun, hrest⟩ := run_bind_eq_ok.mp h
  exact run_bind_eq_ok.mpr ⟨a, mid ++ tail, hp bytes a mid tail hrun, hf a mid v rest tail hrest⟩

theorem bump (bad : ε) : Definite (Json.bump bad) := by
  intro bytes v rest tail h
  cases bytes with
  | nil => cases h
  | cons b bs =>
    cases h
    rfl

theorem ite {c : Prop} [Decidable c] {p q : Reader ε α} (hp : Definite p) (hq : Definite q) :
    Definite (if c then p else q) := by
  by_cases hc : c
  · rw [if_pos hc]
    exact hp
  · rw [if_neg hc]
    exact hq

theorem skipWs_bind {f : Unit → Reader ε α} (hf : Definite (f ())) (hnil : Refuses (f ()) []) :
    Definite (skipWs >>= f) := by
  intro bytes v rest tail h
  obtain ⟨⟨⟩, mid, hws, hrun⟩ := run_bind_eq_ok.mp h
  have hmid : mid = bytes.dropWhile isSpace := by
    cases hws
    rfl
  have hne : bytes.dropWhile isSpace ≠ [] := by
    intro hnone
    rw [hmid, hnone] at hrun
    exact hnil v rest hrun
  refine run_bind_eq_ok.mpr ⟨(), mid ++ tail, ?_, hf mid v rest tail hrun⟩
  have hdrop : (bytes ++ tail).dropWhile isSpace = bytes.dropWhile isSpace ++ tail := by
    rw [List.dropWhile_append, if_neg]
    simpa using hne
  show Except.ok ((), (bytes ++ tail).dropWhile isSpace) = _
  rw [hdrop, hmid]

theorem refuses {p : Reader ε α} {text : Bytes} {w : α} (hp : Definite p)
    (hread : p.run text = .ok (w, [])) {t u : Bytes} (htext : t ++ u = text) (hu : u ≠ []) :
    Refuses p t := by
  intro v rest hok
  have hwhole := hp t v rest u hok
  rw [htext, hread] at hwhole
  have hnil : [] = rest ++ u := (Prod.mk.inj (Except.ok.inj hwhole)).2
  exact hu (List.append_eq_nil_iff.mp hnil.symm).2

end Definite

/-! ## Objects that are cut short -/

/-- Members that the loop reads one after another from one state to another, and that answer
nothing before their end. -/
inductive MemberChain (bad : ε) (member : String → σ → Reader ε σ) :
    σ → List (String × Json) → σ → Prop where
  | nil (s : σ) : MemberChain bad member s [] s
  | cons {s s₁ s₂ : σ} {k : String} {j : Json} {ms : List (String × Json)}
      (reads : Reads (member k s) bad (write j) True s₁)
      (short : CutShort (member k s) (write j))
      (rest : MemberChain bad member s₁ ms s₂) : MemberChain bad member s ((k, j) :: ms) s₂

variable {bad : ε} {key : Reader ε String} {member : String → σ → Reader ε σ} {s s' : σ}
  {ms : List (String × Json)}

theorem MemberChain.readsMembers (hkey : ∀ k, Reads key bad (quote k) True k)
    (h : MemberChain bad member s ms s') : ReadsMembers bad key member s ms True s' := by
  induction h with
  | nil s => exact .nil
  | cons reads short _ ih =>
    have hcons := ReadsMembers.cons (hkey _) reads ih
    constructor
    · exact fun _ => hcons.accept ⟨trivial, trivial⟩
    · exact fun hn => absurd trivial hn

theorem MemberChain.refused (hkey : ∀ k, Reads key bad (quote k) True k) {s₁ s₂ s₃ : σ}
    {pre post : List (String × Json)} {k : String} {j : Json}
    (hpre : MemberChain bad member s pre s₁) (hbad : Reads (member k s₁) bad (write j) False s₂)
    (hpost : MemberChain bad member s₂ post s₃) :
    ReadsMembers bad key member s (pre ++ (k, j) :: post) False s₃ := by
  induction hpre with
  | nil s =>
    have hcons := ReadsMembers.cons (hkey k) hbad (hpost.readsMembers hkey)
    constructor
    · exact fun hn => absurd hn id
    · exact fun _ => hcons.refuse fun h => h.1
  | cons reads short _ ih =>
    have hcons := ReadsMembers.cons (hkey _) reads (ih hbad)
    constructor
    · exact fun hn => absurd hn id
    · exact fun _ => hcons.refuse fun h => h.2

theorem refuses_objectLoop_nil (hnil : Refuses key []) (fuel : Nat) (s : σ) :
    Refuses (objectLoop bad key member fuel s) [] := by
  cases fuel with
  | zero =>
    intro v rest hok
    cases hok
  | succ fuel =>
    intro v rest hok
    have hkey : (do
        let k ← key
        expectByte bad 0x3A
        let s ← member k s
        objectLoop bad key member fuel s : Reader ε σ).run [] = .ok (v, rest) := hok
    exact Refuses.bind hnil v rest hkey

theorem follow_of_append {t u ms : Bytes} (h : t ++ u = ms) (hms : Follow ms) : Follow t := by
  intro b hb
  cases t with
  | nil => cases hb
  | cons c t =>
    rw [← h] at hms
    exact hms b hb

theorem refuses_round (hkey : ∀ k, Reads key bad (quote k) True k) (hdef : Definite key)
    (hnil : Refuses key []) {s₁ : σ} {k : String} {j : Json} (fuel : Nat) {t u : Bytes}
    (reads : Reads (member k s) bad (write j) True s₁) (short : CutShort (member k s) (write j))
    (hlater : ∀ t u, t ++ u = writeMembers ms ++ [0x7D] → u ≠ [] →
      Refuses (objectLoop bad key member fuel s₁) t)
    (htext : t ++ u = quote k ++ (0x3A :: (write j ++ (writeMembers ms ++ [0x7D]))))
    (hu : u ≠ []) : Refuses (do
      let k ← key
      expectByte bad 0x3A
      let s ← member k s
      objectLoop bad key member fuel s : Reader ε σ) t := by
  have hquote : key.run (quote k) = .ok (k, []) := by
    have hrun := (hkey k).accept trivial [] follow_nil
    rwa [List.append_nil] at hrun
  rcases List.append_eq_append_iff.mp htext with ⟨a, ha, hu'⟩ | ⟨c, hc, hrest⟩
  · cases a with
    | nil =>
      -- The text ends with the key.
      rw [List.append_nil] at ha
      rw [← ha]
      refine refuses_bind fun k' mid hk => ?_
      rw [hquote] at hk
      cases hk
      refine Refuses.bind fun v rest hok => ?_
      cases hok
    | cons b a => exact Refuses.bind (hdef.refuses hquote ha.symm (List.cons_ne_nil b a))
  · rw [hc]
    refine refuses_bind fun k' mid hk => ?_
    have hread := hdef (quote k) k [] c hquote
    rw [hread, List.nil_append] at hk
    cases hk
    cases c with
    | nil =>
      refine Refuses.bind fun v rest hok => ?_
      cases hok
    | cons b c =>
      rw [List.cons_append, List.cons.injEq] at hrest
      obtain ⟨rfl, hrest⟩ := hrest
      refine refuses_bind fun _ mid hcolon => ?_
      rw [run_expectByte (by decide)] at hcolon
      cases hcolon
      rcases List.append_eq_append_iff.mp hrest with ⟨a, ha, hu'⟩ | ⟨a, ha, hu'⟩
      · -- Behind the value: the member is read, and the loop goes on.
        rw [ha]
        refine refuses_bind fun s' mid hmember => ?_
        have hfollow : Follow a := follow_of_append hu'.symm (follow_writeMembers ms [])
        rw [reads.accept trivial a hfollow] at hmember
        cases hmember
        exact hlater a u hu'.symm hu
      · cases a with
        | nil =>
          rw [List.append_nil] at ha
          rw [← ha]
          refine refuses_bind fun s' mid hmember => ?_
          have hwhole := reads.accept trivial [] follow_nil
          rw [List.append_nil, hmember] at hwhole
          cases hwhole
          exact hlater [] u hu' hu
        | cons b a =>
          refine refuses_bind fun s' mid hmember => ?_
          rw [short c (b :: a) ha.symm (List.cons_ne_nil b a) s' mid hmember]
          exact refuses_objectLoop_nil hnil fuel s'

theorem MemberChain.refuses (hkey : ∀ k, Reads key bad (quote k) True k) (hdef : Definite key)
    (hnil : Refuses key []) (h : MemberChain bad member s ms s') (fuel : Nat) (t u : Bytes)
    (htext : t ++ u = writeMembers ms ++ [0x7D]) (hu : u ≠ []) :
    Refuses (objectLoop bad key member fuel s) t := by
  induction h generalizing fuel t u with
  | nil s =>
    cases t with
    | nil => exact refuses_objectLoop_nil hnil fuel s
    | cons b t =>
      have hlen := congrArg List.length htext
      have hpos := List.length_pos_of_ne_nil hu
      simp only [writeMembers, List.length_append, List.length_cons, List.length_nil] at hlen
      omega
  | @cons s s₁ s₂ k j ms reads short _ ih =>
    cases t with
    | nil => exact refuses_objectLoop_nil hnil fuel s
    | cons b t =>
      have hmembers : writeMembers ((k, j) :: ms) ++ [0x7D] =
          0x2C :: (quote k ++ (0x3A :: (write j ++ (writeMembers ms ++ [0x7D])))) := by
        simp only [writeMembers, List.cons_append, List.append_assoc]
      rw [hmembers, List.cons_append, List.cons.injEq] at htext
      obtain ⟨rfl, htext⟩ := htext
      cases fuel with
      | zero =>
        intro v rest hok
        cases hok
      | succ fuel =>
        have hround := refuses_round hkey hdef hnil fuel reads short
          (fun t u => ih fuel t u) htext hu
        cases t with
        | nil => exact hround
        | cons b t =>
          have hhead : b = 0x22 := (List.cons.inj htext).1
          subst hhead
          intro v rest hok
          rw [run_objectLoop_comma, run_objectLoop_member] at hok
          exact hround v rest hok

theorem MemberChain.object_refuses (hkey : ∀ k, Reads key bad (quote k) True k)
    (hdef : Definite key) (hnil : Refuses key []) (h : MemberChain bad member s ms s')
    {t u : Bytes} (htext : t ++ u = write (.obj ms)) (hu : u ≠ []) :
    Refuses (readObject bad key member s) t := by
  cases t with
  | nil =>
    refine Refuses.bind fun v rest hok => ?_
    cases hok
  | cons b t =>
    have hopen : ∀ fuel, (∀ v rest, (objectLoop bad key member fuel s).run t ≠ .ok (v, rest)) →
        b = 0x7B → fuel = t.length + 1 → Refuses (readObject bad key member s) (b :: t) := by
      rintro fuel hloop rfl rfl
      refine refuses_bind fun _ mid hbrace => ?_
      rw [run_expectByte (by decide)] at hbrace
      cases hbrace
      exact hloop
    cases ms with
    | nil =>
      simp only [write, List.cons_append, List.cons.injEq] at htext
      have hlen := congrArg List.length htext.2
      have hpos := List.length_pos_of_ne_nil hu
      simp only [List.length_append, List.length_cons, List.length_nil] at hlen
      rw [List.length_eq_zero_iff.mp (by omega : t.length = 0)] at hopen ⊢
      exact hopen _ (refuses_objectLoop_nil hnil _ s) htext.1 rfl
    | cons m ms =>
      obtain ⟨k, j⟩ := m
      simp only [write, List.cons_append, List.append_assoc, List.cons.injEq] at htext
      refine hopen _ ?_ htext.1 rfl
      have hcomma : (0x2C :: t) ++ u = writeMembers ((k, j) :: ms) ++ [0x7D] := by
        simp only [writeMembers, List.cons_append, List.append_assoc, htext.2]
      have hrefuses := h.refuses hkey hdef hnil (t.length + 1) (0x2C :: t) u hcomma hu
      cases t with
      | nil => exact refuses_objectLoop_nil hnil _ s
      | cons b t =>
        have hhead : b = 0x22 := (List.cons.inj htext.2).1
        subst hhead
        intro v rest hok
        rw [← run_objectLoop_comma] at hok
        exact hrefuses v rest hok

/-! ## Members changed -/

inductive JsonType where
  | null
  | bool
  | number
  | string
  | array
  | object
deriving DecidableEq

def type : Json → JsonType
  | .null => .null
  | .bool _ => .bool
  | .num _ => .number
  | .str _ => .string
  | .arr _ => .array
  | .obj _ => .object

/-- One member of an object written twice, left out, or given a value of another type. -/
inductive Edit where
  | duplicate (i place : Nat)
  | leaveOut (i : Nat)
  | retype (i : Nat) (value : Json)

def Edit.members (ms : List (String × Json)) : Edit → Option (List (String × Json))
  | .duplicate i place => do
    let m ← ms[i]?
    if place ≤ ms.length then some (ms.insertIdx place m) else none
  | .leaveOut i => if i < ms.length then some (ms.eraseIdx i) else none
  | .retype i value => do
    let m ← ms[i]?
    if value.type ≠ m.2.type then some (ms.set i (m.1, value)) else none

namespace Edit

variable {τ : Type} (f : τ → String × Json) {ts : List τ}

theorem duplicate_map {i place : Nat} (h : (duplicate i place).members (ts.map f) = some ms) :
    place ≤ ts.length ∧ ∃ t ∈ ts, ms = (ts.insertIdx place t).map f := by
  unfold members at h
  obtain ⟨m, hm, h⟩ := Option.bind_eq_some_iff.mp h
  rw [List.getElem?_map] at hm
  obtain ⟨t, ht, rfl⟩ := Option.map_eq_some_iff.mp hm
  rw [List.length_map] at h
  by_cases hplace : place ≤ ts.length
  · rw [if_pos hplace] at h
    refine ⟨hplace, t, List.mem_of_getElem? ht, ?_⟩
    rw [List.map_insertIdx]
    exact (Option.some.inj h).symm
  · rw [if_neg hplace] at h
    cases h

theorem leaveOut_map {i : Nat} (h : (leaveOut i).members (ts.map f) = some ms) :
    i < ts.length ∧ ms = (ts.eraseIdx i).map f := by
  rw [members] at h
  rw [List.length_map] at h
  by_cases hi : i < ts.length
  · rw [if_pos hi] at h
    refine ⟨hi, ?_⟩
    rw [← List.eraseIdx_map]
    exact (Option.some.inj h).symm
  · rw [if_neg hi] at h
    cases h

theorem retype_map {i : Nat} {value : Json} (h : (retype i value).members (ts.map f) = some ms) :
    ∃ pre t post, ts = pre ++ t :: post ∧ value.type ≠ (f t).2.type ∧
      ms = pre.map f ++ ((f t).1, value) :: post.map f := by
  unfold members at h
  obtain ⟨m, hm, h⟩ := Option.bind_eq_some_iff.mp h
  rw [List.getElem?_map] at hm
  obtain ⟨t, ht, rfl⟩ := Option.map_eq_some_iff.mp hm
  by_cases htype : value.type ≠ (f t).2.type
  · rw [if_pos htype] at h
    obtain ⟨hi, ht⟩ := List.getElem?_eq_some_iff.mp ht
    refine ⟨ts.take i, t, ts.drop (i + 1), ?_, htype, ?_⟩
    · rw [← ht, List.getElem_cons_drop, List.take_append_drop]
    · rw [← Option.some.inj h, List.set_eq_take_append_cons_drop, List.length_map, if_pos hi,
        List.map_take, List.map_drop]
  · rw [if_neg htype] at h
    cases h

end Edit

theorem write_first (j : Json) :
    ∃ b rest, write j = b :: rest ∧ isSpace b = false ∧ tagOfByte b = tag j := by
  obtain ⟨b, rest, hj, hspace, -, -⟩ := write_starts j
  obtain ⟨c, rest', hj', htag⟩ := write_head j
  rw [hj] at hj'
  cases hj'
  exact ⟨b, rest, hj, hspace, htag⟩

theorem run_expectByte_ne {b c : UInt8} {rest : Bytes} (hspace : isSpace c = false) (h : c ≠ b) :
    (expectByte bad b).run (c :: rest) = .error bad := by
  unfold expectByte
  rw [StateT.run_bind, run_skipWs_of_head hspace]
  show (if c ≠ b then throw bad else pure () : Reader ε Unit).run rest = _
  rw [if_pos h]
  rfl

theorem readObject_refuses_type {j : Json} (h : j.type ≠ .object) {w : σ} :
    Reads (readObject bad key member s) bad (write j) False w where
  accept hn := absurd hn id
  refuse _ rest _ := by
    obtain ⟨b, text, hj, hspace, htag⟩ := write_first j
    have hb : b ≠ 0x7B := by
      rintro rfl
      cases j with
      | obj ms => exact h rfl
      | bool b => cases b <;> cases htag
      | null | num | str | arr => cases htag
    unfold readObject
    rw [hj, List.cons_append, StateT.run_bind, run_expectByte_ne hspace hb]
    rfl

end Lib.Json

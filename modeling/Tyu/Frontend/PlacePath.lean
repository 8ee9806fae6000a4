import Tyu.Frontend.Iface
import Tyu.Frontend.Relex

/-!
# Place paths

A place is a name and up to eight steps: fields, constant indices, and indices computed in
parentheses.
-/

namespace Tyu.Place

open Frontend

inductive Step where
  | field (name : Bytes)
  | index (n : Nat)
  /-- The text from one offset to another. -/
  | dynamicIndex (start stop : Nat)

structure PlacePath where
  root : Nat × Nat
  steps : List Step
  full : Nat × Nat

inductive PlaceError where
  | placeParseFailed (start stop : Nat)
  | placeTooDeep (start stop : Nat)

/-- The token behind an offset; the lexer goes on where it stops.  At the end of the text stands
the end token, again and again. -/
def next (src : Bytes) (i : Nat) : Frontend.Placed :=
  match skipWsAndComments false (src.drop i) with
  | [] => ⟨.eof, src.length⟩
  | first :: more => ⟨lexToken first more, src.length - (more.length + 1)⟩

abbrev kindAt (src : Bytes) (i : Nat) : TokenKind := (next src i).token.kind

def typeAtom (text : Bytes) : Option Bytes := if text.length ≤ 32 then some text else none

def parseU32Any (text : Bytes) : Option Nat :=
  Irgen.parseU32Any (text.map fun b => Char.ofNat b.toNat)

/-- The loop over the tokens of a computed index, and the end of the last one. -/
def closeLoop (src : Bytes) : Nat → Nat → Nat → Option Nat
  | 0, _, _ => none
  | fuel + 1, depth, i =>
    let t := next src i
    if t.token.kind = .rParen then
      if depth - 1 = 0 then some t.stop else closeLoop src fuel (depth - 1) t.stop
    else closeLoop src fuel depth t.stop

/-- One step: the step, the end of it that an error names, and where it ends; nothing where no
step follows. -/
def readStep (src : Bytes) (fuel i : Nat) :
    Option (Except PlaceError (Option (Step × Nat × Nat))) :=
  let t := next src i
  if t.token.kind = .dot then
    let seg := next src t.stop
    if seg.token.kind = .ident then
      match typeAtom seg.token.text with
      | none => some (.error (.placeParseFailed seg.start seg.stop))
      | some name => some (.ok (some (.field name, seg.stop, seg.stop)))
    else if seg.token.kind = .number then
      match parseU32Any seg.token.text with
      | none => some (.error (.placeParseFailed seg.start seg.stop))
      | some n => some (.ok (some (.index n, seg.stop, seg.stop)))
    else if seg.token.kind = .lParen then
      match closeLoop src fuel 1 seg.stop with
      | none => none
      | some last => some (.ok (some (.dynamicIndex (seg.start + 1) (last - 1), last - 1, last)))
    else some (.error (.placeParseFailed seg.start seg.stop))
  else if t.token.kind = .apostrophe then some (.error (.placeParseFailed t.start (t.start + 1)))
  else some (.ok none)

def stepLoop (src : Bytes) (fuel root : Nat) :
    Nat → List Step → Nat → Option (Except PlaceError (List Step × Nat))
  | room, steps, i =>
    match readStep src fuel i with
    | none => none
    | some (.error e) => some (.error e)
    | some (.ok none) => some (.ok (steps, i))
    | some (.ok (some (step, stop, j))) =>
      match room with
      | 0 => some (.error (.placeTooDeep root stop))
      | room + 1 => stepLoop src fuel root room (steps ++ [step]) j

def parsePlacePath (src : Bytes) (fuel i : Nat) : Option (Except PlaceError PlacePath × Nat) :=
  let first := next src i
  if first.token.kind ≠ .ident then some (.error (.placeParseFailed first.start first.stop), i)
  else
    match stepLoop src fuel first.start 8 [] first.stop with
    | none => none
    | some (.error e) => some (.error e, i)
    | some (.ok (steps, j)) =>
      some (.ok ⟨(first.start, first.stop), steps, (first.start, j)⟩, j)

/-- The parenthesis that closes as many as are open: counting those that open behind it, or not. -/
inductive Closes (src : Bytes) (nest : Bool) : Nat → Nat → Nat → Prop where
  | close {i : Nat} (h : kindAt src i = .rParen) : Closes src nest 0 i (next src i).start
  | down {d i k : Nat} (h : kindAt src i = .rParen) (hd : Closes src nest d (next src i).stop k) :
    Closes src nest (d + 1) i k
  | up {d i k : Nat} (hnest : nest = true) (h : kindAt src i = .lParen)
    (hd : Closes src nest (d + 1) (next src i).stop k) : Closes src nest d i k
  | pass {d i k : Nat} (hclose : kindAt src i ≠ .rParen) (hend : kindAt src i ≠ .eof)
    (hopen : kindAt src i = .lParen → nest = false) (hd : Closes src nest d (next src i).stop k) :
    Closes src nest d i k

abbrev segAt (src : Bytes) (i : Nat) : Frontend.Placed := next src (next src i).stop

inductive Stands (src : Bytes) (nest : Bool) (i : Nat) : Step → Nat → Prop where
  | field (hdot : kindAt src i = .dot) (hkind : (segAt src i).token.kind = .ident)
    (hfits : (segAt src i).token.text.length ≤ 32) :
    Stands src nest i (.field (segAt src i).token.text) (segAt src i).stop
  | index {n : Nat} (hdot : kindAt src i = .dot) (hkind : (segAt src i).token.kind = .number)
    (hfits : parseU32Any (segAt src i).token.text = some n) :
    Stands src nest i (.index n) (segAt src i).stop
  | dynamicIndex {k : Nat} (hdot : kindAt src i = .dot)
    (hkind : (segAt src i).token.kind = .lParen) (hcloses : Closes src nest 0 (segAt src i).stop k) :
    Stands src nest i (.dynamicIndex (segAt src i).stop k) (k + 1)

inductive Steps (src : Bytes) (nest : Bool) : Nat → List Step → Nat → Prop where
  | nil {i : Nat} : Steps src nest i [] i
  | cons {i j k : Nat} {s : Step} {ss : List Step} (hs : Stands src nest i s j)
    (hss : Steps src nest j ss k) : Steps src nest i (s :: ss) k

def Ends (src : Bytes) (j : Nat) : Prop := kindAt src j ≠ .dot ∧ kindAt src j ≠ .apostrophe

structure Reads (src : Bytes) (nest : Bool) (i : Nat) (path : PlacePath) (j : Nat) : Prop where
  name : kindAt src i = .ident
  root : path.root = ((next src i).start, (next src i).stop)
  steps : Steps src nest (next src i).stop path.steps j
  few : path.steps.length ≤ 8
  ends : Ends src j
  full : path.full = ((next src i).start, j)

/-- An answer of the scanner is right: the place that stands there and its end, or an error, with
the lexer where it was, and no place. -/
def Right (src : Bytes) (i : Nat) : Except PlaceError PlacePath × Nat → Prop
  | (.ok path, j) => Reads src true i path j
  | (.error _, j) => j = i ∧ ∀ path k, ¬ Reads src true i path k

def Exact (src : Bytes) (i : Nat) : Prop :=
  ∃ fuel r, parsePlacePath src fuel i = some r ∧ Right src i r

/-- The scanner comes to a computed index, whose text begins at `p`. -/
inductive Comes (src : Bytes) (p : Nat) : Nat → Nat → Prop where
  | here {room i : Nat} (hdot : kindAt src i = .dot) (hkind : (segAt src i).token.kind = .lParen)
    (hp : (segAt src i).stop = p) : Comes src p room i
  | further {room i j : Nat} {s : Step} (hs : Stands src false i s j) (hj : Comes src p room j) :
    Comes src p (room + 1) i

def Unclosed (src : Bytes) (i : Nat) : Prop :=
  kindAt src i = .ident ∧ ∃ p, Comes src p 8 (next src i).stop ∧ ∀ k, ¬ Closes src false 0 p k

/-- The first parenthesis that closes behind a computed index is not the one that matches. -/
def Nests (src : Bytes) (i : Nat) : Prop :=
  kindAt src i = .ident ∧ ∃ p, Comes src p 8 (next src i).stop ∧
    ∃ k, Closes src false 0 p k ∧ ¬ Closes src true 0 p k

section Tokens

variable {src : Bytes} {i k : Nat}

theorem next_stop (h : kindAt src i ≠ .eof) :
    i < (next src i).stop ∧ (next src i).stop ≤ src.length := by
  revert h
  unfold kindAt next
  have hlen := skip_length false (src.drop i)
  rw [List.length_drop] at hlen
  cases hrest : skipWsAndComments false (src.drop i) with
  | nil => exact fun h => absurd rfl h
  | cons first more =>
    intro _
    have hpos := lexToken_length first more
    rw [hrest, List.length_cons] at hlen
    rw [List.length_cons] at hpos
    show i < src.length - (more.length + 1) + (lexToken first more).text.length ∧
      src.length - (more.length + 1) + (lexToken first more).text.length ≤ src.length
    omega

theorem paren_stop (h : kindAt src i = .lParen ∨ kindAt src i = .rParen) :
    (next src i).stop = (next src i).start + 1 := by
  revert h
  unfold kindAt next
  cases hrest : skipWsAndComments false (src.drop i) with
  | nil => exact fun h => by rcases h with h | h <;> cases h
  | cons first more =>
    intro h
    have hfixed : ∃ b, (lexToken first more).kind.fixed = some [b] := by
      rcases h with h | h
      · exact ⟨0x28, by rw [h]; rfl⟩
      · exact ⟨0x29, by rw [h]; rfl⟩
    obtain ⟨b, hb⟩ := hfixed
    show src.length - (more.length + 1) + (lexToken first more).text.length = _
    rw [lexToken_fixed hb]
    rfl

theorem next_end (h : kindAt src i = .eof) : (next src i).stop = src.length := by
  revert h
  unfold kindAt next
  cases hrest : skipWsAndComments false (src.drop i) with
  | nil => exact fun _ => rfl
  | cons first more =>
    intro h
    have htext : (lexToken first more).text = [] := lexToken_fixed (by rw [h]; rfl)
    exact absurd htext (lexToken_front first more).2

theorem kindAt_end : kindAt src src.length = .eof := by
  unfold kindAt next
  rw [List.drop_length]
  rfl

end Tokens

section Indices

variable {src : Bytes} {nest : Bool} {d i k l fuel : Nat}

theorem Closes.unique (h : Closes src nest d i k) (h' : Closes src nest d i l) : k = l := by
  induction h with
  | close h =>
    cases h' with
    | close => rfl
    | up _ hopen => cases h.symm.trans hopen
    | pass hclose => exact absurd h hclose
  | down h _ ih =>
    cases h' with
    | down _ hd => exact ih hd
    | up _ hopen => cases h.symm.trans hopen
    | pass hclose => exact absurd h hclose
  | up hnest h _ ih =>
    cases h' with
    | close hclose => cases h.symm.trans hclose
    | down hclose => cases h.symm.trans hclose
    | up _ _ hd => exact ih hd
    | pass _ _ hopen => cases hnest.symm.trans (hopen h)
  | pass hclose _ hopen _ ih =>
    cases h' with
    | close h => exact absurd h hclose
    | down h => exact absurd h hclose
    | up hnest h => cases hnest.symm.trans (hopen h)
    | pass _ _ _ hd => exact ih hd

theorem closeLoop_end (fuel d : Nat) : closeLoop src fuel d src.length = none := by
  induction fuel generalizing d with
  | zero => rfl
  | succ fuel ih =>
    have hend := @kindAt_end src
    have hopen : kindAt src src.length ≠ .rParen := by
      rw [hend]
      decide
    rw [closeLoop, if_neg hopen, next_end hend]
    exact ih d

theorem closeLoop_closes (h : closeLoop src fuel 1 i = some l) :
    ∃ k, Closes src false 0 i k ∧ l = k + 1 := by
  induction fuel generalizing i with
  | zero => cases h
  | succ fuel ih =>
    rw [closeLoop] at h
    split at h
    · rename_i hclose
      rw [if_pos rfl] at h
      cases h
      exact ⟨_, .close hclose, paren_stop (.inr hclose)⟩
    · rename_i hclose
      obtain ⟨k, hk, hl⟩ := ih h
      refine ⟨k, .pass hclose ?_ (fun _ => rfl) hk, hl⟩
      intro hend
      rw [next_end hend] at h
      cases (closeLoop_end fuel 1).symm.trans h

theorem Closes.loop (h : Closes src false d i k) (hd : d = 0) (hfuel : src.length < fuel + i) :
    closeLoop src fuel 1 i = some (k + 1) := by
  induction h generalizing fuel with
  | @close i h =>
    have hi := next_stop (h ▸ nofun : kindAt src i ≠ .eof)
    obtain ⟨fuel, rfl⟩ : ∃ n, fuel = n + 1 := ⟨fuel - 1, by omega⟩
    rw [closeLoop]
    rw [if_pos h, if_pos rfl, paren_stop (.inr h)]
  | down => cases hd
  | up hnest => cases hnest
  | @pass d i k hclose hend _ _ ih =>
    have hi := next_stop hend
    obtain ⟨fuel, rfl⟩ : ∃ n, fuel = n + 1 := ⟨fuel - 1, by omega⟩
    rw [closeLoop]
    rw [if_neg hclose]
    exact ih hd (by omega)

end Indices

/-! ## Steps -/

section Places

variable {src : Bytes} {nest : Bool} {room i j k : Nat} {s s' : Step} {ss : List Step}

theorem Stands.dot (h : Stands src nest i s j) : kindAt src i = .dot := by
  cases h <;> assumption

theorem Stands.unique (h : Stands src nest i s j) (h' : Stands src nest i s' k) :
    s = s' ∧ j = k := by
  cases h with
  | field _ hkind =>
    cases h' with
    | field => exact ⟨rfl, rfl⟩
    | index _ hkind' => cases hkind.symm.trans hkind'
    | dynamicIndex _ hkind' => cases hkind.symm.trans hkind'
  | index _ hkind hfits =>
    cases h' with
    | field _ hkind' => cases hkind.symm.trans hkind'
    | index _ _ hfits' =>
      cases hfits.symm.trans hfits'
      exact ⟨rfl, rfl⟩
    | dynamicIndex _ hkind' => cases hkind.symm.trans hkind'
  | dynamicIndex _ hkind hcloses =>
    cases h' with
    | field _ hkind' => cases hkind.symm.trans hkind'
    | index _ hkind' => cases hkind.symm.trans hkind'
    | dynamicIndex _ _ hcloses' =>
      cases hcloses.unique hcloses'
      exact ⟨rfl, rfl⟩

theorem Stands.stop_eq {nest' : Bool} (h : Stands src nest i s j) (h' : Stands src nest' i s k) :
    j = k := by
  cases h with
  | field => cases h'; rfl
  | index _ hkind =>
    cases h' with
    | index => rfl
  | dynamicIndex => cases h'; rfl

def Turn (src : Bytes) (i : Nat) : Except PlaceError (Option (Step × Nat × Nat)) → Prop
  | .error _ => ¬ Ends src i ∧ ∀ s j, ¬ Stands src false i s j
  | .ok none => Ends src i
  | .ok (some (s, _, j)) => Stands src false i s j

theorem readStep_turn {fuel : Nat} {r : Except PlaceError (Option (Step × Nat × Nat))}
    (h : readStep src fuel i = some r) : Turn src i r := by
  unfold readStep at h
  dsimp only at h
  split at h
  · rename_i hdot
    have hfail : ∀ e, (∀ s j, ¬ Stands src false i s j) → Turn src i (.error e) :=
      fun e hnone => ⟨fun hends => hends.1 hdot, hnone⟩
    split at h
    · rename_i hkind
      unfold typeAtom at h
      split at h
      · rename_i hatom
        cases h
        refine hfail _ fun s j hs => ?_
        cases hs with
        | field _ _ hfits => grind
        | index _ hkind' => cases hkind.symm.trans hkind'
        | dynamicIndex _ hkind' => cases hkind.symm.trans hkind'
      · rename_i name hatom
        cases h
        split at hatom <;> cases hatom
        exact .field hdot hkind ‹_›
    · rename_i hname
      split at h
      · rename_i hkind
        split at h
        · rename_i hnumber
          cases h
          refine hfail _ fun s j hs => ?_
          cases hs with
          | field _ hkind' => exact hname hkind'
          | index _ _ hfits => cases hnumber.symm.trans hfits
          | dynamicIndex _ hkind' => cases hkind.symm.trans hkind'
        · cases h
          exact .index hdot hkind ‹_›
      · rename_i hnumber
        split at h
        · rename_i hkind
          split at h
          · cases h
          · rename_i last hlast
            cases h
            obtain ⟨k, hk, rfl⟩ := closeLoop_closes hlast
            have hopen := paren_stop (.inl hkind)
            show Stands src false i (.dynamicIndex ((segAt src i).start + 1) k) (k + 1)
            rw [← hopen]
            exact .dynamicIndex hdot hkind hk
        · rename_i hparen
          cases h
          refine hfail _ fun s j hs => ?_
          cases hs with
          | field _ hkind' => exact hname hkind'
          | index _ hkind' => exact hnumber hkind'
          | dynamicIndex _ hkind' => exact hparen hkind'
  · rename_i hdot
    split at h
    · rename_i happ
      cases h
      exact ⟨fun hends => hends.2 happ, fun s j hs => hdot hs.dot⟩
    · cases h
      exact ⟨hdot, ‹_›⟩

theorem Stands.read (fuel : Nat) (h : Stands src false i s j) :
    (∃ stop, readStep src fuel i = some (.ok (some (s, stop, j)))) ∨ readStep src fuel i = none := by
  cases hread : readStep src fuel i with
  | none => exact .inr rfl
  | some r =>
    have hturn := readStep_turn hread
    match r with
    | .error _ => exact absurd h (hturn.2 s j)
    | .ok none => exact absurd h.dot hturn.1
    | .ok (some (s', stop, j')) =>
      obtain ⟨rfl, rfl⟩ := h.unique hturn
      exact .inl ⟨stop, rfl⟩

def Went (src : Bytes) (room i : Nat) (steps : List Step) :
    Except PlaceError (List Step × Nat) → Prop
  | .error _ => ∀ ss j, Steps src false i ss j → ss.length ≤ room → ¬ Ends src j
  | .ok (all, j) => ∃ ss, all = steps ++ ss ∧ Steps src false i ss j ∧ ss.length ≤ room ∧ Ends src j

theorem stepLoop_went {fuel root : Nat} {steps : List Step}
    {r : Except PlaceError (List Step × Nat)}
    (h : stepLoop src fuel root room steps i = some r) : Went src room i steps r := by
  fun_induction stepLoop src fuel root room steps i with
  | case1 => cases h
  | case2 room steps i e hread =>
    cases h
    intro ss j hss _
    cases hss with
    | nil => exact (readStep_turn hread).1
    | cons hs => exact absurd hs ((readStep_turn hread).2 _ _)
  | case3 room steps i hread =>
    cases h
    exact ⟨[], (List.append_nil _).symm, .nil, Nat.zero_le _, readStep_turn hread⟩
  | case4 steps i step stop j hread =>
    cases h
    have hstep : Stands src false i step j := readStep_turn hread
    intro ss k hss hlen
    cases hss with
    | nil => exact fun hends => hends.1 hstep.dot
    | cons => cases hlen
  | case5 steps i step stop j hread room ih =>
    have hstep : Stands src false i step j := readStep_turn hread
    have hrest := ih h
    match r with
    | .error _ =>
      intro ss k hss hlen
      cases hss with
      | nil => exact fun hends => hends.1 hstep.dot
      | cons hs hss =>
        obtain ⟨rfl, rfl⟩ := hs.unique hstep
        exact hrest _ _ hss (Nat.le_of_succ_le_succ hlen)
    | .ok (all, k) =>
      obtain ⟨ss, rfl, hss, hlen, hends⟩ := hrest
      exact ⟨step :: ss, List.append_assoc .., .cons hstep hss, Nat.succ_le_succ hlen, hends⟩

theorem Comes.closes {fuel root p : Nat} {steps : List Step}
    {r : Except PlaceError (List Step × Nat)} (h : Comes src p room i)
    (hrun : stepLoop src fuel root room steps i = some r) : ∃ k, Closes src false 0 p k := by
  induction h generalizing steps with
  | @here room i hdot hkind hp =>
    cases hread : readStep src fuel i with
    | none =>
      unfold stepLoop at hrun
      rw [hread] at hrun
      cases hrun
    | some x =>
      unfold readStep at hread
      dsimp only at hread
      rw [if_pos hdot, if_neg (by rw [hkind]; decide), if_neg (by rw [hkind]; decide),
        if_pos hkind] at hread
      split at hread
      · cases hread
      · rename_i hlast
        obtain ⟨k, hk, -⟩ := closeLoop_closes hlast
        exact ⟨k, hp ▸ hk⟩
  | @further room i j s hs _ ih =>
    rw [stepLoop] at hrun
    rcases hs.read fuel with ⟨stop, hread⟩ | hread
    · rw [hread] at hrun
      exact ih hrun
    · rw [hread] at hrun
      cases hrun

theorem readStep_isSome (h : ∀ p, Comes src p room i → ∃ k, Closes src false 0 p k) :
    readStep src (src.length + 1) i ≠ none := by
  unfold readStep
  dsimp only
  split
  · rename_i hdot
    split
    · split <;> exact Option.some_ne_none _
    · split
      · split <;> exact Option.some_ne_none _
      · split
        · rename_i hkind
          obtain ⟨k, hk⟩ := h _ (.here hdot hkind rfl)
          rw [hk.loop rfl (by omega)]
          exact Option.some_ne_none _
        · exact Option.some_ne_none _
  · split <;> exact Option.some_ne_none _

theorem stepLoop_isSome {root : Nat} {steps : List Step}
    (h : ∀ p, Comes src p room i → ∃ k, Closes src false 0 p k) :
    ∃ r, stepLoop src (src.length + 1) root room steps i = some r := by
  fun_induction stepLoop src (src.length + 1) root room steps i with
  | case1 _ _ _ hread => exact absurd hread (readStep_isSome h)
  | case2 => exact ⟨_, rfl⟩
  | case3 => exact ⟨_, rfl⟩
  | case4 => exact ⟨_, rfl⟩
  | case5 _ _ _ _ _ hread _ ih => exact ih fun p hp => h p (.further (readStep_turn hread) hp)

theorem Steps.swap {nest' : Bool} (h : Steps src nest i ss j) (hlen : ss.length ≤ room)
    (hclosed : ∀ p, Comes src p room i → ∃ k, ∀ b, Closes src b 0 p k) : Steps src nest' i ss j := by
  induction h generalizing room with
  | nil => exact .nil
  | @cons i j k s ss hs _ ih =>
    have hany : ∀ b, Stands src b i s j := by
      intro b
      cases hs with
      | field hdot hkind hfits => exact .field hdot hkind hfits
      | index hdot hkind hfits => exact .index hdot hkind hfits
      | dynamicIndex hdot hkind hcloses =>
        obtain ⟨k, hk⟩ := hclosed _ (.here hdot hkind rfl)
        cases hcloses.unique (hk nest)
        exact .dynamicIndex hdot hkind (hk b)
    obtain ⟨room, rfl⟩ : ∃ n, room = n + 1 := ⟨room - 1, by rw [List.length_cons] at hlen; omega⟩
    exact .cons (hany nest') (ih (Nat.le_of_succ_le_succ hlen) fun p hp =>
      hclosed p (.further (hany false) hp))

theorem Comes.matches {p : Nat} (h : Comes src p room i) (hk : Closes src false 0 p k)
    (hflat : Steps src false i ss j) (hends : Ends src j) {j' : Nat}
    (hnested : Steps src true i ss j') : Closes src true 0 p k := by
  induction h generalizing ss with
  | here hdot hkind hp =>
    cases hflat with
    | nil => exact absurd hdot hends.1
    | cons hs =>
      cases hs with
      | field _ hkind' => cases hkind.symm.trans hkind'
      | index _ hkind' => cases hkind.symm.trans hkind'
      | dynamicIndex _ _ hcloses =>
        subst hp
        cases hcloses.unique hk
        cases hnested with
        | cons hs' =>
          cases hs' with
          | dynamicIndex _ _ hcloses' => exact hcloses'
  | further hs _ ih =>
    cases hflat with
    | nil => exact absurd hs.dot hends.1
    | cons hs' hflat =>
      obtain ⟨rfl, rfl⟩ := hs.unique hs'
      cases hnested with
      | cons hs'' hnested =>
        cases hs''.stop_eq hs
        exact ih hflat hnested

end Places

/-! ## When the scanner is right -/

section Scanner

variable {src : Bytes} {i : Nat}

theorem parsePlacePath_reads {fuel : Nat} {r : Except PlaceError PlacePath × Nat}
    (h : parsePlacePath src fuel i = some r) :
    match r with
    | (.ok path, j) => Reads src false i path j
    | (.error _, j) => j = i ∧ ∀ path k, ¬ Reads src false i path k := by
  unfold parsePlacePath at h
  dsimp only at h
  split at h
  · rename_i hname
    cases h
    exact ⟨rfl, fun _ _ hreads => hname hreads.name⟩
  · rename_i hname
    split at h
    · cases h
    · rename_i hloop
      cases h
      exact ⟨rfl, fun _ _ hreads => stepLoop_went hloop _ _ hreads.steps hreads.few hreads.ends⟩
    · rename_i steps j hloop
      cases h
      obtain ⟨ss, rfl, hss, hlen, hends⟩ := stepLoop_went hloop
      exact ⟨not_not.mp hname, rfl, hss, hlen, hends, rfl⟩

theorem parsePlacePath_closed {fuel : Nat} {r : Except PlaceError PlacePath × Nat}
    (h : parsePlacePath src fuel i = some r) : ¬ Unclosed src i := by
  rintro ⟨hname, p, hp, hnone⟩
  unfold parsePlacePath at h
  dsimp only at h
  rw [if_neg (not_not.mpr hname)] at h
  cases hloop : stepLoop src fuel (next src i).start 8 [] (next src i).stop with
  | none =>
    rw [hloop] at h
    cases h
  | some r =>
    obtain ⟨k, hk⟩ := hp.closes hloop
    exact hnone k hk

theorem parsePlacePath_isSome (h : ¬ Unclosed src i) :
    ∃ r, parsePlacePath src (src.length + 1) i = some r := by
  unfold parsePlacePath
  dsimp only
  split
  · exact ⟨_, rfl⟩
  · rename_i hname
    have hclosed : ∀ p, Comes src p 8 (next src i).stop → ∃ k, Closes src false 0 p k := by
      intro p hp
      by_contra hnone
      exact h ⟨not_not.mp hname, p, hp, fun k hk => hnone ⟨k, hk⟩⟩
    obtain ⟨r, hr⟩ := stepLoop_isSome hclosed
    rw [hr]
    match r with
    | .error _ => exact ⟨_, rfl⟩
    | .ok (_, _) => exact ⟨_, rfl⟩

theorem Reads.swap {nest nest' : Bool} {path : PlacePath} {j : Nat}
    (h : Reads src nest i path j) (hopen : ¬ Unclosed src i) (hflat : ¬ Nests src i) :
    Reads src nest' i path j := by
  refine { h with steps := h.steps.swap h.few fun p hp => ?_ }
  by_contra hnone
  refine hopen ⟨h.name, p, hp, fun k hk => hflat ⟨h.name, p, hp, k, hk, fun hk' => hnone ?_⟩⟩
  exact ⟨k, fun b => by cases b <;> assumption⟩

theorem Reads.not_nests {path path' : PlacePath} {j j' : Nat} (h : Reads src false i path j)
    (h' : Reads src true i path' j') (hsteps : path'.steps = path.steps) : ¬ Nests src i := by
  rintro ⟨-, p, hp, k, hk, hnot⟩
  exact hnot (hp.matches hk h.steps h.ends (hsteps ▸ h'.steps))

theorem Exact.no_place (h : Exact src i) (hnests : Nests src i) :
    ∀ nest path j, ¬ Reads src nest i path j := by
  obtain ⟨fuel, r, hr, hright⟩ := h
  have hreads := parsePlacePath_reads hr
  match r with
  | (.ok path, j) => exact absurd hnests (hreads.not_nests hright rfl)
  | (.error _, j) =>
    intro nest
    cases nest with
    | false => exact hreads.2
    | true => exact hright.2

end Scanner

/-- The scanner is right exactly where every computed index that it comes to has a parenthesis
that closes behind it, and that is the one that matches each of them, or no reading of the
parentheses gives a place. -/
theorem parsePlacePath_exact_iff (src : Bytes) (i : Nat) :
    Exact src i ↔ ¬ Unclosed src i ∧
      (¬ Nests src i ∨ ∀ nest path j, ¬ Reads src nest i path j) := by
  constructor
  · intro h
    refine ⟨?_, Classical.or_iff_not_imp_left.mpr fun hnests => h.no_place (not_not.mp hnests)⟩
    obtain ⟨fuel, r, hr, -⟩ := h
    exact parsePlacePath_closed hr
  · rintro ⟨hopen, hcases⟩
    obtain ⟨r, hr⟩ := parsePlacePath_isSome hopen
    refine ⟨_, r, hr, ?_⟩
    have hreads := parsePlacePath_reads hr
    match r with
    | (.ok path, j) =>
      have hflat : ¬ Nests src i := hcases.resolve_right fun hnone => hnone _ _ _ hreads
      exact hreads.swap hopen hflat
    | (.error _, j) =>
      refine ⟨hreads.1, fun path k hk => ?_⟩
      rcases hcases with hflat | hnone
      · exact hreads.2 path k (hk.swap hopen hflat)
      · exact hnone _ _ _ hk

/-- An index that is not closed keeps the scanner for ever. -/
theorem unclosed_index_hangs :
    (∀ fuel, parsePlacePath (ascii "x.(") fuel 0 = none) ∧ ¬ Exact (ascii "x.(") 0 := by
  have hend : kindAt (ascii "x.(") 3 = .eof := by decide
  have hopen : Unclosed (ascii "x.(") 0 := by
    refine ⟨by decide, 3,
      .here (by decide) (by decide) (by decide), fun k hk => ?_⟩
    cases hk with
    | close h => cases hend.symm.trans h
    | up _ h => cases hend.symm.trans h
    | pass _ h => exact h hend
  have hnone : ∀ fuel, parsePlacePath (ascii "x.(") fuel 0 = none := fun fuel =>
    Option.eq_none_iff_forall_ne_some.mpr fun r hr => parsePlacePath_closed hr hopen
  refine ⟨hnone, ?_⟩
  rintro ⟨fuel, r, hr, -⟩
  cases (hnone fuel).symm.trans hr

end Tyu.Place

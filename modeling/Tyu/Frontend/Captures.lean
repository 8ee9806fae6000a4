import Tyu.Frontend.Iface
import Tyu.Frontend.Kept
import Tyu.Frontend.Relex

/-!
# Captured spans

Later phases lex again what the parser captured. From any position on, whatever is answered where
the parser asks, it comes to an end, asks only about clauses with a bracket at either end, and the
spans that it captures lie among the tokens.
-/

namespace Tyu.Frontend

open Lib

/-- A span of the source, by the tokens in it: from the first to the last one, up to the token
behind them, or between the first and the last one, which are brackets. -/
inductive Span where
  | tokens (r : Range)
  | body (r : Range)
  | inner (r : Range)

def Span.start (src : Bytes) : Span → Nat
  | .tokens r => startAt src r.start
  | .body r => startAt src r.start
  | .inner r => startAt src r.start + 1

def Span.stop (src : Bytes) : Span → Nat
  | .tokens r => if r.start < r.stop then stopAt src (r.stop - 1) else startAt src r.start
  | .body r => startAt src r.stop
  | .inner r => stopAt src (r.stop - 1) - 1

def Span.seen : Span → Range
  | .tokens r => r
  | .body r => r
  | .inner r => ⟨r.start + 1, r.stop - 1⟩

def isBracket : TokenKind → Bool
  | .lParen | .rParen | .lBracket | .rBracket | .lBrace | .rBrace => true
  | _ => false

def Range.Fits (toks : List Token) (r : Range) : Prop := r.start ≤ r.stop ∧ r.stop ≤ toks.length

structure Range.Enclosed (toks : List Token) (r : Range) : Prop where
  stop_le : r.stop ≤ toks.length
  apart : r.start + 1 < r.stop
  first : ∃ t, toks[r.start]? = some t ∧ isBracket t.kind = true
  last : ∃ t, toks[r.stop - 1]? = some t ∧ isBracket t.kind = true

def Span.Fits (toks : List Token) : Span → Prop
  | .tokens r => r.Fits toks
  | .body r => r.Fits toks
  | .inner r => r.Enclosed toks

def AttrAst.span : AttrAst → Span
  | .interrupt parens => .inner parens
  | .other text => .tokens text

def DeclAst.spans (d : DeclAst) : List Span :=
  .tokens d.name :: d.attrs.items.map AttrAst.span ++ d.body.toList.map .body ++
    (d.sig.toList ++ d.requires.toList ++ d.ensures.toList ++ d.intent.toList ++
      d.capSet.toList).map .tokens

def ImportAst.spans (i : ImportAst) : List Span := (i.module :: i.names.items).map .tokens

def SubtypeAst.spans (s : SubtypeAst) : List Span := [.tokens s.name, .tokens s.base]

def RegMapInstanceAst.spans (i : RegMapInstanceAst) : List Span :=
  (i.name :: i.map :: i.baseAddr :: i.boardInstance.toList).map .tokens

def StructDeclAst.spans (s : StructDeclAst) : List Span :=
  .tokens s.name :: s.fields.items.flatMap fun f => [.tokens f.name, .tokens f.ty]

def EnumDeclAst.spans (e : EnumDeclAst) : List Span :=
  .tokens e.name :: e.base.toList.map .tokens ++ e.variants.items.map fun v => .tokens v.name

def ModuleAst.spans (a : ModuleAst) : List Span :=
  .tokens a.name :: a.imports.items.flatMap ImportAst.spans ++ a.exports.items.map .tokens ++
    a.decls.items.flatMap DeclAst.spans ++ a.subtypes.items.flatMap SubtypeAst.spans ++
    a.instances.items.flatMap RegMapInstanceAst.spans ++
    a.structs.items.flatMap StructDeclAst.spans ++ a.enums.items.flatMap EnumDeclAst.spans

def AllFit (toks : List Token) (spans : List Span) : Prop := ∀ s ∈ spans, s.Fits toks

theorem AllFit.append {toks : List Token} {l m : List Span} (hl : AllFit toks l)
    (hm : AllFit toks m) : AllFit toks (l ++ m) := List.forall_mem_append.mpr ⟨hl, hm⟩

theorem AllFit.nil {toks : List Token} : AllFit toks [] := fun _ hs => absurd hs List.not_mem_nil

/-! ## What a run does -/

def Site.range : Site → Range
  | .performs clause => clause
  | .interrupt parens => parens

/-- Every run from a position on: its result, that it is not stuck, and that it asks about
bracketed clauses only. -/
structure Runs {α : Type} (toks : List Token) (i : Nat) (p : P α) (Q : α → Nat → Prop) : Prop where
  ok : ∀ {pass a j l}, p.run pass toks i = .ok (a, j, l) → Q a j
  moves : ∀ pass, p.run pass toks i ≠ .error .stuck
  asks : ∀ {pass pass' : Site → Bool}, (∀ s : Site, s.range.Enclosed toks → pass s = pass' s) →
    p.run pass toks i = p.run pass' toks i

section Rules

variable {α β : Type} {toks : List Token} {i : Nat} {p : P α} {f : α → P β} {a : α}
  {Q : α → Nat → Prop} {R : β → Nat → Prop} {e : ParseError}

theorem Runs.pure (h : Q a i) : Runs toks i (pure a : P α) Q where
  ok := by
    intro pass b j l hrun
    cases hrun
    exact h
  moves := fun _ h => nomatch h
  asks := fun _ => rfl

theorem Runs.fail (he : e ≠ .stuck) : Runs toks i (fail e : P α) Q where
  ok := fun h => nomatch h
  moves := fun _ h => he (Except.error.inj h)
  asks := fun _ => rfl

theorem Runs.mono {Q' : α → Nat → Prop} (h : Runs toks i p Q) (hQ : ∀ a j, Q a j → Q' a j) :
    Runs toks i p Q' := ⟨fun hrun => hQ _ _ (h.ok hrun), h.moves, h.asks⟩

theorem Runs.forward (h : Runs toks i p Q) : Runs toks i p fun a j => Q a j ∧ i ≤ j :=
  ⟨fun {pass _ _ _} hrun => ⟨h.ok hrun, (p.forward pass toks i _ hrun).1⟩, h.moves, h.asks⟩

theorem Runs.bind (hi : i ≤ toks.length) (hp : Runs toks i p Q)
    (hf : ∀ a j, i ≤ j → j ≤ toks.length → Q a j → Runs toks j (f a) R) :
    Runs toks i (p >>= f) R := by
  have hnext : ∀ {pass a j l}, p.run pass toks i = .ok (a, j, l) → Runs toks j (f a) R := by
    intro pass a j l hrun
    have hmove := p.forward pass toks i _ hrun
    rw [Nat.max_eq_right hi] at hmove
    exact hf a j hmove.1 hmove.2 (hp.ok hrun)
  constructor
  · intro pass b k l hrun
    obtain ⟨a, j, _, _, ha, hb, -⟩ := SiteParser.run_bind_eq_ok.mp hrun
    exact (hnext ha).ok hb
  · intro pass hrun
    change SiteParser.andThen (p.run pass toks i) _ = _ at hrun
    cases ha : p.run pass toks i with
    | error e' =>
      rw [ha] at hrun
      exact hp.moves pass (ha.trans (congrArg Except.error (Except.error.inj hrun)))
    | ok r =>
      obtain ⟨a, j, l⟩ := r
      rw [ha] at hrun
      unfold SiteParser.andThen at hrun
      dsimp only at hrun
      cases hb : (f a).run pass toks j with
      | error e' =>
        rw [hb] at hrun
        exact (hnext ha).moves pass (hb.trans (congrArg Except.error (Except.error.inj hrun)))
      | ok r' =>
        rw [hb] at hrun
        cases hrun
  · intro pass pass' hsame
    show SiteParser.andThen _ _ = SiteParser.andThen _ _
    rw [hp.asks hsame]
    cases ha : p.run pass' toks i with
    | error e' => rfl
    | ok r =>
      obtain ⟨a, j, l⟩ := r
      unfold SiteParser.andThen
      dsimp only
      rw [(hnext ha).asks hsame]

theorem Runs.pureBind {f : α → P β} (hi : i ≤ toks.length) (h : Runs toks i (f a) R) :
    Runs toks i (Pure.pure a >>= f) R := by
  have hpure : Runs toks i (Pure.pure a : P α) fun b j => b = a ∧ j = i := .pure ⟨rfl, rfl⟩
  refine .bind hi hpure fun b j _ _ hb => ?_
  obtain ⟨rfl, rfl⟩ := hb
  exact h

theorem Runs.advancing (h : Runs toks i p Q) (hp : Advances p) (hi : i < toks.length) :
    Runs toks i p fun a j => Q a j ∧ i < j :=
  ⟨fun hrun => ⟨h.ok hrun, hp _ _ _ _ _ _ hi hrun⟩, h.moves, h.asks⟩

theorem Runs.failBind {f : α → P β} (hi : i ≤ toks.length) (he : e ≠ .stuck) :
    Runs toks i (Frontend.fail e >>= f) R :=
  .bind (Q := fun _ _ => False) hi (.fail he) fun _ _ _ _ h => h.elim

theorem Runs.either {γ δ : Type} {c : Prop} [Decidable c] {q : P γ} {g : γ → δ} {d : δ}
    {f : δ → P β} {G : δ → Prop} (hi : i ≤ toks.length)
    (hq : c → Runs toks i q fun a _ => G (g a)) (hd : G d)
    (hf : ∀ x j, i ≤ j → j ≤ toks.length → G x → Runs toks j (f x) R) :
    Runs toks i (if c then q >>= fun a => Pure.pure (g a) >>= f else Pure.pure d >>= f) R := by
  split
  · rename_i hc
    exact .bind hi (hq hc) fun a j hij hj ha => .pureBind hj (hf _ j hij hj ha)
  · exact .pureBind hi (hf _ i (Nat.le_refl i) hi hd)

theorem Runs.look {f : Token → P β} (hi : i ≤ toks.length)
    (h : Runs toks i (f ((toks[i]?).getD .eof)) R) : Runs toks i (look >>= f) R := by
  have hlook : Runs toks i Frontend.look fun t j => t = (toks[i]?).getD .eof ∧ j = i := by
    refine ⟨?_, fun _ h => (nomatch h), fun _ => rfl⟩
    intro pass t j l hrun
    cases hrun
    exact ⟨rfl, rfl⟩
  refine .bind hi hlook fun t j _ _ ht => ?_
  obtain ⟨rfl, rfl⟩ := ht
  exact h

theorem Runs.lookNext {f : TokenKind → P β} (hi : i ≤ toks.length)
    (h : ∀ kind, Runs toks i (f kind) R) : Runs toks i (lookNext >>= f) R := by
  have hlook : Runs toks i Frontend.lookNext fun _ j => j = i := by
    refine ⟨?_, fun _ h => (nomatch h), fun _ => rfl⟩
    intro pass t j l hrun
    cases hrun
    rfl
  refine .bind hi hlook fun kind j _ _ hj => ?_
  subst hj
  exact h kind

theorem Runs.pos {f : Nat → P β} (hi : i ≤ toks.length) (h : Runs toks i (f i) R) :
    Runs toks i (pos >>= f) R := by
  have hpos : Runs toks i Frontend.pos fun k j => k = i ∧ j = i := by
    refine ⟨?_, fun _ h => (nomatch h), fun _ => rfl⟩
    intro pass k j l hrun
    cases hrun
    exact ⟨rfl, rfl⟩
  refine .bind hi hpos fun k j _ _ hk => ?_
  obtain ⟨rfl, rfl⟩ := hk
  exact h

theorem bump_runs (hi : i ≤ toks.length) :
    Runs toks i bump fun _ j => j ≤ toks.length ∧ i ≤ j ∧ (i < toks.length → j = i + 1) := by
  refine ⟨?_, fun _ h => (nomatch h), fun _ => rfl⟩
  intro pass u j l hrun
  cases hrun
  show min (i + 1) (max i toks.length) ≤ _ ∧ i ≤ min (i + 1) (max i toks.length) ∧
    (i < toks.length → min (i + 1) (max i toks.length) = i + 1)
  omega

theorem Runs.bump {f : Unit → P β} (hi : i ≤ toks.length)
    (h : ∀ j, i ≤ j → j ≤ toks.length → (i < toks.length → j = i + 1) → Runs toks j (f ()) R) :
    Runs toks i (bump >>= f) R :=
  .bind hi (bump_runs hi) fun _ j _ _ hj => h j hj.2.1 hj.1 hj.2.2

theorem Runs.check {site : Site} {f : Unit → P β} (hi : i ≤ toks.length) (he : e ≠ .stuck)
    (hsite : site.range.Enclosed toks) (h : Runs toks i (f ()) R) :
    Runs toks i (SiteParser.check site e >>= f) R := by
  have hcheck : Runs toks i (SiteParser.check site e : P Unit) fun _ j => j = i := by
    constructor
    · intro pass u j l hrun
      change (if pass site then _ else _) = _ at hrun
      split at hrun
      · cases hrun
        rfl
      · cases hrun
    · intro pass hrun
      change (if pass site then _ else _) = _ at hrun
      split at hrun
      · cases hrun
      · exact he (Except.error.inj hrun)
    · intro pass pass' hsame
      show (if pass site then _ else _) = (if pass' site then _ else _)
      rw [hsame site hsite]
  refine .bind hi hcheck fun u j _ _ hj => ?_
  subst hj
  exact h

def Turned {σ : Type} (I : σ → Nat → Prop) (R : β → Nat → Prop) (i : Nat) : σ ⊕ β → Nat → Prop
  | .inl s, j => I s j ∧ i < j
  | .inr b, j => R b j

theorem Runs.again {σ : Type} {I : σ → Nat → Prop} {s : σ} {j : Nat} (hs : I s j) (hij : i < j) :
    Runs toks j (Pure.pure (.inl s)) (Turned I R i) := .pure ⟨hs, hij⟩

theorem Runs.done {σ : Type} {I : σ → Nat → Prop} {b : β} {j : Nat} (hb : R b j) :
    Runs toks j (Pure.pure (.inr b)) (Turned I R i) := .pure hb

theorem Runs.loop {σ : Type} {body : σ → P (σ ⊕ β)} {s : σ} {I : σ → Nat → Prop}
    (hi : i ≤ toks.length) (hs : I s i)
    (hbody : ∀ s j, i ≤ j → j ≤ toks.length → I s j → Runs toks j (body s) (Turned I R j)) :
    Runs toks i (loop body s) R := by
  have hturns : ∀ n s j, i ≤ j → j ≤ toks.length → toks.length < n + j → I s j →
      Runs toks j (SiteParser.turns .stuck body n s) R := by
    intro n
    induction n with
    | zero =>
      intro s j _ hj hn
      omega
    | succ n ih =>
      intro s j hij hj hn hI
      refine .bind hj (hbody s j hij hj hI) fun r k hjk hk hr => ?_
      cases r with
      | inl s' => exact ih s' k (by omega) hk (by have := hr.2; omega) hr.1
      | inr b => exact .pure hr
  have hrun := hturns (toks.length + 1) s i (Nat.le_refl i) hi (by omega) hs
  exact ⟨hrun.ok, hrun.moves, hrun.asks⟩

theorem lt_of_look {kind : TokenKind} (hkind : kind ≠ .eof)
    (h : ((toks[i]?).getD .eof).kind = kind) : i < toks.length := by
  by_contra hi
  rw [List.getElem?_eq_none (Nat.le_of_not_lt hi)] at h
  exact hkind h.symm

theorem push_runs {γ : Type} {cap : Nat} {v : FixedVec γ cap} {x : γ} :
    Runs toks i (push v x) fun w j => w.items = v.items ++ [x] ∧ j = i := by
  refine ⟨run_push, ?_, ?_⟩
  · intro pass hrun
    unfold push at hrun
    split at hrun
    · cases hrun
    · cases hrun
  · intro pass pass' _
    unfold push
    split <;> rfl

theorem expect_runs {kind : TokenKind} (hi : i ≤ toks.length) (hkind : kind ≠ .eof)
    (he : e ≠ .stuck) : Runs toks i (expect kind e) fun _ j =>
      j = i ∧ ∃ t, toks[i]? = some t ∧ t.kind = kind := by
  refine .look hi ?_
  split
  · rename_i hlook
    have hlt := lt_of_look hkind hlook
    rw [List.getElem?_eq_getElem hlt] at hlook ⊢
    exact .pure ⟨rfl, _, rfl, hlook⟩
  · exact .fail he

theorem eat_runs {kind : TokenKind} (hi : i ≤ toks.length) (hkind : kind ≠ .eof)
    (he : e ≠ .stuck) : Runs toks i (eat kind e) fun r j =>
      r = ⟨i, i + 1⟩ ∧ j = i + 1 ∧ ∃ t, toks[i]? = some t ∧ t.kind = kind := by
  refine .bind hi (expect_runs hi hkind he) fun _ j _ _ h => ?_
  obtain ⟨rfl, t, ht, hk⟩ := h
  refine .pos hi (.bump hi fun j _ _ hnext => .pure ⟨rfl, hnext ?_, t, ht, hk⟩)
  exact (List.getElem?_eq_some_iff.mp ht).1

end Rules

/-! ## The parsers -/

section Parsers

variable {toks : List Token} {i : Nat} {e : ParseError}

theorem lt_of_look_ne (h : ¬ ((toks[i]?).getD .eof).kind = .eof) : i < toks.length :=
  lt_of_look h rfl

theorem namePath_runs {separator : TokenKind} {first rest : ParseError} (hi : i ≤ toks.length)
    (hsep : separator ≠ .eof) (hfirst : first ≠ .stuck) (hrest : rest ≠ .stuck) :
    Runs toks i (namePath separator first rest) fun r j => r = ⟨i, j⟩ ∧ i < j := by
  refine .pos hi (.bind hi (eat_runs hi (by decide) hfirst) fun _ j _ hj h => ?_)
  obtain ⟨-, rfl, -⟩ := h
  have hloop : Runs toks (i + 1) (loop (fun _ => do
      let t ← look
      if t.kind = separator then do
        bump
        let _ ← eat .ident rest
        pure (.inl ())
      else pure (.inr ())) ()) fun _ _ => True := by
    refine .loop (I := fun _ _ => True) hj trivial fun _ k _ hk _ => .look hk ?_
    split
    · rename_i hlook
      have hlt := lt_of_look hsep hlook
      refine .bump hk fun m hm hm' hnext => .bind hm' (eat_runs hm' (by decide) hrest) ?_
      intro _ n hmn _ _
      have hnext := hnext hlt
      exact .again trivial (by omega)
    · exact .done trivial
  exact .bind hj hloop fun _ k hk hk' _ => .pos hk' (.pure ⟨rfl, hk⟩)

theorem modulePath_runs (hi : i ≤ toks.length) (he : e ≠ .stuck) :
    Runs toks i (modulePath e) fun r j => r = ⟨i, j⟩ ∧ i < j :=
  namePath_runs hi (by decide) he he

theorem captureQualifiedName_runs (hi : i ≤ toks.length) (he : e ≠ .stuck) :
    Runs toks i (captureQualifiedName e) fun r j => r = ⟨i, j⟩ ∧ i < j :=
  namePath_runs hi (by decide) he he

theorem skipBalanced_runs {opening close : TokenKind} (hi : i < toks.length) :
    Runs toks i (skipBalanced opening close) fun closed j => closed = true →
      i + 1 < j ∧ ∃ t, toks[j - 1]? = some t ∧ t.kind = close := by
  refine .bump (Nat.le_of_lt hi) fun j _ hj hnext => ?_
  obtain rfl := hnext hi
  refine .loop (I := fun _ _ => True) hj trivial fun depth k hk hk' _ => .look hk' ?_
  split
  · exact .done fun h => nomatch h
  · rename_i hlook
    have hlt := lt_of_look_ne hlook
    refine .bump hk' fun m _ hm hnext => ?_
    obtain rfl := hnext hlt
    have hlt' := Nat.lt_succ_self k
    split
    · exact .again trivial hlt'
    · split
      · rename_i hclose
        split
        · refine .done fun _ => ⟨by omega, toks[k], List.getElem?_eq_getElem hlt, ?_⟩
          rwa [List.getElem?_eq_getElem hlt] at hclose
        · exact .again trivial hlt'
      · exact .again trivial hlt'

theorem captureBalanced_runs {opening close : TokenKind} (hi : i ≤ toks.length)
    (hopening : isBracket opening = true) (hclose : isBracket close = true) (he : e ≠ .stuck) :
    Runs toks i (captureBalanced opening close e) fun r j => r = ⟨i, j⟩ ∧ r.Enclosed toks := by
  have hkind : opening ≠ .eof := by
    rintro rfl
    cases hopening
  refine .bind hi (expect_runs hi hkind he) fun _ j _ _ h => ?_
  obtain ⟨rfl, t, ht, htkind⟩ := h
  have hlt := (List.getElem?_eq_some_iff.mp ht).1
  refine .pos hi (.bind hi (skipBalanced_runs hlt) fun closed k _ hk hclosed => .pos hk ?_)
  split
  · rename_i hyes
    obtain ⟨hapart, t', ht', htkind'⟩ := hclosed hyes
    exact .pure ⟨rfl, hk, hapart, ⟨t, ht, htkind ▸ hopening⟩, t', ht', htkind' ▸ hclose⟩
  · exact .fail he

theorem Range.Enclosed.fits {r : Range} (h : r.Enclosed toks) : r.Fits toks :=
  ⟨by have := h.apart; omega, h.stop_le⟩

theorem dumpTermsUntil_runs {stop : TokenKind} (hi : i ≤ toks.length) :
    Runs toks i (dumpTermsUntil stop) fun _ _ => True := by
  refine .loop (I := fun _ _ => True) hi trivial fun _ k _ hk _ => .look hk ?_
  have hgroup : ∀ (opening close : TokenKind) (e : ParseError), isBracket opening = true →
      isBracket close = true → e ≠ .stuck → Runs toks k (do
        let _ ← captureBalanced opening close e
        pure (.inl ())) (Turned (fun (_ : Unit) _ => True) (fun (_ : Unit) _ => True) k) := by
    intro opening close e hopening hclose he
    refine .bind hk (captureBalanced_runs hk hopening hclose he) fun r j _ _ h => ?_
    obtain ⟨rfl, h⟩ := h
    have hapart := h.apart
    exact .again trivial (by dsimp only at hapart; omega)
  split
  · exact .done trivial
  · rename_i hlook
    have hlt := lt_of_look_ne (not_or.mp hlook).2
    split
    · exact hgroup .lBracket .rBracket .unmatchedBracket rfl rfl (by decide)
    · split
      · exact hgroup .lBrace .rBrace .unmatchedBrace rfl rfl (by decide)
      · split
        · exact hgroup .lParen .rParen .unmatchedParen rfl rfl (by decide)
        · refine .bump hk fun j _ _ hnext => .again trivial ?_
          have := hnext hlt
          omega

theorem skipToSemi_runs (hi : i ≤ toks.length) : Runs toks i skipToSemi fun _ _ => True := by
  refine .loop (I := fun _ _ => True) hi trivial fun _ k _ hk _ => .look hk ?_
  split
  · exact .done trivial
  · rename_i hlook
    have hlt := lt_of_look_ne hlook
    split
    · exact .bump hk fun _ _ _ _ => .done trivial
    · refine .bump hk fun j _ _ hnext => .again trivial ?_
      have := hnext hlt
      omega

theorem skipUntilSemi_runs (hi : i ≤ toks.length) :
    Runs toks i skipUntilSemi fun _ _ => True := by
  refine .bind hi (skipToSemi_runs hi) fun found j _ _ _ => ?_
  split
  · exact .pure trivial
  · exact .fail (by decide)

def RangesFit (toks : List Token) (rs : List Range) : Prop := ∀ r ∈ rs, r.Fits toks

theorem RangesFit.snoc {rs : List Range} {r : Range} (h : RangesFit toks rs) (hr : r.Fits toks) :
    RangesFit toks (rs ++ [r]) := by
  intro r' hr'
  rcases List.mem_append.mp hr' with hr' | hr'
  · exact h r' hr'
  · rw [List.mem_singleton.mp hr']
    exact hr

theorem RangesFit.tokens {rs : List Range} (h : RangesFit toks rs) :
    AllFit toks (rs.map .tokens) := by
  intro s hs
  obtain ⟨r, hr, rfl⟩ := List.mem_map.mp hs
  exact h r hr

theorem nameList_runs {cap : Nat} {names : FixedVec Range cap} (hi : i ≤ toks.length)
    (he : e ≠ .stuck) (hnames : RangesFit toks names.items) :
    Runs toks i (nameList e names) fun w _ => RangesFit toks w.items := by
  refine .loop (I := fun w _ => RangesFit toks w.items) hi hnames fun w k _ hk hw => .look hk ?_
  split
  · exact .done hw
  · rename_i hlook
    have hlt := lt_of_look_ne (not_or.mp hlook).2
    split
    · refine .bind hk (captureQualifiedName_runs hk he) fun r j _ hj hr => ?_
      obtain ⟨rfl, hkj⟩ := hr
      refine .bind hj push_runs fun w' j' _ _ hw' => ?_
      obtain ⟨hitems, rfl⟩ := hw'
      refine .again ?_ hkj
      rw [hitems]
      exact hw.snoc ⟨Nat.le_of_lt hkj, hj⟩
    · refine .bump hk fun j _ _ hnext => .again hw ?_
      have := hnext hlt
      omega

theorem skipSemi_runs (hi : i ≤ toks.length) : Runs toks i skipSemi fun _ _ => True := by
  refine .look hi ?_
  split
  · exact (bump_runs hi).mono fun _ _ _ => trivial
  · exact .pure trivial

theorem braced_runs {α : Type} {cap : Nat} {names : FixedVec Range cap} {e' : ParseError}
    {f : FixedVec Range cap → P α} {R : α → Nat → Prop} (hi : i ≤ toks.length) (he : e ≠ .stuck)
    (he' : e' ≠ .stuck) (hnames : RangesFit toks names.items)
    (hf : ∀ w j, i ≤ j → j ≤ toks.length → RangesFit toks w.items → Runs toks j (f w) R) :
    Runs toks i (do
      bump
      let names ← nameList e names
      let _ ← eat .rBrace e'
      let names ← pure names
      f names) R := by
  refine .bump hi fun j hij hj _ => .bind hj (nameList_runs hj he hnames) fun w k hjk hk hw => ?_
  refine .bind hk (eat_runs hk (by decide) he') fun _ m hkm hm _ => .pureBind hm ?_
  exact hf w m (by omega) hm hw

theorem parseImportAst_runs (hi : i ≤ toks.length) :
    Runs toks i parseImportAst fun a _ => AllFit toks a.spans := by
  refine .bump hi fun j _ hj _ => .bind hj (modulePath_runs hj (by decide)) ?_
  intro r k _ hk hr
  obtain ⟨rfl, hjk⟩ := hr
  have hrest : ∀ (w : FixedVec Range 64) m, k ≤ m → m ≤ toks.length → RangesFit toks w.items →
      Runs toks m (do
        skipSemi
        pure ⟨⟨j, k⟩, w⟩) fun a _ => AllFit toks (ImportAst.spans a) := by
    intro w m _ hm hw
    refine .bind hm (skipSemi_runs hm) fun _ _ _ _ _ => .pure (RangesFit.tokens ?_)
    exact List.forall_mem_cons.mpr ⟨⟨Nat.le_of_lt hjk, hk⟩, hw⟩
  refine .look hk ?_
  dsimp only
  split
  · exact braced_runs hk (by decide) (by decide) (fun _ h => absurd h List.not_mem_nil) hrest
  · exact .pureBind (by assumption) (hrest _ k (Nat.le_refl k) hk fun _ h => absurd h List.not_mem_nil)

theorem parseExportAst_runs {exports : FixedVec Range 256} (hi : i ≤ toks.length)
    (h : RangesFit toks exports.items) :
    Runs toks i (parseExportAst exports) fun w _ => RangesFit toks w.items := by
  refine .bump hi fun j _ hj _ => .look hj ?_
  have hrest : ∀ (w : FixedVec Range 256) m, j ≤ m → m ≤ toks.length → RangesFit toks w.items →
      Runs toks m (do
        skipSemi
        pure w) fun w _ => RangesFit toks (FixedVec.items w) :=
    fun w m _ hm hw => .bind hm (skipSemi_runs hm) fun _ _ _ _ _ => .pure hw
  dsimp only
  split
  · exact braced_runs hj (by decide) (by decide) h hrest
  · split
    · refine .bind hj (captureQualifiedName_runs hj (by decide)) fun r k _ hk hr => ?_
      obtain ⟨rfl, hjk⟩ := hr
      refine .bind hk push_runs fun w m hkm hm hw => hrest w m (by omega) hm ?_
      rw [hw.1]
      exact h.snoc ⟨Nat.le_of_lt hjk, hk⟩
    · exact .pureBind (by assumption) (hrest _ j (Nat.le_refl j) hj h)

/-! ### Words -/

theorem fits_some {r : Range} (h : r.Fits toks) : ∀ r' ∈ some r, r'.Fits toks := by
  intro r' hr'
  rw [← Option.mem_some.mp hr']
  exact h

theorem fits_none : ∀ r ∈ (none : Option Range), r.Fits toks := fun _ h => nomatch h

structure Clauses.Fit (toks : List Token) (c : Clauses) : Prop where
  requires : ∀ r ∈ c.requires, r.Fits toks
  ensures : ∀ r ∈ c.ensures, r.Fits toks
  intent : ∀ r ∈ c.intent, r.Fits toks
  capSet : ∀ r ∈ c.capSet, r.Fits toks

theorem captureFit_runs {opening close : TokenKind} (hi : i ≤ toks.length)
    (hopening : isBracket opening = true) (hclose : isBracket close = true) (he : e ≠ .stuck) :
    Runs toks i (captureBalanced opening close e) fun r _ => r.Fits toks :=
  (captureBalanced_runs hi hopening hclose he).mono fun _ _ h => h.2.fits

theorem parseRequires_runs {c : Clauses} (hi : i ≤ toks.length) (hc : c.Fit toks) :
    Runs toks i (parseRequires c) fun c' _ => c'.Fit toks := by
  refine .bump hi fun j _ hj _ => .look hj ?_
  split
  · exact .bind hj (captureFit_runs hj rfl rfl (by decide)) fun _ k _ _ hr =>
      .pure { hc with capSet := fits_some hr }
  · split
    · exact .fail (by decide)
    · exact .fail (by decide)

theorem parsePerforms_runs {c : Clauses} (hi : i ≤ toks.length) (hc : c.Fit toks) :
    Runs toks i (parsePerforms c) fun c' _ => c'.Fit toks := by
  have hrest : ∀ r k, k ≤ toks.length → r.Enclosed toks → Runs toks k (do
      SiteParser.check (.performs r) .unknownEffect
      pure { c with performs := some r }) fun c' _ => Clauses.Fit toks c' :=
    fun r k hk hr => .check hk (by decide) hr (.pure { hc with })
  refine .bump hi fun j _ hj _ => .look hj ?_
  dsimp only
  split
  · exact .bind hj (captureBalanced_runs hj rfl rfl (by decide)) fun r k _ hk hr => hrest r k hk hr.2
  · exact .bind hj (captureBalanced_runs hj rfl rfl (by decide)) fun r k _ hk hr => hrest r k hk hr.2

theorem parseClause_runs {c : Clauses} (hi : i ≤ toks.length) (hc : c.Fit toks) :
    Runs toks i (parseClause c ((toks[i]?).getD .eof)) fun r j =>
      ∀ c', r = some c' → c'.Fit toks ∧ i < j := by
  generalize ht : (toks[i]?).getD .eof = t
  have hlt : ∀ kind, kind ≠ .eof → t.kind = kind → i < toks.length :=
    fun kind hkind h => lt_of_look hkind (ht ▸ h)
  have hcontract : ∀ (f : Range → Clauses), i < toks.length →
      (∀ r, r.Fits toks → (f r).Fit toks) → Runs toks i (do
        bump
        let contract ← captureQuotation .expectedQuotation
        pure (some (f contract))) fun r j => ∀ c', r = some c' → c'.Fit toks ∧ i < j := by
    intro f hlt hf
    refine .bump hi fun j _ hj hnext => ?_
    refine .bind hj (captureFit_runs hj rfl rfl (by decide)) fun r k hjk _ hr => .pure ?_
    intro c' hc'
    cases hc'
    have := hnext hlt
    exact ⟨hf r hr, by omega⟩
  have hsub : ∀ p : P Clauses, Advances p → i < toks.length →
      Runs toks i p (fun c' _ => c'.Fit toks) → Runs toks i (do
        let c ← p
        pure (some c)) fun r j => ∀ c', r = some c' → c'.Fit toks ∧ i < j := by
    intro p hp hlt hrun
    refine .bind hi (hrun.advancing hp hlt) fun c j _ _ hc => .pure ?_
    intro c' hc'
    cases hc'
    exact hc
  unfold parseClause
  split
  · rename_i h
    exact hcontract _ (hlt _ (by decide) h) fun r hr => { hc with requires := fits_some hr }
  · split
    · rename_i h
      exact hsub _ (.first advances_bump) (hlt _ (by decide) h) (parseRequires_runs hi hc)
    · split
      · rename_i h
        exact hcontract _ (hlt _ (by decide) h) fun r hr => { hc with ensures := fits_some hr }
      · split
        · rename_i h
          have hlt := hlt .ident (by decide) (congrArg Token.kind h)
          refine .bump hi fun j _ hj hnext => ?_
          refine .bind hj (eat_runs hj (by decide) (by decide)) fun r k hjk hk hr => .pure ?_
          obtain ⟨rfl, rfl, -⟩ := hr
          intro c' hc'
          cases hc'
          have := hnext hlt
          exact ⟨{ hc with intent := fits_some ⟨Nat.le_succ j, hk⟩ }, by omega⟩
        · split
          · rename_i h
            exact hsub _ (.first advances_bump) (hlt _ (by decide) h) (parsePerforms_runs hi hc)
          · split
            · exact .fail (by decide)
            · exact .pure fun c' hc' => nomatch hc'

def AttrsFit (toks : List Token) (attrs : FixedVec AttrAst 16) : Prop :=
  AllFit toks (attrs.items.map AttrAst.span)

theorem DeclAst.fits {d : DeclAst} (hname : d.name.Fits toks) (hattrs : AttrsFit toks d.attrs)
    (hsig : ∀ r ∈ d.sig, r.Fits toks) (hbody : ∀ r ∈ d.body, r.Fits toks)
    (hclauses : Clauses.Fit toks ⟨d.requires, d.ensures, d.intent, d.capSet, none⟩) :
    AllFit toks d.spans := by
  intro s hs
  unfold DeclAst.spans at hs
  simp only [List.cons_append, List.mem_cons, List.mem_append, List.mem_map, Option.mem_toList] at hs
  rcases hs with rfl | ⟨⟨a, ha, rfl⟩ | ⟨r, hr, rfl⟩⟩ | ⟨r, hr, rfl⟩
  · exact hname
  · exact hattrs _ (List.mem_map_of_mem ha)
  · exact hbody r hr
  · rcases hr with (((hr | hr) | hr) | hr) | hr
    · exact hsig r hr
    · exact hclauses.requires r hr
    · exact hclauses.ensures r hr
    · exact hclauses.intent r hr
    · exact hclauses.capSet r hr

theorem DeclAst.plain_fits {kind : Irgen.DeclKind} {name : Range} {attrs : FixedVec AttrAst 16}
    (hname : name.Fits toks) (hattrs : AttrsFit toks attrs) :
    AllFit toks (DeclAst.plain kind name attrs).spans :=
  DeclAst.fits hname hattrs fits_none fits_none ⟨fits_none, fits_none, fits_none, fits_none⟩

theorem parseWordAst_runs {attrs : FixedVec AttrAst 16} (hi : i ≤ toks.length)
    (hattrs : AttrsFit toks attrs) : Runs toks i (parseWordAst attrs) fun d _ =>
      AllFit toks d.spans := by
  refine .bump hi fun j _ hj _ => .bind hj (captureQualifiedName_runs hj (by decide)) ?_
  intro name k _ hk hname
  have hname : name.Fits toks := by
    obtain ⟨rfl, hjk⟩ := hname
    exact ⟨Nat.le_of_lt hjk, hk⟩
  refine .look hk ?_
  dsimp only
  refine .either (G := fun sig => ∀ r ∈ sig, r.Fits toks) hk
    (fun _ => (captureFit_runs hk rfl rfl (by decide)).mono fun _ _ h => fits_some h) fits_none
    fun sig m _ hm hsig => .look hm (.lookNext hm fun next => ?_)
  split
  · exact .failBind hm (by decide)
  · refine .bind (Q := fun c _ => Clauses.Fit toks c) hm ?_ fun c m₁ _ hm₁ hc => .pos hm₁ ?_
    · refine .loop (I := fun c _ => Clauses.Fit toks c) hm
        ⟨fits_none, fits_none, fits_none, fits_none⟩ fun c n _ hn hc => .look hn ?_
      refine .bind hn (parseClause_runs hn hc) fun r n' _ _ hr => ?_
      cases r with
      | some c' =>
        obtain ⟨hc', hlt⟩ := hr c' rfl
        exact .again hc' hlt
      | none => exact .done hc
    · refine .bind hm₁ (dumpTermsUntil_runs hm₁) fun _ m₂ hm₁₂ hm₂ _ => .pos hm₂ ?_
      refine .bind hm₂ (eat_runs hm₂ (by decide) (by decide)) fun _ _ _ _ _ => .pure ?_
      exact DeclAst.fits hname hattrs hsig (fits_some ⟨hm₁₂, hm₂⟩)
        ⟨hc.requires, hc.ensures, hc.intent, hc.capSet⟩

/-! ### Other declarations -/

theorem integer_runs {kind : ParseError} (hi : i ≤ toks.length) (hkind : kind ≠ .stuck)
    (he : e ≠ .stuck) : Runs toks i (integer kind e) fun _ j => i < j := by
  refine .look hi (.bind hi (eat_runs hi (by decide) hkind) fun _ j _ _ h => ?_)
  obtain ⟨-, rfl, -⟩ := h
  split
  · exact .pure (Nat.lt_succ_self i)
  · exact .fail he

theorem fieldType_runs (hi : i ≤ toks.length) :
    Runs toks i fieldType fun r j => r = ⟨i, j⟩ := by
  refine .pos hi (.bind (Q := fun _ _ => True) hi ?_ fun _ j _ hj _ => .pos hj (.pure rfl))
  refine .loop (I := fun _ _ => True) hi trivial fun depth k _ hk _ => .look hk (.lookNext hk ?_)
  intro next
  split
  · exact .done trivial
  · rename_i hlook
    have hlt := lt_of_look_ne (not_or.mp hlook).1
    split
    · exact .done trivial
    · refine .bump hk fun m _ _ hnext => .again trivial ?_
      have := hnext hlt
      omega

theorem closeBlock_runs (hi : i ≤ toks.length) : Runs toks i closeBlock fun _ _ => True :=
  .bind hi (eat_runs hi (by decide) (by decide)) fun _ _ _ hj _ =>
    .bind hj (eat_runs hj (by decide) (by decide)) fun _ _ _ _ _ => .pure trivial

theorem named_runs {α : Type} {f : Range → P α} {R : α → Nat → Prop} (hi : i ≤ toks.length)
    (he : e ≠ .stuck)
    (hf : ∀ name j, j ≤ toks.length → name.Fits toks → Runs toks j (f name) R) :
    Runs toks i (do
      bump
      let name ← eat .ident e
      f name) R := by
  refine .bump hi fun j _ hj _ => .bind hj (eat_runs hj (by decide) he) fun r k _ hk hr => ?_
  obtain ⟨rfl, rfl, -⟩ := hr
  exact hf _ _ hk ⟨Nat.le_succ j, hk⟩

variable {attrs : FixedVec AttrAst 16}

theorem parseStructDeclAst_runs (hi : i ≤ toks.length) (hattrs : AttrsFit toks attrs) :
    Runs toks i (parseStructDeclAst attrs) fun r _ =>
      AllFit toks r.1.spans ∧ AllFit toks r.2.spans := by
  refine named_runs hi (by decide) fun name j hj hname => ?_
  refine .bind (Q := fun (fields : FixedVec StructFieldAst 32) _ =>
    AllFit toks (StructDeclAst.spans ⟨name, fields⟩)) hj ?_ fun fields k _ hk hfields =>
      .bind hk (closeBlock_runs hk) fun _ _ _ _ _ =>
        .pure ⟨DeclAst.plain_fits hname hattrs, hfields⟩
  refine .loop (I := fun fields _ => AllFit toks (StructDeclAst.spans ⟨name, fields⟩)) hj ?_ ?_
  · intro s hs
    rw [List.mem_singleton.mp hs]
    exact hname
  · intro fields k _ hk hfields
    refine .look hk (.lookNext hk fun next => ?_)
    split
    · exact .done hfields
    · rename_i hlook
      have hlt := lt_of_look_ne (not_or.mp hlook).2
      split
      · refine .pos hk (.bump hk fun m _ hm hnext => .bump hm fun n hmn hn _ => ?_)
        obtain rfl := hnext hlt
        refine .bind hn (fieldType_runs hn) fun ty n' hn' hlen hty => ?_
        subst hty
        refine .bind hlen push_runs fun w n'' hn'' _ hw => .again ?_ (by omega)
        have hty : Range.Fits toks ⟨n, n'⟩ := ⟨hn', hlen⟩
        have hfield : Range.Fits toks ⟨k, k + 1⟩ := ⟨Nat.le_succ k, hm⟩
        unfold StructDeclAst.spans
        rw [hw.1, List.flatMap_append, ← List.cons_append]
        refine hfields.append fun s hs => ?_
        rw [List.flatMap_singleton, List.mem_pair] at hs
        rcases hs with rfl | rfl
        · exact hfield
        · exact hty
      · refine .bump hk fun m _ _ hnext => .again hfields ?_
        have := hnext hlt
        omega

theorem typeUntil_runs {ends : Depth → Token → TokenKind → Bool} (hi : i ≤ toks.length) :
    Runs toks i (typeUntil ends) fun ty _ => ∀ r ∈ ty, r.Fits toks := by
  refine .pos hi (.bind (Q := fun _ _ => True) hi ?_ fun _ j hij hj _ => .pos hj (.pure ?_))
  · refine .loop (I := fun _ _ => True) hi trivial fun depth k _ hk _ => .look hk (.lookNext hk ?_)
    intro next
    split
    · exact .done trivial
    · rename_i hlook
      have hlt := lt_of_look_ne (not_or.mp hlook).2
      refine .bump hk fun m _ _ hnext => .again trivial ?_
      have := hnext hlt
      omega
  · split
    · exact fits_some ⟨hij, hj⟩
    · exact fits_none

theorem parseEnumDeclAst_runs (hi : i ≤ toks.length) (hattrs : AttrsFit toks attrs) :
    Runs toks i (parseEnumDeclAst attrs) fun r _ =>
      AllFit toks r.1.spans ∧ AllFit toks r.2.spans := by
  refine named_runs hi (by decide) fun name j hj hname => .look hj ?_
  have hrest : ∀ base m, j ≤ m → m ≤ toks.length → (∀ r ∈ base, r.Fits toks) →
      Runs toks m (do
        let variants ← loop (fun variants : FixedVec EnumVariantAst 64 => do
          let t ← look
          if t.kind = .kwEnd ∨ t.kind = .eof then pure (.inr variants)
          else if t.kind = .ident then do
            let start ← pos
            bump
            let _ ← eat .eq .expectedEq
            let value ← integer .expectedNumber .invalidInteger
            let variants ← push variants ⟨⟨start, start + 1⟩, value⟩
            pure (.inl variants)
          else do
            bump
            pure (.inl variants)) .new
        closeBlock
        pure (DeclAst.plain .enum name attrs, ⟨name, base, variants⟩)) fun r _ =>
          AllFit toks r.1.spans ∧ AllFit toks (EnumDeclAst.spans r.2) := by
    intro base m _ hm hbase
    refine .bind (Q := fun (variants : FixedVec EnumVariantAst 64) _ =>
      AllFit toks (EnumDeclAst.spans ⟨name, base, variants⟩)) hm ?_ fun variants k _ hk hvariants =>
        .bind hk (closeBlock_runs hk) fun _ _ _ _ _ =>
          .pure ⟨DeclAst.plain_fits hname hattrs, hvariants⟩
    refine .loop (I := fun variants _ => AllFit toks (EnumDeclAst.spans ⟨name, base, variants⟩)) hm
      ?_ fun variants k _ hk hvariants => .look hk ?_
    · intro s hs
      change s ∈ .tokens name :: base.toList.map .tokens ++ [] at hs
      rw [List.append_nil] at hs
      rcases List.mem_cons.mp hs with rfl | hs
      · exact hname
      · obtain ⟨r, hr, rfl⟩ := List.mem_map.mp hs
        exact hbase r (Option.mem_toList.mp hr)
    · split
      · exact .done hvariants
      · rename_i hlook
        have hlt := lt_of_look_ne (not_or.mp hlook).2
        split
        · refine .pos hk (.bump hk fun k₁ _ hk₁ hnext => ?_)
          obtain rfl := hnext hlt
          refine .bind hk₁ (eat_runs hk₁ (by decide) (by decide)) fun _ k₂ hk₁₂ hk₂ _ => ?_
          refine .bind hk₂ (integer_runs hk₂ (by decide) (by decide)) fun v k₃ hk₂₃ hk₃ _ => ?_
          refine .bind hk₃ push_runs fun w k₄ hk₃₄ _ hw => .again ?_ (by omega)
          unfold EnumDeclAst.spans
          rw [hw.1, List.map_append, ← List.append_assoc]
          refine hvariants.append fun s hs => ?_
          rw [List.mem_singleton.mp hs]
          exact ⟨Nat.le_succ k, hk₁⟩
        · refine .bump hk fun m _ _ hnext => .again hvariants ?_
          have := hnext hlt
          omega
  dsimp only
  split
  · refine .bump hj fun k hjk hk _ => .bind hk (typeUntil_runs hk) fun ty m hkm hm hty => ?_
    exact hrest ty m (by omega) hm hty
  · exact .pureBind hj (hrest none j (Nat.le_refl j) hj fits_none)

theorem parseSemiDeclAst_runs {kind : Irgen.DeclKind} (hi : i ≤ toks.length)
    (hattrs : AttrsFit toks attrs) :
    Runs toks i (parseSemiDeclAst kind attrs) fun d _ => AllFit toks d.spans :=
  named_runs hi (by decide) fun _ _ hj hname =>
    .bind hj (skipUntilSemi_runs hj) fun _ _ _ _ _ => .pure (DeclAst.plain_fits hname hattrs)

theorem parseResourceDeclAst_runs (hi : i ≤ toks.length) (hattrs : AttrsFit toks attrs) :
    Runs toks i (parseResourceDeclAst attrs) fun d _ => AllFit toks d.spans := by
  refine named_runs hi (by decide) fun name j hj hname => .look hj ?_
  have hrest : ∀ ty m, j ≤ m → m ≤ toks.length → (∀ r ∈ ty, r.Fits toks) →
      Runs toks m (do
        let _ ← skipToSemi
        pure { DeclAst.plain .resource name attrs with sig := ty }) fun d _ =>
          AllFit toks (DeclAst.spans d) :=
    fun ty m _ hm hty => .bind hm (skipToSemi_runs hm) fun _ _ _ _ _ => .pure
      (DeclAst.fits hname hattrs hty fits_none ⟨fits_none, fits_none, fits_none, fits_none⟩)
  dsimp only
  split
  · refine .bump hj fun k hjk hk _ => .bind hk (typeUntil_runs hk) fun ty m hkm hm hty => ?_
    exact hrest ty m (by omega) hm hty
  · exact .pureBind hj (hrest none j (Nat.le_refl j) hj fits_none)

def InstFit (toks : List Token) (inst : Option RegMapInstanceAst) : Prop :=
  ∀ x ∈ inst, AllFit toks x.spans

theorem InstFit.ite {c : Prop} [Decidable c] {x : RegMapInstanceAst} (h : AllFit toks x.spans) :
    InstFit toks (if c then some x else none) := by
  split
  · intro y hy
    rw [← Option.mem_some.mp hy]
    exact h
  · exact fun y hy => nomatch hy

theorem instFit_none : InstFit toks none := fun _ hy => nomatch hy

theorem single_fits {k : Nat} (hk : k < toks.length) : Range.Fits toks ⟨k, k + 1⟩ :=
  ⟨Nat.le_succ k, hk⟩

theorem parseInstance_runs {name map : Range} (hi : i ≤ toks.length) (hname : name.Fits toks)
    (hmap : map.Fits toks) :
    Runs toks i (parseInstance name map) fun inst _ => InstFit toks inst := by
  have hone : ∀ r : Range, r.Fits toks → AllFit toks ([name, map, r].map .tokens) := by
    intro r hr
    refine RangesFit.tokens fun r' hr' => ?_
    rcases List.mem_cons.mp hr' with rfl | hr'
    · exact hname
    · rcases List.mem_pair.mp hr' with rfl | rfl
      · exact hmap
      · exact hr
  refine .look hi ?_
  split
  · refine .bump hi fun j _ hj _ => .look hj ?_
    split
    · refine .bump hj fun k _ hk _ => .look hk ?_
      split
      · rename_i hkind
        have hlt := lt_of_look (by decide) hkind
        refine .pos hk (.bump hk fun m _ hm _ => .look hm (.pure (.ite ?_)))
        refine (hone name hname).append fun s hs => ?_
        rw [List.mem_singleton.mp hs]
        exact single_fits hlt
      · exact .pure instFit_none
    · exact .pure instFit_none
  · split
    · rename_i hkind
      have hlt := lt_of_look (by decide) hkind
      exact .pos hi (.bump hi fun m _ hm _ => .look hm (.pure (.ite (hone _ (single_fits hlt)))))
    · exact .pure instFit_none

theorem parseConstDeclAst_runs (hi : i ≤ toks.length) (hattrs : AttrsFit toks attrs) :
    Runs toks i (parseConstDeclAst attrs) fun r _ =>
      AllFit toks r.1.spans ∧ InstFit toks r.2 := by
  refine named_runs hi (by decide) fun name j hj hname => .look hj ?_
  have hrest : ∀ inst m, m ≤ toks.length → InstFit toks inst → Runs toks m (do
      let _ ← skipToSemi
      pure (DeclAst.plain .const name attrs, inst)) fun r _ =>
        AllFit toks (DeclAst.spans r.1) ∧ InstFit toks r.2 :=
    fun inst m hm hinst => .bind hm (skipToSemi_runs hm) fun _ _ _ _ _ =>
      .pure ⟨DeclAst.plain_fits hname hattrs, hinst⟩
  have hnone : ∀ m, m ≤ toks.length → Runs toks m (do
      let inst ← pure none
      let _ ← skipToSemi
      pure (DeclAst.plain .const name attrs, inst)) fun r _ =>
        AllFit toks (DeclAst.spans r.1) ∧ InstFit toks r.2 :=
    fun m hm => .pureBind hm (hrest none m hm instFit_none)
  dsimp only
  split
  · refine .bump hj fun k _ hk _ => .look hk ?_
    split
    · rename_i hkind
      have hlt := lt_of_look (by decide) hkind
      refine .pos hk (.bump hk fun m _ hm _ => .look hm ?_)
      split
      · refine .bump hm fun n _ hn _ => ?_
        exact .bind hn (parseInstance_runs hn hname (single_fits hlt)) fun inst n' _ hn' hinst =>
          hrest inst n' hn' hinst
      · exact hnone m hm
    · exact hnone k hk
  · exact hnone j hj

theorem parseRegisterMapDeclAst_runs (hi : i ≤ toks.length) (hattrs : AttrsFit toks attrs) :
    Runs toks i (parseRegisterMapDeclAst attrs) fun d _ => AllFit toks d.spans := by
  refine named_runs hi (by decide) fun name j hj hname => .pos hj ?_
  refine .bind (Q := fun stop _ => Range.Fits toks ⟨j, stop⟩) hj ?_ fun stop _ _ _ hstop => .pure
    (DeclAst.fits hname hattrs fits_none (fits_some hstop)
      ⟨fits_none, fits_none, fits_none, fits_none⟩)
  refine .loop (I := fun _ _ => True) hj trivial fun depth k hjk hk _ => .look hk ?_
  split
  · exact .fail (by decide)
  · rename_i hlook
    have hlt := lt_of_look_ne hlook
    split
    · refine .pos hk (.bump hk fun m _ hm _ => ?_)
      exact .bind hm (eat_runs hm (by decide) (by decide)) fun _ _ _ _ _ => .done ⟨hjk, hk⟩
    · refine .bump hk fun m _ _ hnext => .again trivial ?_
      have := hnext hlt
      omega

theorem parseSubtypeDeclAst_runs (hi : i ≤ toks.length) (hattrs : AttrsFit toks attrs) :
    Runs toks i (parseSubtypeDeclAst attrs) fun r _ =>
      AllFit toks r.1.spans ∧ AllFit toks r.2.spans := by
  refine named_runs hi (by decide) fun name j hj hname => ?_
  refine .bind hj (eat_runs hj (by decide) (by decide)) fun _ k _ hk _ => ?_
  refine .bind hk (eat_runs hk (by decide) (by decide)) fun base m _ hm hbase => .look hm ?_
  have hbase : base.Fits toks := by
    obtain ⟨rfl, rfl, -⟩ := hbase
    exact single_fits hm
  have hrest : ∀ n, n ≤ toks.length → Runs toks n (do
      let min ← integer .expectedRangeMin .invalidRangeMin
      let _ ← eat .dblDot .expectedDblDot
      let max ← integer .expectedRangeMax .invalidRangeMax
      let _ ← eat .semi .expectedSemiSubtype
      pure (DeclAst.plain .subtype name attrs, ⟨name, base, min, max⟩)) fun r _ =>
        AllFit toks r.1.spans ∧ AllFit toks (SubtypeAst.spans r.2) := by
    intro n hn
    refine .bind hn (integer_runs hn (by decide) (by decide)) fun _ n₁ _ hn₁ _ => ?_
    refine .bind hn₁ (eat_runs hn₁ (by decide) (by decide)) fun _ n₂ _ hn₂ _ => ?_
    refine .bind hn₂ (integer_runs hn₂ (by decide) (by decide)) fun _ n₃ _ hn₃ _ => ?_
    refine .bind hn₃ (eat_runs hn₃ (by decide) (by decide)) fun _ _ _ _ _ => .pure ⟨?_, ?_⟩
    · exact DeclAst.plain_fits hname hattrs
    · intro s hs
      rcases List.mem_pair.mp hs with rfl | rfl
      · exact hname
      · exact hbase
  dsimp only
  split
  · exact .bump hm fun n _ hn _ => hrest n hn
  · exact .failBind hm (by decide)

/-! ### Modules -/

theorem parseAttr_runs {t : Token} (hi : i < toks.length) :
    Runs toks i (parseAttr t) fun a _ => a.span.Fits toks := by
  have hle := Nat.le_of_lt hi
  refine .pos hle (.bump hle fun j _ hj hnext => ?_)
  obtain rfl := hnext hi
  refine .look hj (.pos hj ?_)
  have hrest : ∀ parens m, m ≤ toks.length →
      (∀ p : Range, p ∈ parens → p.Enclosed toks ∧ i ≤ p.start) → Runs toks m (
        if t.text = ascii "@interrupt" then
          match parens with
          | some parens => do
            SiteParser.check (.interrupt parens) .expectedInterruptVector
            pure (AttrAst.interrupt parens)
          | none => fail .expectedInterruptVector
        else pure (AttrAst.other ⟨i, (parens.map Range.stop).getD (i + 1)⟩)) fun a _ =>
          (AttrAst.span a).Fits toks := by
    intro parens m hm hparens
    split
    · cases parens with
      | some p =>
        have hp := (hparens p rfl).1
        exact .check hm (by decide) hp (.pure hp)
      | none => exact .fail (by decide)
    · refine .pure ?_
      cases parens with
      | some p =>
        obtain ⟨hp, hip⟩ := hparens p rfl
        exact ⟨Nat.le_trans hip hp.fits.1, hp.stop_le⟩
      | none => exact single_fits hi
  dsimp only
  split
  · rename_i hkind
    have hlt := lt_of_look (by decide) hkind
    refine .bind hj (skipBalanced_runs hlt) fun closed k hjk hk hclosed => .pos hk (.pureBind hk ?_)
    refine hrest _ k hk fun p hp => ?_
    split at hp
    · rename_i hyes
      obtain ⟨hapart, t', ht', hclose⟩ := hclosed hyes
      rw [← Option.mem_some.mp hp]
      rw [List.getElem?_eq_getElem hlt] at hkind
      exact ⟨⟨hk, hapart, ⟨_, List.getElem?_eq_getElem hlt, hkind ▸ rfl⟩, t', ht', hclose ▸ rfl⟩,
        Nat.le_succ i⟩
    · cases hp
  · exact .pureBind hj (hrest none _ hj fun p hp => nomatch hp)

def EachFit {α : Type} {cap : Nat} (toks : List Token) (spans : α → List Span)
    (v : FixedVec α cap) : Prop := ∀ x ∈ v.items, AllFit toks (spans x)

theorem EachFit.push {α : Type} {cap : Nat} {spans : α → List Span} {v w : FixedVec α cap} {x : α}
    (h : EachFit toks spans v) (hx : AllFit toks (spans x)) (hw : w.items = v.items ++ [x]) :
    EachFit toks spans w := by
  intro y hy
  rw [hw] at hy
  rcases List.mem_append.mp hy with hy | hy
  · exact h y hy
  · rw [List.mem_singleton.mp hy]
    exact hx

structure ModuleAst.Fit (toks : List Token) (a : ModuleAst) : Prop where
  name : a.name.Fits toks
  imports : EachFit toks ImportAst.spans a.imports
  exports : RangesFit toks a.exports.items
  decls : EachFit toks DeclAst.spans a.decls
  subtypes : EachFit toks SubtypeAst.spans a.subtypes
  instances : EachFit toks RegMapInstanceAst.spans a.instances
  structs : EachFit toks StructDeclAst.spans a.structs
  enums : EachFit toks EnumDeclAst.spans a.enums

theorem EachFit.flat {α : Type} {cap : Nat} {spans : α → List Span} {v : FixedVec α cap}
    (h : EachFit toks spans v) : AllFit toks (v.items.flatMap spans) := by
  intro s hs
  obtain ⟨x, hx, hs⟩ := List.mem_flatMap.mp hs
  exact h x hx s hs

theorem ModuleAst.Fit.spans {a : ModuleAst} (h : a.Fit toks) : AllFit toks a.spans := by
  have hname : AllFit toks [.tokens a.name] := List.forall_mem_singleton.mpr h.name
  exact ((((((hname.append h.imports.flat).append h.exports.tokens).append h.decls.flat).append
    h.subtypes.flat).append h.instances.flat).append h.structs.flat).append h.enums.flat

def Extra.Fit (toks : List Token) : Extra → Prop
  | .none => True
  | .struct s => AllFit toks s.spans
  | .enum e => AllFit toks e.spans
  | .subtype s => AllFit toks s.spans
  | .inst i => AllFit toks i.spans

theorem parseDecl_runs {kind : TokenKind} {decl : P (DeclAst × Extra)} (hi : i ≤ toks.length)
    (hattrs : AttrsFit toks attrs) (h : parseDecl attrs kind = some decl) :
    Runs toks i decl fun r _ => AllFit toks r.1.spans ∧ r.2.Fit toks := by
  unfold parseDecl at h
  split at h <;> cases h
  · exact .bind hi (parseWordAst_runs hi hattrs) fun _ _ _ _ hd => .pure ⟨hd, trivial⟩
  · exact .bind hi (parseStructDeclAst_runs hi hattrs) fun _ _ _ _ hd => .pure hd
  · exact .bind hi (parseEnumDeclAst_runs hi hattrs) fun _ _ _ _ hd => .pure hd
  · exact .bind hi (parseRegisterMapDeclAst_runs hi hattrs) fun _ _ _ _ hd => .pure ⟨hd, trivial⟩
  · exact .bind hi (parseSemiDeclAst_runs hi hattrs) fun _ _ _ _ hd => .pure ⟨hd, trivial⟩
  · exact .bind hi (parseSubtypeDeclAst_runs hi hattrs) fun _ _ _ _ hd => .pure hd
  · refine .bind hi (parseConstDeclAst_runs hi hattrs) fun r _ _ _ hd => .pure ⟨hd.1, ?_⟩
    obtain ⟨d, inst⟩ := r
    cases inst with
    | some inst => exact hd.2 inst rfl
    | none => trivial
  · exact .bind hi (parseResourceDeclAst_runs hi hattrs) fun _ _ _ _ hd => .pure ⟨hd, trivial⟩
  · exact .bind hi (parseSemiDeclAst_runs hi hattrs) fun _ _ _ _ hd => .pure ⟨hd, trivial⟩
  · exact .bind hi (parseSemiDeclAst_runs hi hattrs) fun _ _ _ _ hd => .pure ⟨hd, trivial⟩

theorem addExtra_runs {ast : ModuleAst} {extra : Extra} (hi : i ≤ toks.length)
    (hast : ast.Fit toks) (hextra : extra.Fit toks) :
    Runs toks i (addExtra ast extra) fun a _ => a.Fit toks := by
  cases extra with
  | none => exact .pure hast
  | struct s =>
    exact .bind hi push_runs fun _ _ _ _ hw =>
      .pure { hast with structs := hast.structs.push hextra hw.1 }
  | enum e =>
    exact .bind hi push_runs fun _ _ _ _ hw =>
      .pure { hast with enums := hast.enums.push hextra hw.1 }
  | subtype s =>
    exact .bind hi push_runs fun _ _ _ _ hw =>
      .pure { hast with subtypes := hast.subtypes.push hextra hw.1 }
  | inst x =>
    exact .bind hi push_runs fun _ _ _ _ hw =>
      .pure { hast with instances := hast.instances.push hextra hw.1 }

structure ModuleState.Fit (toks : List Token) (s : ModuleState) : Prop where
  ast : s.ast.Fit toks
  pending : AttrsFit toks s.pending

theorem attrsFit_new : AttrsFit toks .new := AllFit.nil

theorem addDecl_runs {ast : ModuleAst} {d : DeclAst} {extra : Extra} (hi : i ≤ toks.length)
    (hast : ast.Fit toks) (hd : AllFit toks d.spans) (hextra : extra.Fit toks) :
    Runs toks i (addDecl ast d extra) fun s _ => s.Fit toks := by
  refine .bind hi push_runs fun decls j _ hj hw => ?_
  have hast' : ModuleAst.Fit toks { ast with decls := decls } :=
    { hast with decls := hast.decls.push hd hw.1 }
  exact .bind hj (addExtra_runs hj hast' hextra) fun _ _ _ _ ha => .pure ⟨ha, attrsFit_new⟩

theorem parseItem_runs {s : ModuleState} {t : Token} (hi : i < toks.length) (hs : s.Fit toks) :
    Runs toks i (parseItem s t) fun s' j => s'.Fit toks ∧ i < j := by
  have hle := Nat.le_of_lt hi
  unfold parseItem
  split
  · refine .bind hle ((parseAttr_runs hi).advancing (.afterPos fun _ => .first advances_bump) hi) ?_
    intro attr j _ hj hattr
    refine .bind hj push_runs fun w _ _ _ hw => .pure ⟨{ hs with pending := ?_ }, by omega⟩
    unfold AttrsFit
    rw [hw.1, List.map_append]
    exact hs.pending.append (List.forall_mem_singleton.mpr hattr.1)
  · split
    · refine .bind hle ((parseImportAst_runs hle).advancing (.first advances_bump) hi) ?_
      intro imp j _ hj himp
      refine .bind hj push_runs fun w _ _ _ hw => .pure ⟨{ hs with ast := ?_ }, by omega⟩
      exact { hs.ast with imports := hs.ast.imports.push himp.1 hw.1 }
    · split
      · refine .bind hle ((parseExportAst_runs hle hs.ast.exports).advancing
          (.first advances_bump) hi) fun w j _ _ hw => .pure ⟨{ hs with ast := ?_ }, hw.2⟩
        exact { hs.ast with exports := hw.1 }
      · split
        · rename_i decl hdecl
          refine .bind hle ((parseDecl_runs hle hs.pending hdecl).advancing
            (parseDecl_advances hdecl) hi) fun r j _ hj hr => ?_
          obtain ⟨d, extra⟩ := r
          exact ((addDecl_runs hj hs.ast hr.1.1 hr.1.2).forward).mono fun s' k h =>
            ⟨h.1, Nat.lt_of_lt_of_le hr.2 h.2⟩
        · refine .bump hle fun j _ hj hnext => .bind hj (skipToSemi_runs hj) fun _ k _ _ _ => ?_
          have := hnext hi
          exact .pure ⟨⟨hs.ast, attrsFit_new⟩, by omega⟩

theorem parseHeader_runs (hi : i ≤ toks.length) :
    Runs toks i parseHeader fun name _ => name.Fits toks := by
  refine .bind hi (eat_runs hi (by decide) (by decide)) fun _ j _ hj _ => ?_
  refine .bind hj (modulePath_runs hj (by decide)) fun name k _ hk hname => ?_
  refine .bind hk (eat_runs hk (by decide) (by decide)) fun _ _ _ _ _ => .pure ?_
  obtain ⟨rfl, hjk⟩ := hname
  exact ⟨Nat.le_of_lt hjk, hk⟩

theorem parseModule_runs : Runs toks 0 parseModule fun a _ => a.Fit toks := by
  refine .bind (Nat.zero_le _) (parseHeader_runs (Nat.zero_le _)) fun name j _ hj hname => ?_
  refine .bind (Q := fun s _ => ModuleState.Fit toks s) hj ?_ fun s k _ hk hs => ?_
  · have hnew : ∀ {α : Type} {cap : Nat} {spans : α → List Span},
        EachFit toks spans (FixedVec.new : FixedVec α cap) := fun x hx => absurd hx List.not_mem_nil
    refine .loop (I := fun s _ => ModuleState.Fit toks s) hj
      ⟨⟨hname, hnew, fun _ h => absurd h List.not_mem_nil, hnew, hnew, hnew, hnew, hnew⟩,
        attrsFit_new⟩ fun s m _ hm hs => .look hm ?_
    split
    · exact .done hs
    · rename_i hlook
      have hlt := lt_of_look_ne (not_or.mp hlook).2
      exact .bind hm (parseItem_runs hlt hs) fun s' n _ _ hs' => .again hs'.1 hs'.2
  · refine .bind hk (eat_runs hk (by decide) (by decide)) fun _ m _ hm _ => ?_
    exact .bind hm (eat_runs hm (by decide) (by decide)) fun _ _ _ _ _ => .pure hs.ast

end Parsers

/-! ## Captured spans lexed alone -/

section Slices

variable {src : Bytes}

theorem bracket_stop {k : Nat} {t : Token} (ht : (tokens src)[k]? = some t)
    (hbracket : isBracket t.kind = true) :
    k < (lex src).length ∧ stopAt src k = startAt src k + 1 := by
  rw [tokens, List.getElem?_map, Option.map_eq_some_iff] at ht
  obtain ⟨p, hp, rfl⟩ := ht
  have hfixed : ∃ b, p.token.kind.fixed = some [b] := by
    revert hbracket
    cases p.token.kind <;> intro hbracket <;> first | exact ⟨_, rfl⟩ | cases hbracket
  obtain ⟨b, hb⟩ := hfixed
  have htext : p.token.text = [b] := lexFrom_fixed (List.mem_of_getElem? hp) hb
  refine ⟨(List.getElem?_eq_some_iff.mp hp).1, ?_⟩
  rw [stopAt, startAt, hp]
  show p.start + p.token.text.length = p.start + 1
  rw [htext]
  rfl

/-- What the parser cuts out of the source to look at it, with its brackets. -/
def Site.InRange (src : Bytes) (s : Site) : Prop :=
  (Span.tokens s.range).start src + 2 ≤ (Span.tokens s.range).stop src ∧
    (Span.tokens s.range).stop src ≤ src.length

theorem enclosed_places {r : Range} (h : r.Enclosed (tokens src)) :
    r.stop ≤ (lex src).length ∧ stopAt src r.start = startAt src r.start + 1 ∧
      stopAt src (r.stop - 1) = startAt src (r.stop - 1) + 1 ∧
      stopAt src r.start ≤ startAt src (r.stop - 1) ∧ stopAt src (r.stop - 1) ≤ src.length := by
  obtain ⟨hstop, hapart, ⟨t, ht, hbracket⟩, t', ht', hbracket'⟩ := h
  obtain ⟨hlt, hfirst⟩ := bracket_stop ht hbracket
  obtain ⟨hlt', hlast⟩ := bracket_stop ht' hbracket'
  rw [tokens, List.length_map] at hstop
  exact ⟨hstop, hfirst, hlast, stopAt_le_startAt hlt (by omega), (startAt_lt_stopAt hlt').2⟩

theorem Site.inRange {s : Site} (h : s.range.Enclosed (tokens src)) : s.InRange src := by
  obtain ⟨-, hfirst, hlast, hbetween, hend⟩ := enclosed_places h
  have hapart := h.apart
  show startAt src s.range.start + 2 ≤ (if _ then _ else _) ∧ (if _ then _ else _) ≤ _
  rw [if_pos (by omega)]
  omega

theorem Span.relexed {s : Span} (h : s.Fits (Frontend.tokens src)) :
    Relexed src (s.start src) (s.stop src) s.seen.start s.seen.stop := by
  cases s with
  | tokens r =>
    obtain ⟨hle, hlen⟩ : r.Fits (Frontend.tokens src) := h
    rw [Frontend.tokens, List.length_map] at hlen
    show Relexed src (startAt src r.start) (if _ then _ else _) r.start r.stop
    split
    · rename_i hlt
      exact relexed_through hlt hlen
    · have heq : r.start = r.stop := by omega
      rw [heq]
      exact relexed_up_to (Nat.le_refl _) hlen
  | body r =>
    obtain ⟨hle, hlen⟩ : r.Fits (Frontend.tokens src) := h
    rw [Frontend.tokens, List.length_map] at hlen
    exact relexed_up_to hle hlen
  | inner r =>
    have h : r.Enclosed (Frontend.tokens src) := h
    obtain ⟨hlen, hfirst, hlast, -⟩ := enclosed_places h
    show Relexed src (startAt src r.start + 1) (stopAt src (r.stop - 1) - 1) _ _
    rw [← hfirst, hlast, Nat.add_sub_cancel]
    exact relexed_between h.apart hlen

/-- Tokens are in place, the parser comes to an end and cuts nothing out beyond the source, and
every span that a tree keeps has the tokens that the parser has gone over, and no others, when it
is lexed alone. -/
theorem captures_relexed (src : Bytes) :
    Spaced src 0 (lex src) ∧
      parseModuleAst src ≠ .error .stuck ∧
      (∀ answers : Site → Bool, (∀ s : Site, s.InRange src → answers s = passes src s) →
        parseModule.run answers (tokens src) 0 = parseModule.run (passes src) (tokens src) 0) ∧
      ∀ ast, parseModuleAst src = .ok ast → ∀ s ∈ ast.spans,
        Relexed src (s.start src) (s.stop src) s.seen.start s.seen.stop := by
  have hrun := @parseModule_runs (tokens src)
  refine ⟨lex_spaced src, ?_, ?_, ?_⟩
  · intro hstuck
    unfold parseModuleAst at hstuck
    split at hstuck
    · cases hstuck
    · rename_i e he
      cases hstuck
      exact hrun.moves _ he
  · exact fun answers hanswers => hrun.asks fun s hs => hanswers s (Site.inRange hs)
  · intro ast hast s hs
    unfold parseModuleAst at hast
    split at hast
    · rename_i a _ _ ha
      cases hast
      exact Span.relexed ((hrun.ok ha).spans s hs)
    · cases hast

end Slices

end Tyu.Frontend

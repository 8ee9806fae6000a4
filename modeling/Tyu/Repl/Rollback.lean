import Tyu.Repl.SessionRuns

/-! # Phrases that leave no trace -/

namespace Tyu.Repl

open Lib Lib.Wire

variable {σ : Type}

def PlacesNothing (c : Compiled) (h : RegionHeap) : Prop :=
  ∀ span ∈ ExecCore.constStrSpans c.module, ∃ f, h.intern (constStrBytes c span) = .error f

theorem cursor_of_intern {h h' : RegionHeap} {bytes : Bytes} {r : Nat × Nat}
    (hlen : bytes.length < 2 ^ 32) (hi : h.intern bytes = .ok (r, h')) : h.cursor < h'.cursor := by
  have hblock : (putLE 8 bytes.length ++ bytes).length = 8 + bytes.length := by
    rw [List.length_append, length_putLE]
  unfold RegionHeap.intern RegionHeap.place at hi
  obtain ⟨⟨base, h₁⟩, hreserve, hp⟩ := bind_eq_ok.mp hi
  obtain ⟨-, -, -, rfl⟩ := reserve_eq_ok.mp hreserve
  cases hp
  have hle := (align8_of_fits (n := (putLE 8 bytes.length ++ bytes).length) (by omega)).1
  show h.cursor < h.cursor + align8 (putLE 8 bytes.length ++ bytes).length
  omega

theorem internString_cases (c : Compiled) (span : Span) (st : ExecCore) :
    st.internString c span = st ∨ st.heap.cursor < (st.internString c span).heap.cursor := by
  unfold ExecCore.internString
  split
  · exact .inl rfl
  · cases hi : st.heap.intern (constStrBytes c span) with
    | error f => exact .inl rfl
    | ok r => exact .inr (cursor_of_intern (length_constStrBytes c span) hi)

theorem foldl_internString_cursor (c : Compiled) (spans : List Span) (st : ExecCore) :
    st.heap.cursor ≤ (spans.foldl (fun st span => st.internString c span) st).heap.cursor := by
  induction spans generalizing st with
  | nil => exact Nat.le_refl _
  | cons span spans ih =>
    have hrest := ih (st.internString c span)
    rcases internString_cases c span st with heq | hlt
    · rw [heq] at hrest
      rw [List.foldl_cons, heq]
      exact hrest
    · exact Nat.le_trans hlt.le hrest

theorem internString_of_error {c : Compiled} {span : Span} {st : ExecCore} {f : HeapFault}
    (hst : st.strings = []) (hi : st.heap.intern (constStrBytes c span) = .error f) :
    st.internString c span = st := by
  unfold ExecCore.internString
  rw [hst, hi]
  rfl

theorem foldl_internString_iff (c : Compiled) (spans : List Span) (st : ExecCore)
    (hst : st.strings = []) :
    (spans.foldl (fun st span => st.internString c span) st).heap.cursor = st.heap.cursor ↔
      ∀ span ∈ spans, ∃ f, st.heap.intern (constStrBytes c span) = .error f := by
  induction spans with
  | nil => exact ⟨fun _ span hs => absurd hs List.not_mem_nil, fun _ => rfl⟩
  | cons span spans ih =>
    rw [List.foldl_cons, List.forall_mem_cons]
    cases hi : st.heap.intern (constStrBytes c span) with
    | error f =>
      rw [internString_of_error hst hi, ih]
      exact ⟨fun h => ⟨⟨f, rfl⟩, h⟩, fun h => h.2⟩
    | ok r =>
      have hgrows : st.heap.cursor < (st.internString c span).heap.cursor := by
        unfold ExecCore.internString
        rw [hst, hi]
        exact cursor_of_intern (length_constStrBytes c span) hi
      have hrest := foldl_internString_cursor c spans (st.internString c span)
      constructor
      · intro h
        omega
      · rintro ⟨⟨f, hf⟩, -⟩
        cases hf

theorem same_internCompiled_iff (c : Compiled) (s : Session) :
    Same s.heap (s.enter.internCompiled c).heap ↔ PlacesNothing c s.heap := by
  have hiff := foldl_internString_iff c (ExecCore.constStrSpans c.module) s.enter rfl
  constructor
  · intro hsame
    exact hiff.mp hsame.cursor.symm
  · intro hnone
    have hunchanged : ∀ spans : List Span,
        (∀ span ∈ spans, ∃ f, s.heap.intern (constStrBytes c span) = .error f) →
        spans.foldl (fun st span => st.internString c span) s.enter = s.enter := by
      intro spans hspans
      induction spans with
      | nil => rfl
      | cons span spans ih =>
        rw [List.forall_mem_cons] at hspans
        obtain ⟨⟨f, hf⟩, hrest⟩ := hspans
        rw [List.foldl_cons, internString_of_error rfl hf]
        exact ih hrest
    unfold ExecCore.internCompiled
    rw [hunchanged _ hnone]
    exact .refl _

/-- In a session whose creates are allowed, a phrase that is rolled back restores the heap and
the stack exactly when its module places no constant; one that was set aside and is rolled
back after a resumption restores them in any case. -/
theorem rolled_back_phrase_restores {x : Session × σ}
    (h : (sessionSystem σ HeapOp.Allowed).Reachable x) :
    (∀ (c : Compiled) (p : Peripheral σ) status s' d', PhraseOk HeapOp.Allowed c p x.1 x.2 →
      x.1.submitPhrase c p x.2 = some (status, s', d') → status.committed = false →
        ((Same x.1.heap s'.heap ∧ s'.stack = x.1.stack) ↔ PlacesNothing c x.1.heap)) ∧
    (∀ (p : Peripheral σ) ops status s' d', ResumeOk HeapOp.Allowed p x.1 ops x.2 →
      x.1.step p ops x.2 = some (status, s', d') → status.committed = false →
        Same x.1.heap s'.heap ∧ s'.stack = x.1.stack) := by
  have hgood := guarded_heapLog.sessionGood Rep.new h
  constructor
  · intro c p status s' d' hok hphrase hstatus
    obtain ⟨hback, hstack⟩ := (guarded_heapLog.submitPhrase hgood hok hphrase).back hstatus
    rw [← same_internCompiled_iff]
    constructor
    · intro ⟨hsame, _⟩
      exact hsame.trans (Same.symm hback)
    · intro hsame
      exact ⟨hsame.trans hback, hstack⟩
  · intro p ops status s' d' hok hstep hstatus
    exact (guarded_heapLog.resumePhrase hgood hok hstep).back hstatus

def disabled : Peripheral Unit where
  read d _ _ _ := (none, d)
  write d _ _ _ _ := (false, d)

/-- `: repl-phrase ( -- ) "x" drop 0 assert ;` with the text of its literal. -/
def failingPhrase : Compiled where
  module :=
    { name := AT_EMPTY
      words :=
        [{ name := REPL_PHRASE
           sig := .empty
           performs := .empty
           requires := .empty
           bound := .ID
           entry := ⟨0⟩
           types := ⟨[AT_EMPTY, AT_I64, AT_BOOL, AT_STR], by decide⟩
           typeSizes := ⟨[0, 8, 1, 8], by decide⟩
           typeClasses := ⟨[.other, .i64, .bool, .str], by decide⟩
           apertures := .new
           subtypeBases := ⟨[TY_EMPTY, TY_EMPTY, TY_EMPTY, TY_EMPTY], by decide⟩
           blocks := ⟨[
             { id := ⟨0⟩
               entryStack := .new
               ops := ⟨[⟨.constStr ⟨0, 3⟩, ⟨0, 3⟩⟩, ⟨.drop TY_STR, ⟨4, 8⟩⟩,
                 ⟨.constBool false, ⟨9, 10⟩⟩, ⟨.trapIfFalse .assertFail, ⟨11, 17⟩⟩,
                 ⟨.ret, ⟨18, 19⟩⟩], by decide⟩ }], by decide⟩ }]
      apertures := .new }
  wordBits := 64
  src := [34, 120, 34]
  apertures := []
  subtypes := []

theorem failingPhrase_ok : PhraseOk HeapOp.Allowed failingPhrase disabled (Session.new 100) () := by
  have hno : ∀ cur st, CreateOk HeapOp.Allowed failingPhrase cur st := by
    intro cur st hcreate
    exfalso
    obtain ⟨word, block, op⟩ := cur
    match word, block, op with
    | 0, 0, 0 | 0, 0, 1 | 0, 0, 2 | 0, 0, 3 | 0, 0, 4 => cases hcreate
    | 0, 0, op + 5 => cases hcreate
    | 0, block + 1, op => cases hcreate
    | word + 1, block, op => cases hcreate
  have hdrive : ∀ n cur s, DriveOk HeapOp.Allowed failingPhrase disabled n cur s := by
    intro n
    induction n with
    | zero => exact fun cur s => trivial
    | succ n ih =>
      intro cur s
      refine ⟨hno cur s.1, ?_⟩
      split
      · exact ih _ _
      · trivial
  exact fun idx w _ _ => hdrive _ _ _

/-- The phrase is rolled back, and its constant decides whether it leaves a trace. -/
theorem failingPhrase_restores : ∃ s', (Session.new 100).submitPhrase failingPhrase disabled () =
      some (.trapped .assertFail ⟨11, 17⟩ none, s', ()) ∧
    ((Same RegionHeap.new s'.heap ∧ s'.stack = []) ↔ PlacesNothing failingPhrase .new) :=
  ⟨_, rfl, (rolled_back_phrase_restores (x := (Session.new 100, ())) (.start ⟨100, rfl⟩)).1
    failingPhrase disabled _ _ _ failingPhrase_ok rfl rfl⟩

/-- A fresh session and a phrase that traps after naming a string: the string stays in the
heap. -/
theorem constant_of_failing_phrase_stays : ¬ ∀ x : Session × Unit,
    (sessionSystem Unit fun _ _ => True).Reachable x →
      ∀ (c : Compiled) (p : Peripheral Unit) status s' d',
        x.1.submitPhrase c p x.2 = some (status, s', d') → status.committed = false →
          Same x.1.heap s'.heap ∧ s'.stack = x.1.stack := by
  intro h
  obtain ⟨s', hrun, hcursor⟩ : ∃ s', (Session.new 100).submitPhrase failingPhrase disabled () =
      some (.trapped .assertFail ⟨11, 17⟩ none, s', ()) ∧ s'.heap.cursor = 4096 + 16 :=
    ⟨_, rfl, rfl⟩
  have hsame := (h (Session.new 100, ()) (.start ⟨100, rfl⟩) failingPhrase disabled _ s' ()
    hrun rfl).1.cursor
  rw [hcursor] at hsame
  cases hsame

end Tyu.Repl

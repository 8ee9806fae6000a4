import Tyu.Lib.Delimit
import Tyu.Lower.QuoteNames
import Tyu.Lower.SiteRuns
import Tyu.Verifier.Canonical

/-!
# The tables of an extraction

While a module is lowered its check sites are written down in two tables that run in parallel, the
obligations and their verdicts, and its words in a third.
-/

namespace Tyu

open Lib Obl

theorem colon_not_mem_asStr (k : Kind) : ':' ∉ k.asStr.toList := by
  cases k <;> decide

theorem colon_not_mem_toString (n : Nat) : ':' ∉ (toString n).toList := by
  intro h
  rw [Nat.toString_eq_repr, Nat.toList_repr] at h
  exact absurd (Nat.isDigit_of_mem_toDigits (by decide) (by decide) h) (by decide)

theorem canonicalId_inj {module word word' : String} {k k' : Kind} {n n' : Nat}
    (h : canonicalId module word k n = canonicalId module word' k' n') :
    word = word' ∧ k = k' ∧ n = n' := by
  have hrev : ∀ word k n, (canonicalId module word k n).toList.reverse =
      (toString n).toList.reverse ++ ':' :: (':' :: (k.asStr.toList.reverse ++
        ':' :: (':' :: (module ++ "::" ++ word).toList.reverse))) := by
    intro word k n
    have hcolons : "::".toList = [':', ':'] := by decide
    simp only [canonicalId, String.toList_append, List.reverse_append, hcolons, List.reverse_cons,
      List.append_assoc, List.nil_append, List.cons_append]
  have hlist := congrArg (List.reverse ∘ String.toList) h
  simp only [Function.comp_apply, hrev] at hlist
  have hnat : ∀ n : Nat, ':' ∉ (toString n).toList.reverse := by
    intro n
    rw [List.mem_reverse]
    exact colon_not_mem_toString n
  have hkind : ∀ k : Kind, ':' ∉ k.asStr.toList.reverse := by
    intro k
    rw [List.mem_reverse]
    exact colon_not_mem_asStr k
  obtain ⟨hn, hlist⟩ := upTo_unique (hnat n) (hnat n') hlist
  obtain ⟨hk, hlist⟩ := upTo_unique (hkind k) (hkind k') (List.cons.inj hlist).2
  have hword := String.toList_inj.mp (List.reverse_injective (List.cons.inj hlist).2)
  have hnum : n = n' := by
    have hchars := List.reverse_injective hn
    rw [Nat.toString_eq_repr, Nat.toString_eq_repr, Nat.toList_repr, Nat.toList_repr] at hchars
    have hval := congrArg (fun cs => Nat.ofDigitChars 10 cs 0) hchars
    simpa using hval
  refine ⟨?_, Kind.asStr_inj (String.toList_inj.mp (List.reverse_injective hk)), hnum⟩
  have hchars := congrArg String.toList hword
  rw [String.toList_append, String.toList_append (s := module ++ "::") (t := word')] at hchars
  exact String.toList_inj.mp (List.append_cancel_left hchars)

section Sites

variable {sha : Digest} {s s' : Session} {kind : Kind} {oid ohash : String}
  {inTree : Option InTreeVerdict} {r : ResolvedVerdict}

/-- What resolving a site gives: a verdict for this site, with the hash of a statement only when
this build has computed it for the site. -/
structure Resolves (sha : Digest) (s : Session) (kind : Kind) (oid ohash : String)
    (r : ResolvedVerdict) (s' : Session) : Prop where
  id : r.id = oid
  idHash : r.idHash = ohash
  kind : r.kind = kind
  statement : ∀ h, r.statementHash = some h → s.recomputeBindHash sha oid = some h
  session : s' = s ∨ s' = s.noteStatementStale

theorem resolves_open (reason : Option String) (source : VerdictSource)
    (h : s' = s ∨ s' = s.noteStatementStale) :
    Resolves sha s kind oid ohash (Session.openVerdict kind oid ohash reason source) s' where
  id := rfl
  idHash := rfl
  kind := rfl
  statement := fun _ hh => nomatch hh
  session := h

theorem resolves_automation (witness : Option String) :
    Resolves sha s kind oid ohash (s.automation kind oid ohash inTree witness) s := by
  cases inTree with
  | none => exact resolves_open _ _ (.inl rfl)
  | some t =>
    unfold Session.automation Session.resolveInTree
    dsimp only
    refine iteInduction (motive := fun r => Resolves sha s kind oid ohash r s) (fun _ => ?_)
      fun _ => resolves_open _ _ (.inl rfl)
    exact ⟨rfl, rfl, rfl, (fun _ hh => nomatch hh), .inl rfl⟩

theorem resolves_file (v : Verdicts) (rec : VerdictRecord) :
    Resolves sha s kind oid ohash (s.resolveFromFile sha v rec kind oid ohash).1
      (s.resolveFromFile sha v rec kind oid ohash).2 := by
  unfold Session.resolveFromFile
  split
  · refine ⟨rfl, rfl, rfl, fun h hh => ?_, .inl rfl⟩
    have hbind : s.bindHash sha rec oid = some h := hh
    unfold Session.bindHash at hbind
    split at hbind
    · exact hbind
    · cases hbind
  · refine resolves_open _ _ ?_
    dsimp only
    split
    · exact .inr rfl
    · exact .inl rfl

theorem resolves_resolveSite :
    Resolves sha s kind oid ohash (s.resolveSite sha kind oid ohash inTree).1
      (s.resolveSite sha kind oid ohash inTree).2 := by
  unfold Session.resolveSite
  split
  · exact resolves_open _ _ (.inl rfl)
  split
  · split
    · exact resolves_automation none
    · split
      · exact resolves_automation _
      · exact resolves_file _ _
  · exact resolves_open _ _ (.inl rfl)

end Sites

def textOf (words : List WordText) (word : String) : String :=
  match words.find? fun w => w.name == word with
  | some w => w.ir
  | none => ""

def statementOf (sha : Digest) (refinements : List Refinement) (set : OblSet) (text : String)
    (o : Obligation) : String :=
  (StatementContext.forObligation set.module set.target set.modelSemantics
    (sha256Hex16 sha text) ((wordRefinement text refinements).map Refinement.refinement)
    o).statementHash sha o.formula

theorem recomputeBindHash_live {sha : Digest} {s : Session} {ctx : ExtractionCtx} {oid : String}
    (hbind : s.bindObl = none) (hctx : s.extraction = some ctx) :
    s.recomputeBindHash sha oid = (ctx.set.obligations.find? fun o => o.id == oid).map fun o =>
      statementOf sha s.refinements ctx.set (textOf ctx.set.words o.site.word) o := by
  unfold Session.recomputeBindHash
  simp only [hbind, hctx, Option.map_some, Option.bind_eq_bind, Option.bind_some]
  cases ctx.set.obligations.find? fun o => o.id == oid with
  | none => rfl
  | some o => rfl

theorem recomputeBindHash_bound {sha : Digest} {s : Session} {bind : OblSet} {oid : String}
    (hbind : s.bindObl = some bind) :
    s.recomputeBindHash sha oid = (bind.obligations.find? fun o => o.id == oid).map fun o =>
      statementOf sha s.refinements bind (textOf bind.words o.site.word) o := by
  unfold Session.recomputeBindHash
  simp only [hbind, Option.bind_eq_bind, Option.bind_some]
  cases bind.obligations.find? fun o => o.id == oid with
  | none => rfl
  | some o => rfl

def Obl.OblSet.Valid (set : OblSet) : Prop :=
  ∀ o ∈ set.obligations, o.id = canonicalId set.module o.site.word o.kind o.site.occurrence ∧
    o.idHash = idHashOf o.id

/-- The hash a verdict carries is that of its own obligation's statement: while a module is
extracted for the first time a word has no text yet when its sites are closed, and otherwise
the artifact of the first pass has the obligation under the same id. -/
def OwnStatement (sha : Digest) (bind : Option OblSet) (refinements : List Refinement)
    (set : OblSet) (o : Obligation) (h : String) : Prop :=
  match bind with
  | none => h = statementOf sha refinements set "" o
  | some bind => ∃ o' ∈ bind.obligations, o'.id = o.id ∧
      h = statementOf sha refinements bind (textOf bind.words o'.site.word) o' ∧
      (bind.Valid → bind.module = set.module → o'.site = o.site ∧ o'.kind = o.kind)

theorem OwnStatement.congr {sha : Digest} {bind : Option OblSet} {refinements : List Refinement}
    {set set' : OblSet} {o : Obligation} {h : String} (hmodule : set'.module = set.module)
    (htarget : set'.target = set.target) (hmodel : set'.modelSemantics = set.modelSemantics)
    (hown : OwnStatement sha bind refinements set o h) :
    OwnStatement sha bind refinements set' o h := by
  cases bind with
  | none =>
    unfold OwnStatement statementOf at hown ⊢
    rw [hmodule, htarget, hmodel]
    exact hown
  | some bind =>
    unfold OwnStatement at hown ⊢
    rw [hmodule]
    exact hown

structure OwnVerdict (sha : Digest) (bind : Option OblSet) (refinements : List Refinement)
    (set : OblSet) (o : Obligation) (r : ResolvedVerdict) : Prop where
  id : r.id = o.id
  idHash : r.idHash = o.idHash
  kind : r.kind = o.kind
  statement : ∀ h, r.statementHash = some h → OwnStatement sha bind refinements set o h

def occurrencesOf (obligations : List Obligation) (word : String) (kind : Kind) : List Nat :=
  (obligations.filter fun o => o.site.word == word && o.kind == kind).map fun o =>
    o.site.occurrence

/-- The tables of an extraction fit together: no two sites share an id, the sites of a kind in a
word are numbered from zero without a gap, and each obligation has its own verdict beside it. -/
structure Aligned (sha : Digest) (bind : Option OblSet) (refinements : List Refinement)
    (ctx : ExtractionCtx) : Prop where
  valid : ctx.set.Valid
  unique : (ctx.set.obligations.map Obligation.id).Nodup
  dense : ∀ word kind, occurrencesOf ctx.set.obligations word kind =
    List.range (occurrencesOf ctx.set.obligations word kind).length
  verdicts : List.Forall₂ (OwnVerdict sha bind refinements ctx.set) ctx.set.obligations
    ctx.resolved

/-! ## One site -/

def SiteCall.obligation (c : SiteCall) (ctx : ExtractionCtx) : Obligation :=
  let id := canonicalId ctx.set.module ctx.word c.kind (ctx.counters c.kind)
  ⟨id, idHashOf id, c.kind, ⟨ctx.word, ctx.counters c.kind⟩, c.formula⟩

theorem occurrencesOf_append (obligations : List Obligation) (o : Obligation) (word : String)
    (kind : Kind) : occurrencesOf (obligations ++ [o]) word kind =
      occurrencesOf obligations word kind ++
        if o.site.word = word ∧ o.kind = kind then [o.site.occurrence] else [] := by
  unfold occurrencesOf
  rw [List.filter_append, List.map_append]
  congr 1
  by_cases h : o.site.word = word ∧ o.kind = kind
  · rw [if_pos h, List.filter_cons_of_pos (by simpa using h)]
    rfl
  · rw [if_neg h, List.filter_cons_of_neg (by simpa using h)]
    rfl

/-- In the midst of a word: the tables fit together, the counters say how many sites of the word
there are, and no word of the name was finished. -/
structure InWord (sha : Digest) (s : Session) (ctx : ExtractionCtx) : Prop where
  aligned : Aligned sha s.bindObl s.refinements ctx
  counted : ∀ kind, ctx.counters kind =
    (occurrencesOf ctx.set.obligations ctx.word kind).length % 2 ^ 32
  words : ∀ o ∈ ctx.set.obligations,
    o.site.word = ctx.word ∨ o.site.word ∈ ctx.set.words.map WordText.name
  fresh : ctx.word ∉ ctx.set.words.map WordText.name

section Site

variable {sha : Digest} {s : Session} {ctx : ExtractionCtx} {c : SiteCall}

def ExtractionCtx.recorded (ctx : ExtractionCtx) (c : SiteCall) : ExtractionCtx :=
  { ctx with
    set := { ctx.set with obligations := ctx.set.obligations ++ [c.obligation ctx] }
    counters := fun k => if k = c.kind then (ctx.counters c.kind + 1) % 2 ^ 32
      else ctx.counters k }

theorem InWord.obligation_fresh (h : InWord sha s ctx)
    (hroom : (occurrencesOf ctx.set.obligations ctx.word c.kind).length < 2 ^ 32) :
    (c.obligation ctx).id ∉ ctx.set.obligations.map Obligation.id := by
  intro hmem
  obtain ⟨o, ho, hid⟩ := List.mem_map.mp hmem
  rw [(h.aligned.valid o ho).1] at hid
  obtain ⟨hword, hkind, hocc⟩ := canonicalId_inj hid
  have hin : o.site.occurrence ∈ occurrencesOf ctx.set.obligations ctx.word c.kind :=
    List.mem_map.mpr ⟨o, List.mem_filter.mpr ⟨ho, by simp [hword, hkind]⟩, rfl⟩
  rw [h.aligned.dense, List.mem_range, hocc, h.counted, Nat.mod_eq_of_lt hroom] at hin
  exact absurd hin (Nat.lt_irrefl _)

def recordedSession (s : Session) (ctx : ExtractionCtx) (c : SiteCall) : Session :=
  { s with extraction := some (ctx.recorded c) }

def ExtractionCtx.closed (ctx : ExtractionCtx) (c : SiteCall) (r : ResolvedVerdict)
    (stale : Nat) : ExtractionCtx :=
  { ctx.recorded c with
    resolved := ctx.resolved ++ [r]
    wordMmioOpen := ctx.wordMmioOpen || (r.kind == .mmioBounds && r.status.isOpen)
    statementStale := stale }

variable (sha c) in
theorem site_eq (hctx : s.extraction = some ctx) : ∃ r stale s',
    Resolves sha (recordedSession s ctx c) c.kind (c.obligation ctx).id (c.obligation ctx).idHash
      r s' ∧ s.site sha c = { s with extraction := some (ctx.closed c r stale) } := by
  have hrecord : s.record c.kind c.formula =
      some (((c.obligation ctx).id, (c.obligation ctx).idHash), recordedSession s ctx c) := by
    unfold Session.record
    rw [hctx]
    rfl
  have hres : Resolves sha (recordedSession s ctx c) c.kind (c.obligation ctx).id
      (c.obligation ctx).idHash
      ((recordedSession s ctx c).resolveSite sha c.kind (c.obligation ctx).id
        (c.obligation ctx).idHash c.inTree).1
      ((recordedSession s ctx c).resolveSite sha c.kind (c.obligation ctx).id
        (c.obligation ctx).idHash c.inTree).2 := resolves_resolveSite
  have hsite : s.site sha c = (((recordedSession s ctx c).resolveSite sha c.kind
      (c.obligation ctx).id (c.obligation ctx).idHash c.inTree).2.pushResolved
      ((recordedSession s ctx c).resolveSite sha c.kind
        (c.obligation ctx).id (c.obligation ctx).idHash c.inTree).1) := by
    unfold Session.site Session.closeSite
    rw [hrecord]
  rw [hsite]
  generalize (recordedSession s ctx c).resolveSite sha c.kind (c.obligation ctx).id
    (c.obligation ctx).idHash c.inTree = p at hres
  obtain ⟨r, s'⟩ := p
  obtain hs | hs := hres.session
  · refine ⟨r, ctx.statementStale, s', hres, ?_⟩
    dsimp only at hs ⊢
    rw [hs]
    rfl
  · refine ⟨r, ctx.statementStale + 1, s', hres, ?_⟩
    dsimp only at hs ⊢
    rw [hs]
    rfl

theorem InWord.ownStatement (h : InWord sha s ctx)
    (hroom : (occurrencesOf ctx.set.obligations ctx.word c.kind).length < 2 ^ 32) {hash : String}
    (hhash : (recordedSession s ctx c).recomputeBindHash sha (c.obligation ctx).id = some hash) :
    OwnStatement sha s.bindObl s.refinements (ctx.recorded c).set (c.obligation ctx) hash := by
  unfold OwnStatement
  cases hbind : s.bindObl with
  | none =>
    have hrecorded : (recordedSession s ctx c).extraction = some (ctx.recorded c) := rfl
    have hunbound : (recordedSession s ctx c).bindObl = none := hbind
    rw [recomputeBindHash_live hunbound hrecorded] at hhash
    have hfind : (ctx.recorded c).set.obligations.find? (fun o => o.id == (c.obligation ctx).id) =
        some (c.obligation ctx) := by
      show (ctx.set.obligations ++ [c.obligation ctx]).find? _ = _
      have hnone : ctx.set.obligations.find? (fun o => o.id == (c.obligation ctx).id) = none := by
        rw [List.find?_eq_none]
        intro o ho heq
        exact h.obligation_fresh hroom (List.mem_map.mpr ⟨o, ho, eq_of_beq heq⟩)
      rw [List.find?_append, hnone]
      simp
    have htext : textOf (ctx.recorded c).set.words ctx.word = "" := by
      unfold textOf
      have hnone : (ctx.recorded c).set.words.find? (fun w => w.name == ctx.word) = none := by
        rw [List.find?_eq_none]
        intro w hw heq
        exact h.fresh (List.mem_map.mpr ⟨w, hw, eq_of_beq heq⟩)
      rw [hnone]
    rw [hfind, Option.map_some] at hhash
    have hsome := Option.some.inj hhash
    rw [show (c.obligation ctx).site.word = ctx.word from rfl, htext] at hsome
    exact hsome.symm
  | some bind =>
    rw [recomputeBindHash_bound (s := recordedSession s ctx c) hbind] at hhash
    obtain ⟨o', hfind, hstmt⟩ := Option.map_eq_some_iff.mp hhash
    have hmem := List.mem_of_find?_eq_some hfind
    have hbeq := List.find?_some hfind
    have hid : o'.id = (c.obligation ctx).id := eq_of_beq hbeq
    refine ⟨o', hmem, hid, hstmt.symm, fun hvalid hmodule => ?_⟩
    have hsame := (hvalid o' hmem).1.symm.trans hid
    rw [hmodule] at hsame
    obtain ⟨hword, hkind, hocc⟩ := canonicalId_inj hsame
    refine ⟨?_, hkind⟩
    calc o'.site = ⟨o'.site.word, o'.site.occurrence⟩ := rfl
      _ = ⟨ctx.word, ctx.counters c.kind⟩ := by rw [hword, hocc]

theorem occurrencesOf_recorded (word : String) (kind : Kind) :
    occurrencesOf (ctx.recorded c).set.obligations word kind =
      occurrencesOf ctx.set.obligations word kind ++
        if ctx.word = word ∧ c.kind = kind then [ctx.counters c.kind] else [] :=
  occurrencesOf_append ctx.set.obligations (c.obligation ctx) word kind

theorem length_recorded (kind : Kind) :
    (occurrencesOf (ctx.recorded c).set.obligations ctx.word kind).length =
      (occurrencesOf ctx.set.obligations ctx.word kind).length +
        if c.kind = kind then 1 else 0 := by
  rw [occurrencesOf_recorded, List.length_append]
  by_cases hk : c.kind = kind
  · rw [if_pos ⟨rfl, hk⟩, if_pos hk]
    rfl
  · rw [if_neg fun h => hk h.2, if_neg hk]
    rfl

theorem InWord.closed (h : InWord sha s ctx)
    (hroom : (occurrencesOf ctx.set.obligations ctx.word c.kind).length < 2 ^ 32)
    {r : ResolvedVerdict} {s' : Session} (stale : Nat)
    (hres : Resolves sha (recordedSession s ctx c) c.kind (c.obligation ctx).id
      (c.obligation ctx).idHash r s') :
    InWord sha { s with extraction := some (ctx.closed c r stale) } (ctx.closed c r stale) where
  aligned :=
    { valid := by
        intro o ho
        obtain ho | ho := List.mem_append.mp ho
        · exact h.aligned.valid o ho
        · rw [List.mem_singleton.mp ho]
          exact ⟨rfl, rfl⟩
      unique := by
        show ((ctx.set.obligations ++ [c.obligation ctx]).map Obligation.id).Nodup
        rw [List.map_append, List.nodup_append]
        refine ⟨h.aligned.unique, List.pairwise_singleton _ _, ?_⟩
        intro i hi j hj hij
        rw [List.map_singleton, List.mem_singleton] at hj
        exact h.obligation_fresh hroom (hj ▸ hij ▸ hi)
      dense := by
        intro word kind
        show occurrencesOf (ctx.recorded c).set.obligations word kind =
          List.range (occurrencesOf (ctx.recorded c).set.obligations word kind).length
        rw [occurrencesOf_recorded]
        by_cases hk : ctx.word = word ∧ c.kind = kind
        · obtain ⟨rfl, rfl⟩ := hk
          rw [if_pos ⟨rfl, rfl⟩, List.length_append, List.length_singleton, List.range_succ,
            ← h.aligned.dense, h.counted, Nat.mod_eq_of_lt hroom]
        · rw [if_neg hk, List.append_nil]
          exact h.aligned.dense word kind
      verdicts := by
        have hold : List.Forall₂ (OwnVerdict sha s.bindObl s.refinements (ctx.recorded c).set)
            ctx.set.obligations ctx.resolved :=
          h.aligned.verdicts.imp fun _ _ hor => ⟨hor.id, hor.idHash, hor.kind,
            fun hash hh => (hor.statement hash hh).congr rfl rfl rfl⟩
        have hnew : OwnVerdict sha s.bindObl s.refinements (ctx.recorded c).set
            (c.obligation ctx) r :=
          ⟨hres.id, hres.idHash, hres.kind, fun hash hh => h.ownStatement hroom
            (hres.statement hash hh)⟩
        exact List.rel_append hold (.cons hnew .nil) }
  counted := by
    intro kind
    show (if kind = c.kind then (ctx.counters c.kind + 1) % 2 ^ 32 else ctx.counters kind) =
      (occurrencesOf (ctx.recorded c).set.obligations ctx.word kind).length % 2 ^ 32
    rw [length_recorded]
    by_cases hk : kind = c.kind
    · rw [if_pos hk, if_pos hk.symm, h.counted, hk]
      omega
    · rw [if_neg hk, if_neg (Ne.symm hk), h.counted, Nat.add_zero]
  words := by
    intro o ho
    obtain ho | ho := List.mem_append.mp ho
    · exact h.words o ho
    · rw [List.mem_singleton.mp ho]
      exact .inl rfl
  fresh := h.fresh

end Site

def siteRows (obligations : List Obligation) : List (String × Kind × Formula) :=
  obligations.map fun o => (o.site.word, o.kind, o.formula)

section Word

variable {sha : Digest} {s : Session} {ctx : ExtractionCtx} {cs : List SiteCall}

structure AfterSites (sha : Digest) (s : Session) (ctx : ExtractionCtx) (cs : List SiteCall)
    (ctx' : ExtractionCtx) : Prop where
  session : s.sites sha cs = { s with extraction := some ctx' }
  inWord : InWord sha (s.sites sha cs) ctx'
  word : ctx'.word = ctx.word
  set : ctx'.set = { ctx.set with obligations := ctx'.set.obligations }
  rows : siteRows ctx'.set.obligations =
    siteRows ctx.set.obligations ++ cs.map fun c => (ctx.word, c.kind, c.formula)

theorem after_sites (hctx : s.extraction = some ctx) (h : InWord sha s ctx)
    (hroom : ∀ kind, (occurrencesOf ctx.set.obligations ctx.word kind).length +
      cs.countP (fun c => c.kind = kind) ≤ 2 ^ 32) :
    ∃ ctx', AfterSites sha s ctx cs ctx' := by
  induction cs generalizing s ctx with
  | nil =>
    refine ⟨ctx, ?_, h, rfl, rfl, (List.append_nil _).symm⟩
    show s = _
    rw [← hctx]
  | cons c cs ih =>
    have hfirst : (occurrencesOf ctx.set.obligations ctx.word c.kind).length < 2 ^ 32 := by
      have := hroom c.kind
      rw [List.countP_cons, if_pos (by simp)] at this
      omega
    obtain ⟨r, stale, s', hres, hsite⟩ := site_eq sha c hctx
    have hin := h.closed hfirst stale hres
    rw [← hsite] at hin
    have hroom' : ∀ kind, (occurrencesOf (ctx.closed c r stale).set.obligations
        (ctx.closed c r stale).word kind).length + cs.countP (fun c => c.kind = kind) ≤ 2 ^ 32 := by
      intro kind
      have hlen : (occurrencesOf (ctx.closed c r stale).set.obligations
          (ctx.closed c r stale).word kind).length = _ := length_recorded (c := c) kind
      rw [hlen]
      have := hroom kind
      rw [List.countP_cons] at this
      by_cases hk : c.kind = kind
      · rw [if_pos (by simpa using hk)] at this
        rw [if_pos hk]
        omega
      · rw [if_neg (by simpa using hk)] at this
        rw [if_neg hk]
        omega
    obtain ⟨ctx', hafter⟩ := ih (by rw [hsite]) hin hroom'
    refine ⟨ctx', ?_, hafter.inWord, hafter.word, hafter.set, ?_⟩
    · rw [show s.sites sha (c :: cs) = (s.site sha c).sites sha cs from rfl, hafter.session, hsite]
    · rw [hafter.rows]
      show siteRows (ctx.set.obligations ++ [c.obligation ctx]) ++ _ = _
      unfold siteRows
      rw [List.map_append, List.append_assoc]
      rfl

/-! ## The words of a module -/

/-- A word as it is extracted: its name, its sites in their order, and its canonical text. -/
structure WordCall where
  name : String
  sites : List SiteCall
  text : String

def WordCall.Room (w : WordCall) : Prop :=
  ∀ kind, w.sites.countP (fun c => c.kind = kind) ≤ 2 ^ 32

namespace Session

def beginWord (s : Session) (name : String) : Session :=
  { s with extraction := s.extraction.map fun ctx => Irgen.ExtractionCtx.beginWord ctx name }

def pushWordFact (s : Session) (name text : String) : Session :=
  { s with extraction := s.extraction.map fun ctx => { ctx with
      set := { ctx.set with words := ctx.set.words ++ [⟨name, text⟩] } } }

def word (sha : Digest) (s : Session) (w : WordCall) : Session :=
  ((s.beginWord w.name).sites sha w.sites).pushWordFact w.name w.text

def words (sha : Digest) (s : Session) (ws : List WordCall) : Session := ws.foldl (word sha) s

end Session

/-- Between two words: the tables fit together, and every site is one of a recorded word. -/
structure Between (sha : Digest) (s : Session) (ctx : ExtractionCtx) : Prop where
  aligned : Aligned sha s.bindObl s.refinements ctx
  words : ∀ o ∈ ctx.set.obligations, o.site.word ∈ ctx.set.words.map WordText.name

theorem Between.none {name : String} {kind : Kind} (h : Between sha s ctx)
    (hnew : name ∉ ctx.set.words.map WordText.name) :
    occurrencesOf ctx.set.obligations name kind = [] := by
  unfold occurrencesOf
  rw [List.map_eq_nil_iff, List.filter_eq_nil_iff]
  intro o ho heq
  rw [Bool.and_eq_true] at heq
  exact hnew (eq_of_beq heq.1 ▸ h.words o ho)

theorem Between.begin {name : String} (h : Between sha s ctx)
    (hnew : name ∉ ctx.set.words.map WordText.name) :
    InWord sha (s.beginWord name) (Irgen.ExtractionCtx.beginWord ctx name) where
  aligned := ⟨h.aligned.valid, h.aligned.unique, h.aligned.dense, h.aligned.verdicts⟩
  counted := by
    intro kind
    show 0 = (occurrencesOf ctx.set.obligations name kind).length % 2 ^ 32
    rw [h.none hnew]
    rfl
  words := fun o ho => .inr (h.words o ho)
  fresh := hnew

structure AfterWords (sha : Digest) (s : Session) (ctx : ExtractionCtx) (ws : List WordCall)
    (ctx' : ExtractionCtx) : Prop where
  session : s.words sha ws = { s with extraction := some ctx' }
  between : Between sha (s.words sha ws) ctx'
  words : ctx'.set.words = ctx.set.words ++ ws.map fun w => ⟨w.name, w.text⟩
  rows : siteRows ctx'.set.obligations = siteRows ctx.set.obligations ++
    ws.flatMap fun w => w.sites.map fun c => (w.name, c.kind, c.formula)

theorem after_word {w : WordCall} (hctx : s.extraction = some ctx) (h : Between sha s ctx)
    (hnew : w.name ∉ ctx.set.words.map WordText.name) (hroom : w.Room) :
    ∃ ctx', AfterWords sha s ctx [w] ctx' := by
  have hin := h.begin hnew
  have hbegin : (s.beginWord w.name).extraction =
      some (Irgen.ExtractionCtx.beginWord ctx w.name) := by
    unfold Session.beginWord
    rw [hctx]
    rfl
  have hroom' : ∀ kind, (occurrencesOf (Irgen.ExtractionCtx.beginWord ctx w.name).set.obligations
      (Irgen.ExtractionCtx.beginWord ctx w.name).word kind).length +
        w.sites.countP (fun c => c.kind = kind) ≤ 2 ^ 32 := by
    intro kind
    show (occurrencesOf ctx.set.obligations w.name kind).length + _ ≤ _
    rw [h.none hnew, List.length_nil, Nat.zero_add]
    exact hroom kind
  obtain ⟨ctx', hafter⟩ := after_sites hbegin hin hroom'
  refine ⟨{ ctx' with set := { ctx'.set with words := ctx'.set.words ++ [⟨w.name, w.text⟩] } },
    ?_, ?_, ?_, ?_⟩
  · show ((s.beginWord w.name).sites sha w.sites).pushWordFact w.name w.text = _
    rw [hafter.session]
    rfl
  · have hin' := hafter.inWord
    refine ⟨⟨hin'.aligned.valid, hin'.aligned.unique, hin'.aligned.dense, ?_⟩, ?_⟩
    · exact hin'.aligned.verdicts.imp fun _ _ hor => ⟨hor.id, hor.idHash, hor.kind,
        fun hash hh => (hor.statement hash hh).congr rfl rfl rfl⟩
    · intro o ho
      rw [List.map_append]
      obtain hcur | hold := hin'.words o ho
      · have hname : o.site.word = w.name := hcur.trans hafter.word
        rw [hname]
        exact List.mem_append_right _ (List.mem_singleton_self _)
      · exact List.mem_append_left _ hold
  · show ctx'.set.words ++ _ = _
    rw [hafter.set]
    rfl
  · show siteRows ctx'.set.obligations = _
    rw [hafter.rows, List.flatMap_singleton]
    rfl

theorem after_words {ws : List WordCall} (hctx : s.extraction = some ctx) (h : Between sha s ctx)
    (hnew : (ctx.set.words.map WordText.name ++ ws.map WordCall.name).Nodup)
    (hroom : ∀ w ∈ ws, w.Room) : ∃ ctx', AfterWords sha s ctx ws ctx' := by
  induction ws generalizing s ctx with
  | nil =>
    refine ⟨ctx, ?_, h, (List.append_nil _).symm, (List.append_nil _).symm⟩
    show s = _
    rw [← hctx]
  | cons w ws ih =>
    have hfresh : w.name ∉ ctx.set.words.map WordText.name := by
      rw [List.map_cons, List.nodup_append] at hnew
      intro hmem
      exact hnew.2.2 _ hmem _ List.mem_cons_self rfl
    obtain ⟨mid, hmid⟩ := after_word hctx h hfresh (hroom w List.mem_cons_self)
    have hsession : s.words sha (w :: ws) = (s.words sha [w]).words sha ws := rfl
    have hnew' : (mid.set.words.map WordText.name ++ ws.map WordCall.name).Nodup := by
      rw [hmid.words, List.map_append, List.append_assoc]
      exact hnew
    obtain ⟨ctx', hafter⟩ := ih (by rw [hmid.session]) hmid.between hnew' fun w' hw' =>
      hroom w' (List.mem_cons_of_mem _ hw')
    refine ⟨ctx', ?_, ?_, ?_, ?_⟩
    · rw [hsession, hafter.session, hmid.session]
    · rw [hsession]
      exact hafter.between
    · rw [hafter.words, hmid.words, List.append_assoc]
      rfl
    · rw [hafter.rows, hmid.rows, List.append_assoc, List.flatMap_singleton, List.flatMap_cons]

variable (sha cs) in
theorem sites_length (hctx : s.extraction = some ctx) :
    ∃ ctx', (s.sites sha cs).extraction = some ctx' ∧
      ctx'.set.obligations.length = ctx.set.obligations.length + cs.length := by
  induction cs generalizing s ctx with
  | nil => exact ⟨ctx, hctx, rfl⟩
  | cons c cs ih =>
    obtain ⟨r, stale, s', -, hsite⟩ := site_eq sha c hctx
    have hnext : (s.site sha c).extraction = some (ctx.closed c r stale) := by rw [hsite]
    obtain ⟨ctx', hctx', hlen⟩ := ih hnext
    have hclosed : (ctx.closed c r stale).set.obligations.length =
        ctx.set.obligations.length + 1 := List.length_append
    refine ⟨ctx', hctx', ?_⟩
    rw [hlen, hclosed, List.length_cons]
    omega

variable (sha) in
theorem words_length (ws : List WordCall) (hctx : s.extraction = some ctx) :
    ∃ ctx', (s.words sha ws).extraction = some ctx' ∧ ctx'.set.obligations.length =
      ctx.set.obligations.length + (ws.map fun w => w.sites.length).sum := by
  induction ws generalizing s ctx with
  | nil => exact ⟨ctx, hctx, rfl⟩
  | cons w ws ih =>
    have hbegin : (s.beginWord w.name).extraction =
        some (Irgen.ExtractionCtx.beginWord ctx w.name) := by
      unfold Session.beginWord
      rw [hctx]
      rfl
    obtain ⟨mid, hmid, hlen⟩ := sites_length sha w.sites hbegin
    have hword : (s.word sha w).extraction =
        some { mid with set := { mid.set with words := mid.set.words ++ [⟨w.name, w.text⟩] } } := by
      unfold Session.word Session.pushWordFact
      rw [hmid]
      rfl
    obtain ⟨ctx', hctx', hlen'⟩ := ih hword
    refine ⟨ctx', hctx', ?_⟩
    have hbefore : (Irgen.ExtractionCtx.beginWord ctx w.name).set.obligations.length =
        ctx.set.obligations.length := rfl
    rw [hlen', hlen, hbefore, List.map_cons, List.sum_cons]
    omega

theorem room_of_length {ws : List WordCall} {ctx' : ExtractionCtx} (hctx : s.extraction = some ctx)
    (hctx' : (s.words sha ws).extraction = some ctx')
    (hlen : ctx'.set.obligations.length ≤ 2 ^ 32) : ∀ w ∈ ws, w.Room := by
  intro w hw kind
  obtain ⟨last, hlast, hsum⟩ := words_length sha ws hctx
  rw [hctx'] at hlast
  obtain rfl := Option.some.inj hlast
  have hsites : w.sites.length ≤ (ws.map fun w => w.sites.length).sum :=
    List.single_le_sum (fun _ _ => Nat.zero_le _) _ (List.mem_map.mpr ⟨w, hw, rfl⟩)
  calc w.sites.countP (fun c => c.kind = kind) ≤ w.sites.length := List.countP_le_length
    _ ≤ 2 ^ 32 := by omega

end Word

/-! ## Lowering -/

namespace Irgen

theorem lowerDecl_word {Γ : Env} {fuel : Nat} {opsText : Word → String} {session : Session}
    {decl : Decl} {lowered : LoweredWord} {session' : Session}
    (h : lowerDecl Γ fuel opsText session decl = .ok (lowered, session')) :
    ∃ w : WordCall, w.name = decl.name ∧ session' = session.word Γ.digest w := by
  unfold lowerDecl at h
  obtain ⟨sig, -, h⟩ := bind_eq_ok.mp h
  obtain ⟨out, hbuild, h⟩ := bind_eq_ok.mp h
  obtain ⟨_, -, h⟩ := bind_eq_ok.mp h
  obtain ⟨_, -, h⟩ := bind_eq_ok.mp h
  obtain ⟨cs, hsites⟩ := buildIrWord_sites hbuild
  refine ⟨⟨decl.name, cs, opsText out.word⟩, rfl, ?_⟩
  cases h
  show _ = ((session.beginWord decl.name).sites Γ.digest cs).pushWordFact decl.name _
  rw [hsites]
  rfl

def extractDecls (Γ : Env) (fuel : Nat) (opsText : Word → String) :
    List Decl → Session → Except TcError Session
  | [], session => .ok session
  | decl :: rest, session =>
    if decl.body.isNone then extractDecls Γ fuel opsText rest session
    else do
      let (_, session) ← lowerDecl Γ fuel opsText session decl
      extractDecls Γ fuel opsText rest session

/-- The session after a module: the summaries first, without an extraction. -/
def extractModule (Γ : Env) (fuel : Nat) (opsText : Word → String) (decls : List Decl)
    (passes : Nat) (session : Session) : Except TcError Session := do
  let words ← localSummaryEnv Γ fuel session.checks decls passes Γ.words
  extractDecls { Γ with words := words } fuel opsText decls session

variable {Γ : Env} {fuel : Nat} {opsText : Word → String} {decls : List Decl} {passes : Nat}
  {session : Session}

theorem extractDecls_words {s : Session}
    (h : extractDecls Γ fuel opsText decls session = .ok s) :
    ∃ ws : List WordCall, s = session.words Γ.digest ws ∧
      ws.map WordCall.name = (decls.filter fun d => d.body.isSome).map Decl.name := by
  induction decls generalizing session with
  | nil =>
    cases h
    exact ⟨[], rfl, rfl⟩
  | cons decl rest ih =>
    unfold extractDecls at h
    split at h
    · rename_i hbody
      rw [List.filter_cons_of_neg (by simpa using hbody)]
      exact ih h
    · rename_i hbody
      obtain ⟨⟨first, session'⟩, hfirst, h⟩ := bind_eq_ok.mp h
      obtain ⟨w, hname, hword⟩ := lowerDecl_word hfirst
      obtain ⟨ws, hws, hnames⟩ := ih h
      refine ⟨w :: ws, ?_, ?_⟩
      · rw [hws, hword]
        rfl
      · rw [List.filter_cons_of_pos (by simpa [Option.isSome_iff_ne_none] using hbody),
          List.map_cons, List.map_cons, hname, hnames]

theorem extractModule_words {s : Session}
    (h : extractModule Γ fuel opsText decls passes session = .ok s) :
    ∃ ws : List WordCall, s = session.words Γ.digest ws ∧
      ws.map WordCall.name = (decls.filter fun d => d.body.isSome).map Decl.name := by
  obtain ⟨summaries, -, h⟩ := bind_eq_ok.mp h
  exact extractDecls_words (Γ := { Γ with words := summaries }) h

end Irgen

def ExtractionCtx.newWithIdentity (module target modelSemantics concurrency : String) :
    ExtractionCtx where
  set := ⟨module, target, modelSemantics, concurrency, [], []⟩
  word := ""
  counters := fun _ => 0
  resolved := []
  wordMmioOpen := false
  statementStale := 0

structure Extracted (sha : Digest) (bind : Option OblSet) (refinements : List Refinement)
    (names : List String) (ctx : ExtractionCtx) : Prop where
  aligned : Aligned sha bind refinements ctx
  facts : ctx.set.words.map WordText.name = names
  words : ∀ o ∈ ctx.set.obligations, o.site.word ∈ ctx.set.words.map WordText.name

def bodyNames (decls : List Irgen.Decl) : List String :=
  (decls.filter fun d => d.body.isSome).map Irgen.Decl.name

theorem extracted_words (sha : Digest) {s : Session} {ws : List WordCall}
    {module target modelSemantics concurrency : String}
    (hctx : s.extraction = some (.newWithIdentity module target modelSemantics concurrency))
    (hnames : (ws.map WordCall.name).Nodup) (hroom : ∀ w ∈ ws, w.Room) :
    ∃ ctx, (s.words sha ws).extraction = some ctx ∧
      Extracted sha s.bindObl s.refinements (ws.map WordCall.name) ctx ∧
      siteRows ctx.set.obligations =
        ws.flatMap fun w => w.sites.map fun c => (w.name, c.kind, c.formula) := by
  have hstart : Between sha s
      (.newWithIdentity module target modelSemantics concurrency) :=
    { aligned := ⟨(fun _ ho => nomatch ho), .nil, fun _ _ => rfl, .nil⟩
      words := fun _ ho => nomatch ho }
  obtain ⟨ctx, hafter⟩ := after_words hctx hstart hnames hroom
  have hbetween := hafter.between
  have hfacts : ctx.set.words.map WordText.name = ws.map WordCall.name := by
    rw [hafter.words, List.map_append, List.map_map]
    rfl
  refine ⟨ctx, by rw [hafter.session], ⟨?_, hfacts, hbetween.words⟩, hafter.rows⟩
  have haligned := hbetween.aligned
  rw [hafter.session] at haligned
  exact haligned

/-- The lowering of a module closes its sites word by word, one word for each declaration with a
body.  When these have distinct names and no word has more sites of a kind than there are
ordinals, the tables that it leaves fit together and list the sites in the order they were
closed. -/
theorem extraction_aligned {Γ : Irgen.Env} {fuel : Nat} {opsText : Word → String}
    {decls : List Irgen.Decl} {passes : Nat} {session s : Session}
    {module target modelSemantics concurrency : String}
    (hctx : session.extraction =
      some (.newWithIdentity module target modelSemantics concurrency))
    (hnames : (bodyNames decls).Nodup)
    (h : Irgen.extractModule Γ fuel opsText decls passes session = .ok s) :
    ∃ ws : List WordCall, s = session.words Γ.digest ws ∧
      ws.map WordCall.name = bodyNames decls ∧
      ((∀ w ∈ ws, w.Room) → ∃ ctx, s.extraction = some ctx ∧
        Extracted Γ.digest session.bindObl session.refinements (bodyNames decls) ctx ∧
        siteRows ctx.set.obligations =
          ws.flatMap fun w => w.sites.map fun c => (w.name, c.kind, c.formula)) := by
  obtain ⟨ws, hs, hws⟩ := Irgen.extractModule_words h
  refine ⟨ws, hs, hws, fun hroom => ?_⟩
  have hnodup : (ws.map WordCall.name).Nodup := by
    rw [hws]
    exact hnames
  obtain ⟨ctx, hextraction, hextracted, hrows⟩ := extracted_words Γ.digest hctx hnodup hroom
  rw [hws] at hextracted
  exact ⟨ctx, by rw [hs, hextraction], hextracted, hrows⟩

namespace Extraction

def AT_PERCENT : Irgen.TypeAtom := ⟨"Percent", by decide⟩

/-- `Percent` is a number up to a hundred. -/
def percentEnv : Irgen.Env :=
  { Irgen.plainBuild.env (Irgen.plainModule "Main" "take" [] [(.ident, "drop")] .none) with
    subtypes := [⟨AT_PERCENT, ⟨"i64", i64_fits⟩, 0, 100⟩] }

/-- `: name ( Percent -- ) drop ;` -/
def percentDecl (name : String) : Irgen.Decl :=
  { Irgen.quoteDecl [(.ident, "drop")] with
    name := name
    sig := some ⟨⟨[AT_PERCENT], by decide⟩, .new⟩ }

def percentSession : Session :=
  { Irgen.forecastSession .off with
    extraction := some (.newWithIdentity "Main" "" "unmodeled" "unmodeled") }

def percentWords (names : List String) : Except Irgen.TcError Session :=
  Irgen.extractModule percentEnv 4 (fun _ => "") (names.map percentDecl) 3 percentSession

/-- One word: its table has the one site, and its verdict. -/
theorem take_aligned : ∃ s ctx, percentWords ["take"] = .ok s ∧ s.extraction = some ctx ∧
    ctx.set.obligations.length = 1 ∧ Extracted percentEnv.digest none [] ["take"] ctx := by
  have hlength : (percentWords ["take"]).toOption.bind (fun s => s.extraction.map fun ctx =>
      ctx.set.obligations.length) = some 1 := by decide +kernel
  cases hrun : percentWords ["take"] with
  | error e =>
    rw [hrun] at hlength
    cases hlength
  | ok s =>
    rw [hrun] at hlength
    obtain ⟨ctx, hctx, hone⟩ := Option.map_eq_some_iff.mp hlength
    have hstart : percentSession.extraction =
        some (.newWithIdentity "Main" "" "unmodeled" "unmodeled") := rfl
    have hnames : (bodyNames (["take"].map percentDecl)).Nodup := by decide
    obtain ⟨ws, hs, -, haligned⟩ := extraction_aligned hstart hnames hrun
    have hwords : (percentSession.words percentEnv.digest ws).extraction = some ctx := by
      rw [← hs]
      exact hctx
    obtain ⟨ctx', hctx', hextracted, -⟩ :=
      haligned (room_of_length (s := percentSession) rfl hwords (by omega))
    rw [hctx] at hctx'
    obtain rfl := Option.some.inj hctx'
    exact ⟨s, ctx, rfl, hctx, hone, hextracted⟩

/-- Two words of one name: the artifact validates, and its two obligations have one id. -/
theorem take_twice : ¬∀ (Γ : Irgen.Env) (fuel : Nat) (opsText : Word → String)
    (decls : List Irgen.Decl) (passes : Nat) (session s : Session) (ctx : ExtractionCtx)
    (module target modelSemantics concurrency : String),
    session.extraction =
      some (.newWithIdentity module target modelSemantics concurrency) →
    Irgen.extractModule Γ fuel opsText decls passes session = .ok s →
    s.extraction = some ctx → ctx.set.Valid →
    (ctx.set.obligations.map Obligation.id).Nodup := by
  intro hclaim
  have hcode : (percentWords ["take", "take"]).toOption.bind (fun s => s.extraction.map fun ctx =>
      (ctx.set.obligations.map Obligation.id, ctx.set.obligations.all fun o =>
        o.id == canonicalId ctx.set.module o.site.word o.kind o.site.occurrence &&
          o.idHash == idHashOf o.id)) =
      some (["Main::take::subtype-range::0", "Main::take::subtype-range::0"], true) := by
    decide +kernel
  cases hrun : percentWords ["take", "take"] with
  | error e =>
    rw [hrun] at hcode
    cases hcode
  | ok s =>
    rw [hrun] at hcode
    obtain ⟨ctx, hctx, htable⟩ := Option.map_eq_some_iff.mp hcode
    obtain ⟨hids, hall⟩ := Prod.mk.inj htable
    have hvalid : ctx.set.Valid := by
      intro o ho
      have hboth := List.all_eq_true.mp hall o ho
      rw [Bool.and_eq_true] at hboth
      exact ⟨eq_of_beq hboth.1, eq_of_beq hboth.2⟩
    have hnodup := hclaim _ _ _ _ _ percentSession s ctx _ _ _ _ rfl hrun hctx hvalid
    rw [hids] at hnodup
    exact absurd hnodup (by decide)

end Extraction

end Tyu

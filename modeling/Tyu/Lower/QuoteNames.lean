import Tyu.Lower.SlotRuns
import Tyu.Lower.Separate

/-!
# Names of quotations

A quotation that is called, or started as a task, becomes a word under a generated name, and the
operation that enters it names that word.
-/

namespace Tyu.Irgen

open Lib

def quotAtom (n : Nat) : Atom := (Atom.new (quoteName n)).getD AT_QUOT

def codeAt (w : Word) (cur : BlockId) : List OpKind :=
  ((w.blocks.get? cur.idx).map fun b => b.ops.items.map Op.kind).getD []

/-- Between two states of the lowering a quotation is entered, by an operation of a block at a
position. -/
def EntersAt (Γ : Env) (first last : Gen) (b : BlockId) (i : Nat) (quot : Range)
    (kind : OpKind) : Prop :=
  ∃ g g', Relation.ReflTransGen (Gen.CodeStep Γ 0) first g ∧ Gen.Enters Γ b quot kind g g' ∧
    Relation.ReflTransGen (Gen.CodeStep Γ 0) g' last ∧ (g.opsAt b).length = i

structure LoweredWord.Run (Γ : Env) (fuel : Nat) (lw : LoweredWord) (first last : Gen) : Prop where
  blank : ∃ session sig name, first = .blank Γ session 0 sig name
  run : wordBody Γ (compileSpan Γ fuel) lw.decl first = .ok (lw.word, last)
  extraWords : lw.extraWords = last.extraWords

/-- The lowering of a quotation to a word, from its first state to its last. -/
inductive QuoteRun (Γ : Env) (quot : Range) (w : Word) : Gen → Gen → Prop
  | mk {fuel : Nat} {parsed : QuoteSig} {lock : Option ContextFrame} {session : Session} {n : Nat}
      {name : Atom} {last : Gen} (parse : parseQuoteSig Γ quot = .ok parsed)
      (run : quoteBody Γ (compileSpan Γ fuel) parsed lock (.blank Γ session n parsed.sig name) =
        .ok (w, last)) : QuoteRun Γ quot w (.blank Γ session n parsed.sig name) last

def BuiltFrom (Γ : Env) (quot : Range) (w : Word) : Prop :=
  ∃ first last, QuoteRun Γ quot w first last

def quoteWords (lws : List LoweredWord) : List Word := lws.flatMap fun lw => lw.extraWords.items

inductive EmittedRun (Γ : Env) (fuel : Nat) (lws : List LoweredWord) : Word → Gen → Gen → Prop
  | declared {lw : LoweredWord} {first last : Gen} (mem : lw ∈ lws)
      (run : lw.Run Γ fuel first last) : EmittedRun Γ fuel lws lw.word first last
  | quotation {lw : LoweredWord} {outer outer' : Gen} {b : BlockId} {i : Nat} {quot : Range}
      {kind : OpKind} {w : Word} {first last : Gen} (mem : lw ∈ lws)
      (word : lw.Run Γ fuel outer outer') (entered : EntersAt Γ outer outer' b i quot kind)
      (run : QuoteRun Γ quot w first last) (emitted : w ∈ lw.extraWords.items) :
      EmittedRun Γ fuel lws w first last

/-- Every quotation that is entered is reached.  The names of the emitted quotation words are
distinct; where an emitted word enters a quotation, the operation names exactly one of them,
which is the compilation of the quotation's range; and an emitted word enters nothing else that
is not in scope. -/
structure QuotesReached (Γ : Env) (fuel : Nat) (lws : List LoweredWord) : Prop where
  lowered : ∀ lw ∈ lws, ∀ w, w = lw.word ∨ w ∈ lw.extraWords.items →
    ∃ first last, EmittedRun Γ fuel lws w first last
  distinct : ((quoteWords lws).map Word.name).Nodup
  reached : ∀ {w first last}, EmittedRun Γ fuel lws w first last →
    ∀ {b i quot kind}, EntersAt Γ first last b i quot kind → (codeAt w b)[i]? = some kind ∧
      ∃ name e, callee kind = some name ∧ (quoteWords lws).filter (fun e => e.name == name) = [e] ∧
        BuiltFrom Γ quot e
  covered : ∀ {w first last}, EmittedRun Γ fuel lws w first last →
    ∀ {b i kind name}, (codeAt w b)[i]? = some kind → callee kind = some name →
      ¬Γ.Declares name → ∃ quot, EntersAt Γ first last b i quot kind

def LoweredWord.Enters (Γ : Env) (fuel : Nat) (lw : LoweredWord) : Prop :=
  ∃ first last b i quot kind, lw.Run Γ fuel first last ∧ EntersAt Γ first last b i quot kind

def LoweredWord.Flat (Γ : Env) (fuel : Nat) (lw : LoweredWord) : Prop :=
  ∀ {first last b i quot kind}, lw.Run Γ fuel first last → EntersAt Γ first last b i quot kind →
    ∀ {w first' last'}, QuoteRun Γ quot w first' last' → w ∈ lw.extraWords.items →
      ∀ b' i' quot' kind', ¬EntersAt Γ first' last' b' i' quot' kind'

def OneEnters (Γ : Env) (fuel : Nat) (lws : List LoweredWord) : Prop :=
  lws.Pairwise fun lw lw' => ¬(lw.Enters Γ fuel ∧ lw'.Enters Γ fuel)

section Steps

variable {Γ : Env} {nb : Nat} {g g' first last : Gen} {b cur : BlockId} {i : Nat} {quot : Range}
  {kind : OpKind} {w : Word}

theorem quotAtom_inj : ∀ i < 16, ∀ j < 16, quotAtom i = quotAtom j → i = j := by decide +kernel

theorem Gen.Enters.leads (h : Gen.Enters Γ cur quot kind g g') : ∃ w, BuiltFrom Γ quot w ∧
    w.name = quotAtom g.quoteId ∧ callee kind = some (quotAtom g.quoteId) ∧
    g'.extraWords.items = g.extraWords.items ++ [w] ∧ g'.quoteId = (g.quoteId + 1) % 2 ^ 32 ∧
    ∀ c, g'.opsAt c = if c = cur then g.opsAt c ++ [kind] else g.opsAt c := by
  obtain ⟨fuel, parsed, lock, session, n, w, gi, -, hparsed, hbody, hcallee, hwords, hid, t, span,
    hblocks, -, -, -, hemit⟩ := h.run
  refine ⟨w, ⟨_, _, .mk hparsed hbody⟩, (quoteBody_word hbody).2.1, hcallee, hwords, hid, ?_⟩
  intro c
  have hops : t.opsAt c = g.opsAt c := by rw [Gen.opsAt, ← hblocks, Gen.opsAt]
  rw [emitOp_opsAt hemit c, hops]

/-- A step leaves a block as it is, or appends an operation to it: one that enters a quotation,
or one whose callee is in scope. -/
theorem Gen.CodeStep.appends (h : Gen.CodeStep Γ nb g g') (c : BlockId) :
    g'.opsAt c = g.opsAt c ∨ ∃ kind, g'.opsAt c = g.opsAt c ++ [kind] ∧
      ((∃ quot, Gen.Enters Γ c quot kind g g') ∨
        ∀ name, callee kind = some name → Γ.Declares name) := by
  have hemitted : ∀ {t : Gen} {cur : BlockId} {kind : OpKind} {span : Span} {u : Unit},
      t.word.blocks = g.word.blocks → (∀ name, callee kind = some name → Γ.Declares name) →
      emitOp Γ cur kind span t = .ok (u, g') → g'.opsAt c = g.opsAt c ∨
        ∃ kind, g'.opsAt c = g.opsAt c ++ [kind] ∧ ((∃ quot, Gen.Enters Γ c quot kind g g') ∨
          ∀ name, callee kind = some name → Γ.Declares name) := by
    intro t cur kind span u hblocks hcallee hemit
    have hops : t.opsAt c = g.opsAt c := by rw [Gen.opsAt, hblocks, Gen.opsAt]
    rw [emitOp_opsAt hemit c, hops]
    split
    · exact .inr ⟨kind, rfl, .inr hcallee⟩
    · exact .inl rfl
  cases h with
  | note same => exact .inl (by rw [Gen.opsAt, same.blocks, Gen.opsAt])
  | block run =>
    obtain ⟨added, hops, hadded⟩ := addBlock_appended (P := fun _ => False) run c
    obtain rfl := List.eq_nil_iff_forall_not_mem.mpr hadded
    exact .inl (by rw [hops, List.append_nil])
  | @plain _ _ kind _ hk run =>
    refine hemitted rfl (fun name hname => ?_) run
    cases kind <;> cases hname <;> cases hk
  | @jump _ _ kind _ hk _ run =>
    refine hemitted rfl (fun name hname => ?_) run
    cases kind <;> cases hname <;> exact absurd rfl hk
  | call known run =>
    refine hemitted rfl (fun name hname => ?_) run
    cases hname
    exact known
  | param _ run | temp _ run => exact hemitted rfl (by intro _ h; cases h) run
  | bind _ _ same run | use _ _ same run =>
    exact hemitted same.blocks (by intro _ h; cases h) run
  | endScope _ run =>
    cases run
    exact .inl rfl
  | @enter _ cur quot kind run =>
    obtain ⟨-, -, -, -, -, -, hops⟩ := run.leads
    rw [hops c]
    split
    · next heq => exact .inr ⟨kind, rfl, .inl ⟨quot, heq ▸ run⟩⟩
    · exact .inl rfl

theorem Gen.CodeStep.counts (h : Gen.CodeStep Γ nb g g') :
    (g'.extraWords = g.extraWords ∧ g'.quoteId = g.quoteId) ∨
      ∃ cur quot kind, Gen.Enters Γ cur quot kind g g' := by
  cases h with
  | note same => exact .inl ⟨same.extraWords, same.quoteId⟩
  | block run =>
    obtain ⟨-, -, -, -, hwords, hid, -⟩ := addBlock_run run
    exact .inl ⟨hwords, hid⟩
  | plain _ run | jump _ _ run | call _ run | param _ run | temp _ run =>
    obtain ⟨-, -, -, hwords, hid, -⟩ := emitOp_blocks run
    exact .inl ⟨hwords, hid⟩
  | bind _ _ same run | use _ _ same run =>
    obtain ⟨-, -, -, hwords, hid, -⟩ := emitOp_blocks run
    exact .inl ⟨hwords.trans same.extraWords, hid.trans same.quoteId⟩
  | endScope _ run =>
    cases run
    exact .inl ⟨rfl, rfl⟩
  | enter run => exact .inr ⟨_, _, _, run⟩

/-! ## Runs -/

/-- Quotation words are named by their position, and the count is their number. -/
structure Gen.Counted (g : Gen) : Prop where
  count : g.quoteId = g.extraWords.len
  names : ∀ i w, g.extraWords.items[i]? = some w → w.name = quotAtom i

theorem Gen.CodeStep.counted (h : Gen.CodeStep Γ nb g g') (hg : g.Counted) : g'.Counted := by
  obtain ⟨hwords, hid⟩ | ⟨cur, quot, kind, henters⟩ := h.counts
  · exact ⟨by rw [hid, hwords, hg.count], by rw [hwords]; exact hg.names⟩
  · obtain ⟨w, -, hname, -, hwords, hid, -⟩ := henters.leads
    have hroom : g'.extraWords.len ≤ 16 := g'.extraWords.bounded
    have hlen : g'.extraWords.len = g.extraWords.len + 1 := by
      unfold FixedVec.len
      rw [hwords, List.length_append, List.length_singleton]
    refine ⟨by rw [hid, hg.count]; omega, fun i w' hw' => ?_⟩
    rw [hwords] at hw'
    by_cases hi : i < g.extraWords.items.length
    · rw [List.getElem?_append_left hi] at hw'
      exact hg.names i w' hw'
    · have hlast : i = g.extraWords.items.length := by
        have := (List.getElem?_eq_some_iff.mp hw').1
        rw [List.length_append, List.length_singleton] at this
        omega
      rw [hlast, List.getElem?_append_right (Nat.le_refl _), Nat.sub_self] at hw'
      cases hw'
      rw [hname, hg.count, hlast]
      rfl

theorem getElem?_of_prefix {α : Type} {xs ys : List α} {n : Nat} {a : α} (h : xs <+: ys)
    (ha : xs[n]? = some a) : ys[n]? = some a := by
  obtain ⟨zs, rfl⟩ := h
  rw [List.getElem?_append_left (List.getElem?_eq_some_iff.mp ha).1]
  exact ha

/-- What lowering comes to from a state by code steps: blocks grow at their ends, quotation words
are added. -/
structure Gen.Extends (g g' : Gen) : Prop where
  ops : ∀ c, g.opsAt c <+: g'.opsAt c
  words : g.extraWords.items <+: g'.extraWords.items
  counted : g.Counted → g'.Counted

theorem Gen.CodeStep.extends (h : Gen.CodeStep Γ nb g g') : g.Extends g' := by
  refine ⟨fun c => ?_, ?_, h.counted⟩
  · obtain hops | ⟨kind, hops, -⟩ := h.appends c
    · exact hops.symm ▸ List.prefix_rfl
    · rw [hops]
      exact List.prefix_append ..
  · obtain ⟨hwords, -⟩ | ⟨cur, quot, kind, henters⟩ := h.counts
    · exact hwords.symm ▸ List.prefix_rfl
    · obtain ⟨w, -, -, -, hwords, -⟩ := henters.leads
      rw [hwords]
      exact List.prefix_append ..

theorem extends_of_steps (h : Relation.ReflTransGen (Gen.CodeStep Γ nb) g g') : g.Extends g' := by
  induction h with
  | refl => exact ⟨fun _ => List.prefix_rfl, List.prefix_rfl, id⟩
  | tail _ hstep ih =>
    have hnext := hstep.extends
    exact ⟨fun c => (ih.ops c).trans (hnext.ops c), ih.words.trans hnext.words,
      fun hg => hnext.counted (ih.counted hg)⟩

structure Gen.Fresh (g : Gen) : Prop where
  blocks : g.word.blocks = .new
  locals : g.locals = []
  extraWords : g.extraWords = .new
  quoteId : g.quoteId = 0

theorem fresh_blank (session : Session) (n : Nat) (sig : WordSig) (name : Atom) :
    (Gen.blank Γ session n sig name).Fresh := ⟨rfl, rfl, rfl, rfl⟩

theorem Gen.Fresh.counted (h : first.Fresh) : first.Counted := by
  refine ⟨by rw [h.quoteId, h.extraWords]; rfl, fun i w hw => ?_⟩
  rw [h.extraWords] at hw
  cases hw

/-- Where a quotation is entered: the operation stands in the finished code, and one quotation
word of the generator has its name. -/
theorem EntersAt.found (h : EntersAt Γ first last b i quot kind) (hfirst : first.Fresh) :
    (last.opsAt b)[i]? = some kind ∧ last.Counted ∧ ∃ n e, callee kind = some (quotAtom n) ∧
      last.extraWords.items[n]? = some e ∧ BuiltFrom Γ quot e := by
  obtain ⟨g, g', hbefore, henters, hafter, rfl⟩ := h
  have hg := (extends_of_steps hbefore).counted hfirst.counted
  have hrest := extends_of_steps hafter
  obtain ⟨w, hbuilt, hname, hcallee, hwords, hid, hops⟩ := henters.leads
  have hstep : Gen.CodeStep Γ 0 g g' := .enter henters
  refine ⟨?_, hrest.counted (hstep.counted hg), g.extraWords.len, w, by rw [hcallee, hg.count], ?_,
    hbuilt⟩
  · have hthere : (g'.opsAt b)[(g.opsAt b).length]? = some kind := by
      rw [hops b, if_pos rfl]
      exact List.getElem?_concat_length ..
    exact getElem?_of_prefix (hrest.ops b) hthere
  · have hthere : g'.extraWords.items[g.extraWords.len]? = some w := by
      rw [hwords]
      exact List.getElem?_concat_length ..
    exact getElem?_of_prefix hrest.words hthere

theorem EntersAt.tail (h : EntersAt Γ first g b i quot kind) (hstep : Gen.CodeStep Γ 0 g g') :
    EntersAt Γ first g' b i quot kind := by
  obtain ⟨t, t', hbefore, henters, hafter, hi⟩ := h
  exact ⟨t, t', hbefore, henters, hafter.tail hstep, hi⟩

/-- An operation of the finished code enters a quotation where it stands, or calls what is in
scope. -/
theorem op_enters (hsteps : Relation.ReflTransGen (Gen.CodeStep Γ 0) first last)
    (hfirst : first.Fresh) (hop : (last.opsAt b)[i]? = some kind) :
    (∃ quot, EntersAt Γ first last b i quot kind) ∨
      ∀ name, callee kind = some name → Γ.Declares name := by
  induction hsteps with
  | refl =>
    rw [opsAt_none (by rw [hfirst.blocks]; exact Nat.zero_le _)] at hop
    cases hop
  | @tail g g' hsteps hstep ih =>
    have hold : ∀ hold : (g.opsAt b)[i]? = some kind,
        (∃ quot, EntersAt Γ first g' b i quot kind) ∨
          ∀ name, callee kind = some name → Γ.Declares name := by
      intro hold
      obtain ⟨quot, henters⟩ | hknown := ih hold
      · exact .inl ⟨quot, henters.tail hstep⟩
      · exact .inr hknown
    obtain hops | ⟨kind', hops, hnew⟩ := hstep.appends b
    · exact hold (hops ▸ hop)
    · rw [hops] at hop
      by_cases hi : i < (g.opsAt b).length
      · rw [List.getElem?_append_left hi] at hop
        exact hold hop
      · have hlast : (g.opsAt b).length = i := by
          have := (List.getElem?_eq_some_iff.mp hop).1
          rw [List.length_append, List.length_singleton] at this
          omega
        subst hlast
        rw [List.getElem?_concat_length] at hop
        cases hop
        obtain ⟨quot, henters⟩ | hknown := hnew
        · exact .inl ⟨quot, g, g', hsteps, henters, .refl, rfl⟩
        · exact .inr hknown

theorem word_entered (hsteps : Relation.ReflTransGen (Gen.CodeStep Γ 0) first last)
    (hfirst : first.Fresh) (hw : w ∈ last.extraWords.items) :
    ∃ b i quot kind, EntersAt Γ first last b i quot kind ∧ BuiltFrom Γ quot w := by
  induction hsteps with
  | refl =>
    rw [hfirst.extraWords] at hw
    cases hw
  | @tail g g' hsteps hstep ih =>
    have hold : w ∈ g.extraWords.items →
        ∃ b i quot kind, EntersAt Γ first g' b i quot kind ∧ BuiltFrom Γ quot w := by
      intro hold
      obtain ⟨b, i, quot, kind, henters, hbuilt⟩ := ih hold
      exact ⟨b, i, quot, kind, henters.tail hstep, hbuilt⟩
    obtain ⟨hwords, -⟩ | ⟨cur, quot, kind, henters⟩ := hstep.counts
    · exact hold (hwords ▸ hw)
    · obtain ⟨w', hbuilt, -, -, hwords, -⟩ := henters.leads
      rw [hwords] at hw
      obtain hw | hw := List.mem_append.mp hw
      · exact hold hw
      · obtain rfl := List.mem_singleton.mp hw
        exact ⟨cur, _, quot, kind, ⟨g, g', hsteps, henters, .refl, rfl⟩, hbuilt⟩

end Steps

/-! ## Words -/

section Words

variable {Γ : Env} {fuel : Nat} {opsText : Word → String} {decls : List Decl} {session : Session}
  {lws : List LoweredWord} {lw lw' : LoweredWord} {first last : Gen} {b : BlockId} {i : Nat}
  {quot : Range} {kind : OpKind} {w : Word} {name : Atom}

theorem yields_finish : Yields (finish Γ) := by
  unfold finish
  exact .after fun _ => .after fun _ => .after fun _ => .after fun _ => yields_word

theorem yields_wordBody {compile : Compile} {decl : Decl} : Yields (wordBody Γ compile decl) := by
  have hend : ∀ cur, Yields (endWord Γ compile cur decl) := by
    intro cur
    unfold endWord
    refine .after fun _ => .after fun _ => .after fun _ => ⟨fun g w g' h => ?_⟩
    obtain ⟨w', t, hfinish, h⟩ := bind_run h
    obtain ⟨-, h⟩ := check_seq h
    cases h
    exact yields_finish.run _ _ _ hfinish
  unfold wordBody
  refine .after fun _ => ?_
  dsimp only
  split
  all_goals exact .after fun _ => .after fun _ => .after fun _ => .cond yields_finish (hend _)

structure LowersTo (Γ : Env) (w : Word) (first last : Gen) : Prop where
  fresh : first.Fresh
  steps : Relation.ReflTransGen (Gen.CodeStep Γ 0) first last
  word : w = last.word

theorem LoweredWord.Run.lowers (h : lw.Run Γ fuel first last) : LowersTo Γ lw.word first last := by
  obtain ⟨session, sig, name, rfl⟩ := h.blank
  have hleads : Gen.Leads Γ 0 _ last := Along.run _ _ _ h.run
  exact ⟨fresh_blank .., (hleads (Nat.zero_le _)).2, yields_wordBody.run _ _ _ h.run⟩

theorem QuoteRun.lowers (h : QuoteRun Γ quot w first last) : LowersTo Γ w first last := by
  cases h with
  | mk parse run =>
    obtain ⟨hword, -, hleads⟩ := quoteBody_word run
    exact ⟨fresh_blank .., (hleads (Nat.zero_le _)).2, hword⟩

theorem EmittedRun.lowers (h : EmittedRun Γ fuel lws w first last) : LowersTo Γ w first last := by
  cases h with
  | declared _ run => exact run.lowers
  | quotation _ _ _ run _ => exact run.lowers

theorem run_of_lowerDecls (h : lowerDecls Γ fuel opsText decls session = .ok lws)
    (hlw : lw ∈ lws) : ∃ first last, lw.Run Γ fuel first last := by
  obtain ⟨session, sig, out, hbuild, hword, hextra⟩ := lowerDecls_mem h hlw
  obtain ⟨name, -, hbuild⟩ := bind_eq_ok.mp hbuild
  obtain ⟨⟨w, last⟩, hrun, hbuild⟩ := bind_eq_ok.mp hbuild
  cases hbuild
  exact ⟨_, last, ⟨session, sig, name, rfl⟩, hword ▸ hrun, hextra⟩

/-- The quotation words of one declared word have different names, and the first name is the
same for all. -/
theorem LoweredWord.Run.counted (h : lw.Run Γ fuel first last) :
    ∀ n e, lw.extraWords.items[n]? = some e → e.name = quotAtom n := by
  rw [h.extraWords]
  have hlowers := h.lowers
  exact ((extends_of_steps hlowers.steps).counted hlowers.fresh.counted).names

theorem LoweredWord.Run.names_nodup (h : lw.Run Γ fuel first last) :
    (lw.extraWords.items.map Word.name).Nodup := by
  have hroom : lw.extraWords.items.length ≤ 16 := lw.extraWords.bounded
  have hnames : lw.extraWords.items.map Word.name =
      (List.range lw.extraWords.items.length).map quotAtom := by
    refine List.ext_getElem (by rw [List.length_map, List.length_map, List.length_range]) ?_
    intro n hn hn'
    rw [List.length_map] at hn
    rw [List.getElem_map, List.getElem_map, List.getElem_range]
    exact h.counted n _ (List.getElem?_eq_getElem hn)
  rw [hnames]
  refine List.Nodup.map_on (fun i hi j hj => ?_) List.nodup_range
  rw [List.mem_range] at hi hj
  exact quotAtom_inj i (by omega) j (by omega)

theorem enters_iff_words (hrun : ∃ first last, lw.Run Γ fuel first last) :
    lw.Enters Γ fuel ↔ ∃ e, lw.extraWords.items[0]? = some e := by
  constructor
  · rintro ⟨first, last, b, i, quot, kind, hrun, henters⟩
    obtain ⟨-, -, n, e, -, he, -⟩ := henters.found hrun.lowers.fresh
    rw [← hrun.extraWords] at he
    have hlt := (List.getElem?_eq_some_iff.mp he).1
    exact ⟨_, List.getElem?_eq_getElem (by omega : 0 < lw.extraWords.items.length)⟩
  · rintro ⟨e, he⟩
    obtain ⟨first, last, hrun⟩ := hrun
    have hmem := List.mem_of_getElem? he
    rw [hrun.extraWords] at hmem
    obtain ⟨b, i, quot, kind, henters, -⟩ :=
      word_entered hrun.lowers.steps hrun.lowers.fresh hmem
    exact ⟨first, last, b, i, quot, kind, hrun, henters⟩

theorem quoteNames_disjoint_iff (hlw : ∃ first last, lw.Run Γ fuel first last)
    (hlw' : ∃ first last, lw'.Run Γ fuel first last) :
    List.Disjoint (lw.extraWords.items.map Word.name) (lw'.extraWords.items.map Word.name) ↔
      ¬(lw.Enters Γ fuel ∧ lw'.Enters Γ fuel) := by
  rw [enters_iff_words hlw, enters_iff_words hlw']
  obtain ⟨first, last, hrun⟩ := hlw
  obtain ⟨first', last', hrun'⟩ := hlw'
  constructor
  · rintro hdisjoint ⟨⟨e, he⟩, e', he'⟩
    have hname : e.name = e'.name := (hrun.counted 0 e he).trans (hrun'.counted 0 e' he').symm
    exact hdisjoint (List.mem_map_of_mem (List.mem_of_getElem? he))
      (hname ▸ List.mem_map_of_mem (List.mem_of_getElem? he'))
  · intro hone name hmem hmem'
    have hfirst : ∀ {xs : List Word} {name : Atom}, name ∈ xs.map Word.name →
        ∃ e, xs[0]? = some e := by
      intro xs name hmem
      cases xs with
      | nil => cases hmem
      | cons e xs => exact ⟨e, rfl⟩
    exact hone ⟨hfirst hmem, hfirst hmem'⟩

theorem quoteNames_nodup_iff (h : lowerDecls Γ fuel opsText decls session = .ok lws) :
    ((quoteWords lws).map Word.name).Nodup ↔ OneEnters Γ fuel lws := by
  have hrun : ∀ lw ∈ lws, ∃ first last, lw.Run Γ fuel first last :=
    fun lw hlw => run_of_lowerDecls h hlw
  unfold quoteWords OneEnters
  rw [List.map_flatMap, List.nodup_flatMap]
  have hpairs : lws.Pairwise (fun lw lw' => List.Disjoint (lw.extraWords.items.map Word.name)
      (lw'.extraWords.items.map Word.name)) ↔
      lws.Pairwise fun lw lw' => ¬(lw.Enters Γ fuel ∧ lw'.Enters Γ fuel) :=
    List.Pairwise.iff_of_mem fun hlw hlw' => quoteNames_disjoint_iff (hrun _ hlw) (hrun _ hlw')
  refine ⟨fun hnodup => hpairs.mp hnodup.2, fun hone => ⟨fun lw hlw => ?_, hpairs.mpr hone⟩⟩
  obtain ⟨first, last, hrun⟩ := hrun lw hlw
  exact hrun.names_nodup

theorem filter_quoteName {ws : List Word} (hnodup : (ws.map Word.name).Nodup) (hw : w ∈ ws) :
    ws.filter (fun e => e.name == w.name) = [w] := by
  induction ws with
  | nil => cases hw
  | cons e ws ih =>
    obtain ⟨hnew, hnodup⟩ := List.nodup_cons.mp hnodup
    obtain rfl | hw := List.mem_cons.mp hw
    · rw [List.filter_cons_of_pos (by simp), List.cons_inj_right, List.filter_eq_nil_iff]
      intro e he heq
      exact hnew (eq_of_beq heq ▸ List.mem_map_of_mem he)
    · rw [List.filter_cons_of_neg, ih hnodup hw]
      intro heq
      exact hnew (eq_of_beq heq ▸ List.mem_map_of_mem hw)

end Words

/-- In an accepted module whose quotations enter none in turn, every quotation that is entered is
reached exactly when at most one declared word enters quotations. -/
theorem quotes_reached_iff {Γ : Env} {fuel : Nat} {opsText : Word → String} {decls : List Decl}
    {session : Session} {lws : List LoweredWord}
    (h : lowerDecls Γ fuel opsText decls session = .ok lws)
    (hflat : ∀ lw ∈ lws, lw.Flat Γ fuel) : QuotesReached Γ fuel lws ↔ OneEnters Γ fuel lws := by
  refine ⟨fun hreached => (quoteNames_nodup_iff h).mp hreached.distinct, fun hone => ?_⟩
  have hdistinct := (quoteNames_nodup_iff h).mpr hone
  refine ⟨?_, hdistinct, ?_, ?_⟩
  · intro lw hlw w hw
    obtain ⟨first, last, hrun⟩ := run_of_lowerDecls h hlw
    obtain rfl | hw := hw
    · exact ⟨first, last, .declared hlw hrun⟩
    · have hlowers := hrun.lowers
      obtain ⟨b, i, quot, kind, henters, first', last', hquote⟩ :=
        word_entered hlowers.steps hlowers.fresh (hrun.extraWords ▸ hw)
      exact ⟨first', last', .quotation hlw hrun henters hquote hw⟩
  · intro w first last hemitted b i quot kind henters
    have hlowers := hemitted.lowers
    obtain ⟨hop, hcounted, n, e, hcallee, he, hbuilt⟩ := henters.found hlowers.fresh
    refine ⟨by rw [hlowers.word]; exact hop, quotAtom n, e, hcallee, ?_, hbuilt⟩
    cases hemitted with
    | @declared lw _ _ mem run =>
      rw [← run.extraWords] at he
      rw [← run.counted n e he]
      exact filter_quoteName hdistinct (List.mem_flatMap.mpr ⟨lw, mem, List.mem_of_getElem? he⟩)
    | quotation mem word entered run emitted =>
      exact absurd henters (hflat _ mem word entered run emitted _ _ _ _)
  · intro w first last hemitted b i kind name hop hcallee hunknown
    have hlowers := hemitted.lowers
    rw [hlowers.word] at hop
    obtain henters | hknown := op_enters hlowers.steps hlowers.fresh hop
    · exact henters
    · exact absurd (hknown name hcallee) hunknown

/-! ## One quotation and a nested one -/

/-- `[ ( -- ) body ] call` -/
def quoteTokens (body : List (TokenKind × String)) : List (TokenKind × String) :=
  [(.lBracket, "["), (.lParen, "("), (.other, "--"), (.rParen, ")")] ++ body ++
    [(.rBracket, "]"), (.ident, "call")]

def quoteEnv (body : List (TokenKind × String)) : Env :=
  { plainBuild.env (plainModule "Main" "main" [] body .none) with
    parseWordSig := fun _ => some ⟨.new, .new⟩ }

/-- `: main ( -- ) body ;` -/
def quoteDecl (body : List (TokenKind × String)) : Decl where
  name := "main"
  sig := some ⟨.new, .new⟩
  isInterrupt := false
  body := some ⟨3, 3 + body.length⟩
  requires := none
  ensures := none
  capSet := none
  effectBits := 0
  hasExplicitPerforms := false

def lowerQuotes (body : List (TokenKind × String)) : Except TcError (List LoweredWord) :=
  lowerDecls (quoteEnv body) 4 (fun _ => "") [quoteDecl body] (forecastSession .off)

theorem flat_of_plain {Γ : Env} {fuel : Nat} {lw : LoweredWord}
    (h : ∀ w ∈ lw.extraWords.items, ∀ b ∈ w.blocks.items, ∀ op ∈ b.ops.items,
      callee op.kind = none) : lw.Flat Γ fuel := by
  intro first last b i quot kind _ _ w first' last' hquote hw b' i' quot' kind' henters
  have hlowers := hquote.lowers
  obtain ⟨hop, -, n, e, hcallee, -⟩ := henters.found hlowers.fresh
  rw [Gen.opsAt, ← hlowers.word] at hop
  cases hblock : w.blocks.get? b'.idx with
  | none =>
    rw [hblock] at hop
    cases hop
  | some blk =>
    rw [hblock] at hop
    obtain ⟨op, hmem, rfl⟩ := List.mem_map.mp (List.mem_of_getElem? hop)
    rw [h w hw blk (List.mem_of_getElem? hblock) op hmem] at hcallee
    cases hcallee

/-- One quotation that is called, and the word of its code. -/
theorem quotation_reached : ∃ lws, lowerQuotes (quoteTokens []) = .ok lws ∧
    (QuotesReached (quoteEnv (quoteTokens [])) 4 lws ↔
      OneEnters (quoteEnv (quoteTokens [])) 4 lws) := by
  have hplain : (lowerQuotes (quoteTokens [])).toOption.map (fun lws => lws.all fun lw =>
      lw.extraWords.items.all fun w => w.blocks.items.all fun b => b.ops.items.all fun op =>
        decide (callee op.kind = none)) = some true := by decide +kernel
  cases hlower : lowerQuotes (quoteTokens []) with
  | error e =>
    rw [hlower] at hplain
    cases hplain
  | ok lws =>
    rw [hlower] at hplain
    have hplain : ∀ lw ∈ lws, ∀ w ∈ lw.extraWords.items, ∀ b ∈ w.blocks.items,
        ∀ op ∈ b.ops.items, callee op.kind = none := by
      simpa using Option.some.inj hplain
    exact ⟨lws, rfl, quotes_reached_iff hlower fun lw hlw => flat_of_plain (hplain lw hlw)⟩

/-- In `[ ( -- ) [ ( -- ) ] call [ ( -- ) ] call ] call` the inner quotations are numbered from
zero once more.  One call is a call of the outer quotation, the other a call of nothing. -/
theorem nested_quotation_lost : ¬∀ (Γ : Env) (fuel : Nat) (opsText : Word → String)
    (decls : List Decl) (session : Session) (lws : List LoweredWord),
    lowerDecls Γ fuel opsText decls session = .ok lws → QuotesReached Γ fuel lws := by
  intro hclaim
  have hcode : (lowerQuotes (quoteTokens (quoteTokens [] ++ quoteTokens []))).toOption.map
      (fun lws => lws.map fun lw => lw.extraWords.items.map fun w =>
        (w.name, (codeAt w ⟨0⟩).map callee)) =
      some [[(quotAtom 0, [some (quotAtom 0), some (quotAtom 1), none])]] := by decide +kernel
  cases hlower : lowerQuotes (quoteTokens (quoteTokens [] ++ quoteTokens [])) with
  | error e =>
    rw [hlower] at hcode
    cases hcode
  | ok lws =>
    have hreached := hclaim _ _ _ _ _ lws hlower
    rw [hlower] at hcode
    obtain ⟨lw, rfl, hwords⟩ := List.map_eq_singleton_iff.mp (Option.some.inj hcode)
    obtain ⟨w, hitems, hw⟩ := List.map_eq_singleton_iff.mp hwords
    obtain ⟨hname, hcallees⟩ := Prod.mk.inj hw
    have hmem : w ∈ lw.extraWords.items := by
      rw [hitems]
      exact List.mem_singleton_self w
    obtain ⟨first, last, hrun⟩ := hreached.lowered lw (List.mem_singleton_self lw) w (.inr hmem)
    have hcallee : ((codeAt w ⟨0⟩).map callee)[1]? = some (some (quotAtom 1)) := by
      rw [hcallees]
      rfl
    obtain ⟨kind, hkind, hcallee⟩ := Option.map_eq_some_iff.mp (List.getElem?_map ▸ hcallee)
    have hunknown : ¬(quoteEnv (quoteTokens (quoteTokens [] ++ quoteTokens []))).Declares
        (quotAtom 1) := by
      rintro (⟨entry, hentry⟩ | hsend | hrecv)
      · cases hentry
      · exact absurd hsend (by decide +kernel)
      · exact absurd hrecv (by decide +kernel)
    obtain ⟨quot, henters⟩ := hreached.covered hrun hkind hcallee hunknown
    obtain ⟨-, name, e, hcallee', hfilter, -⟩ := hreached.reached hrun henters
    obtain rfl : quotAtom 1 = name := Option.some.inj (hcallee.symm.trans hcallee')
    have he : e ∈ (quoteWords [lw]).filter fun e => e.name == quotAtom 1 := by
      rw [hfilter]
      exact List.mem_singleton_self e
    obtain ⟨he, heq⟩ := List.mem_filter.mp he
    have hwords : quoteWords [lw] = [w] := by
      rw [quoteWords, List.flatMap_singleton, hitems]
    rw [hwords] at he
    obtain rfl := List.mem_singleton.mp he
    have hnames : quotAtom 0 = quotAtom 1 := hname.symm.trans (eq_of_beq heq)
    exact absurd (quotAtom_inj 0 (by decide) 1 (by decide) hnames) (by decide)

end Tyu.Irgen

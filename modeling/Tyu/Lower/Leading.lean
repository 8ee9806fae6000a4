import Tyu.Lower.CodeSteps

/-! # Lowering is a sequence of code steps -/

namespace Tyu.Irgen

open Lib Obl

/-! ## Control -/

section Control

variable {Γ : Env} {nb : Nat} {compile : Compile}
  [hcompile : ∀ cur r b, Leading Γ nb (compile cur r b)] {cur : BlockId} {lex : Cursor}
  {span : Span} {name : String}
  {e e' : TcError} {entry : WordEntry}

instance : Leading Γ nb (compileIf Γ compile cur span) := by
  unfold compileIf
  repeat refine .seq inferInstance fun _ => ?_
  refine leading_newBlock fun thenBlk hthen => leading_newBlock fun elseBlk helse => ?_
  refine .seq inferInstance fun _ => .seq inferInstance fun _ => ?_
  refine .seq (leading_brIf hthen helse) fun _ => ?_
  repeat refine .seq inferInstance fun _ => ?_
  refine leading_newBlock fun joinBlk hjoin => .seq inferInstance fun _ => ?_
  exact .seq (leading_br hjoin) fun _ => .seq (leading_br hjoin) fun _ => inferInstance

theorem leading_closeLoop {acc : StackBound} {base : List Value} {header bodyEnd after : BlockId}
    (hheader : nb ≤ header.idx) :
    Leading Γ nb (closeLoop Γ acc base header bodyEnd after e e' span) := by
  unfold closeLoop
  repeat refine .seq inferInstance fun _ => ?_
  exact .seq (leading_br hheader) fun _ => inferInstance

instance : Leading Γ nb (compileWhile Γ compile cur span) := by
  unfold compileWhile
  repeat refine .seq inferInstance fun _ => ?_
  refine leading_newBlock fun header hheader => .seq inferInstance fun _ => ?_
  refine .seq (leading_br hheader) fun _ => ?_
  repeat refine .seq inferInstance fun _ => ?_
  refine leading_newBlock fun bodyBlk hbody => leading_newBlock fun afterBlk hafter => ?_
  refine .seq (leading_brIf hbody hafter) fun _ => ?_
  repeat refine .seq inferInstance fun _ => ?_
  exact .seq (leading_closeLoop hheader) fun _ => inferInstance

instance : Leading Γ nb (compileLoop Γ compile cur span) := by
  unfold compileLoop
  repeat refine .seq inferInstance fun _ => ?_
  refine leading_newBlock fun checkBlk hcheck => .seq inferInstance fun _ => ?_
  refine .seq (leading_br hcheck) fun _ => ?_
  refine leading_newBlock fun bodyBlk hbody => leading_newBlock fun afterBlk hafter => ?_
  refine .seq inferInstance fun _ => .seq (leading_brIf hbody hafter) fun _ => ?_
  repeat refine .seq inferInstance fun _ => ?_
  exact .seq (leading_closeLoop hcheck) fun _ => inferInstance

theorem leading_endScope {α : Type} {scope : Nat} {m : GenM α} (hm : Leading Γ nb m) :
    Leading Γ nb (do closeScope scope; invalidateScopeLocals scope; m) := by
  refine ⟨fun g a g' h => ?_⟩
  obtain ⟨_, t, hclose, h⟩ := bind_run h
  obtain ⟨_, _, hget, hclose⟩ := bind_run hclose
  cases hget
  obtain ⟨hclosed, hsame⟩ := check_run hclose
  obtain ⟨_, t', hends, h⟩ := bind_run h
  rw [hsame] at hends
  have hfirst : Gen.Leads Γ nb g t' := .single (by cases hends; exact Nat.le_refl _)
    (.endScope hclosed hends)
  exact IsTrans.trans _ _ _ hfirst (hm.run _ _ _ h)

instance {isMut allow : Bool} :
    Leading Γ nb (compileScopedBlock Γ compile cur lex isMut allow span) := by
  unfold compileScopedBlock
  repeat first
    | exact leading_endScope inferInstance
    | refine .seq inferInstance fun _ => ?_

theorem lirAtom_run {text : String} {g g' : Gen} {a : Atom} (h : lirAtom text g = .ok (a, g')) :
    a.text = text ∧ g' = g := by
  obtain ⟨c, hc, h⟩ := bind_eq_ok.mp h
  rw [expect_eq_ok] at hc
  cases h
  unfold Atom.new at hc
  split at hc
  · cases hc
    exact ⟨rfl, rfl⟩
  · cases hc

theorem leading_emitCall (hentry : lookup Γ.words name = some entry) :
    Leading Γ nb (emitCall Γ cur name entry span) := by
  unfold emitCall
  refine .seq inferInstance fun _ => .seq inferInstance fun sig => ?_
  refine .seq (along_note fun _ => rfl) fun _ => ⟨fun g u g' h => ?_⟩
  obtain ⟨atom, t, hatom, hemit⟩ := bind_run h
  obtain ⟨hname, rfl⟩ := lirAtom_run hatom
  refine (leading_call (.inl ⟨entry, ?_⟩)).run _ _ _ hemit
  rw [hname]
  exact hentry

theorem builtinOp_plain {kind : OpKind} (h : builtinOp name = some kind) : plainOp kind = true := by
  unfold builtinOp at h
  split at h <;> cases h <;> rfl

instance : Leading Γ nb (compileEnvWord Γ cur name span) := by
  unfold compileEnvWord
  refine ⟨fun g b g' h => ?_⟩
  obtain ⟨entry, hentry, h⟩ := need_seq h
  refine leads_of_run ?_ h
  repeat refine .seq inferInstance fun _ => ?_
  have hlast : Leading Γ nb (match builtinOp name with
      | some kind => emitOp Γ cur kind span
      | none => emitCall Γ cur name entry span) := by
    split
    · next kind hkind =>
      have : OpKind.Plain kind := ⟨builtinOp_plain hkind⟩
      infer_instance
    · exact leading_emitCall hentry
  dsimp only
  split
  · exact .seq inferInstance fun _ => hlast
  · exact hlast

end Control

/-! ## Quotations -/

section Quotations

variable {Γ : Env} {nb : Nat} {compile : Compile} {cur : BlockId} {span : Span} {g g' : Gen}

/-- The word of a quotation is built by a generator of its own, under the next name; code and
locals stay. -/
theorem buildQuoteWord_run {quot : Range} {inherit : Bool} {out : Atom × QuoteSig × StackBound}
    (h : buildQuoteWord Γ compile quot inherit g = .ok (out, g')) :
    ∃ parsed w gi, parseQuoteSig Γ quot = .ok parsed ∧
      quoteBody Γ compile parsed (if inherit then g.ctx.lockFrame else none)
        (.blank Γ (Session.forQuote g.session) g.arenaLen parsed.sig
          ((Atom.new (quoteName g.quoteId)).getD AT_QUOT)) = .ok (w, gi) ∧
      out = ((Atom.new (quoteName g.quoteId)).getD AT_QUOT, parsed, w.bound) ∧
      g'.extraWords.items = g.extraWords.items ++ [w] ∧
      g'.quoteId = (g.quoteId + 1) % 2 ^ 32 ∧ g'.word = g.word ∧ g'.locals = g.locals ∧
      g'.sig = g.sig := by
  obtain ⟨parsed, hparsed, h⟩ := lift_seq h
  obtain ⟨qname, t₁, hname, h⟩ := bind_run h
  cases hname
  obtain ⟨_, _, hget, h⟩ := bind_run h
  cases hget
  obtain ⟨built, hbuilt, h⟩ := lift_seq h
  obtain ⟨words, hwords, h⟩ := need_seq h
  obtain ⟨_, t₂, hmodify, h⟩ := bind_run h
  cases hmodify
  cases h
  exact ⟨parsed, built.1, built.2, hparsed, hbuilt, rfl, FixedVec.push_eq_some.mp hwords, rfl, rfl,
    rfl, rfl⟩

theorem Gen.Enters.run {quot : Range} {kind : OpKind} (h : Gen.Enters Γ cur quot kind g g') :
    ∃ fuel parsed lock session arenaLen w gi, g.stack.head? = some (.quot quot) ∧
      parseQuoteSig Γ quot = .ok parsed ∧
      quoteBody Γ (compileSpan Γ fuel) parsed lock (.blank Γ session arenaLen parsed.sig
        ((Atom.new (quoteName g.quoteId)).getD AT_QUOT)) = .ok (w, gi) ∧
      callee kind = some ((Atom.new (quoteName g.quoteId)).getD AT_QUOT) ∧
      g'.extraWords.items = g.extraWords.items ++ [w] ∧
      g'.quoteId = (g.quoteId + 1) % 2 ^ 32 ∧
      ∃ t span, g.word.blocks = t.word.blocks ∧ t.locals = g.locals ∧ t.sig = g.sig ∧
        t.word.name = g.word.name ∧ emitOp Γ cur kind span t = .ok ((), g') := by
  obtain @⟨fuel, inherit, out, g₁, t, t', span, htop, hpopped, hbuilt, htyped, hnamed, hemit⟩ := h
  obtain ⟨parsed, w, gi, hparsed, hbody, rfl, hwords, hid, hword, hlocals, hsig⟩ :=
    buildQuoteWord_run hbuilt
  obtain ⟨-, -, -, hextra, hquote, -⟩ := emitOp_blocks hemit
  rw [hpopped.quoteId] at hbody hnamed hid
  refine ⟨fuel, parsed, _, _, _, w, gi, htop, hparsed, hbody, hnamed, ?_, ?_, t', span, ?_, ?_, ?_,
    ?_, hemit⟩
  · rw [hextra, htyped.extraWords, hwords, hpopped.extraWords]
  · rw [hquote, htyped.quoteId, hid]
  · rw [htyped.blocks, hword, hpopped.blocks]
  · rw [htyped.locals, hlocals, hpopped.locals]
  · rw [htyped.sig, hsig, hpopped.sig]
  · rw [htyped.name, hword, hpopped.name]

theorem Gen.CodeStep.same_word (h : Gen.CodeStep Γ nb g g') :
    g'.word.name = g.word.name ∧ g'.sig = g.sig := by
  cases h with
  | note same => exact ⟨same.name, same.sig⟩
  | block run =>
    obtain ⟨-, -, -, hsig, -, -, hname⟩ := addBlock_run run
    exact ⟨hname, hsig⟩
  | plain _ run | jump _ _ run | call _ run | param _ run | temp _ run =>
    obtain ⟨-, -, hsig, -, -, hname⟩ := emitOp_blocks run
    exact ⟨hname, hsig⟩
  | bind _ _ added run =>
    obtain ⟨-, -, hsig, -, -, hname⟩ := emitOp_blocks run
    exact ⟨hname.trans added.name, hsig.trans added.sig⟩
  | use _ _ spent run =>
    obtain ⟨-, -, hsig, -, -, hname⟩ := emitOp_blocks run
    exact ⟨hname.trans spent.name, hsig.trans spent.sig⟩
  | endScope _ run =>
    cases run
    exact ⟨rfl, rfl⟩
  | enter run =>
    obtain ⟨-, -, -, -, -, -, -, -, -, -, -, -, -, t, span, -, -, hsig', hname', hemit⟩ := run.run
    obtain ⟨-, -, hsig, -, -, hname⟩ := emitOp_blocks hemit
    exact ⟨hname.trans hname', hsig.trans hsig'⟩

theorem Gen.CodeStep.blocks_le (h : Gen.CodeStep Γ nb g g') :
    g.word.blocks.len ≤ g'.word.blocks.len := by
  cases h with
  | note same => rw [same.blocks]
  | block run =>
    rw [addBlock_len run]
    exact Nat.le_succ _
  | plain _ run | jump _ _ run | call _ run | param _ run | temp _ run =>
    exact (emitOp_blocks run).1.ge
  | bind _ _ same run | use _ _ same run => rw [(emitOp_blocks run).1, same.blocks]
  | endScope _ run =>
    cases run
    exact Nat.le_refl _
  | enter run =>
    obtain ⟨-, -, -, -, -, -, -, -, -, -, -, -, -, t, span, hblocks, -, -, -, hemit⟩ := run.run
    rw [(emitOp_blocks hemit).1, hblocks]

theorem Gen.Leads.same_word (h : Gen.Leads Γ nb g g') (hnb : nb ≤ g.word.blocks.len) :
    g'.word.name = g.word.name ∧ g'.sig = g.sig := by
  have hsteps := (h hnb).2
  clear h
  induction hsteps with
  | refl => exact ⟨rfl, rfl⟩
  | tail _ hstep ih =>
    obtain ⟨hname, hsig⟩ := hstep.same_word
    exact ⟨hname.trans ih.1, hsig.trans ih.2⟩

instance : Leading Γ nb (openWord Γ) := by
  unfold openWord
  refine .seq inferInstance fun _ => .seq inferInstance fun sig => ?_
  exact .seq (along_note fun _ => rfl) fun _ => inferInstance

class Yields (m : GenM Word) : Prop where
  run : ∀ g w g', m g = .ok (w, g') → w = g'.word

theorem yields_word : Yields (do let g ← get; pure g.word) := by
  refine ⟨fun g w g' h => ?_⟩
  cases h
  rfl

theorem Yields.after {α : Type} {m : GenM α} {f : α → GenM Word} (hf : ∀ a, Yields (f a)) :
    Yields (m >>= f) := by
  refine ⟨fun g w g' h => ?_⟩
  obtain ⟨a, t, -, h⟩ := bind_run h
  exact (hf a).run _ _ _ h

theorem Yields.cond {c : Prop} [Decidable c] {m n : GenM Word} (hm : Yields m) (hn : Yields n) :
    Yields (if c then m else n) := by
  split
  · exact hm
  · exact hn

section Compiled

variable [hcompile : ∀ nb cur r b, Leading Γ nb (compile cur r b)]

instance {parsed : QuoteSig} {lock : Option ContextFrame} :
    Leading Γ nb (quoteBody Γ compile parsed lock) := by
  unfold quoteBody
  have hbound : Noting (modify fun g : Gen => { g with word := { g.word with bound := g.acc } }) :=
    noting_modify fun _ => rfl
  refine .seq inferInstance fun _ => ?_
  dsimp only
  split
  all_goals
    repeat first
      | refine .seq inferInstance fun _ => ?_
      | refine .cond ?_ ?_
      | infer_instance

omit hcompile in
theorem yields_quoteBody {parsed : QuoteSig} {lock : Option ContextFrame} :
    Yields (quoteBody Γ compile parsed lock) := by
  unfold quoteBody
  refine .after fun _ => ?_
  dsimp only
  split
  all_goals
    repeat first
      | exact yields_word
      | refine .cond ?_ ?_
      | refine .after fun _ => ?_

theorem quoteBody_word {parsed : QuoteSig} {lock : Option ContextFrame} {w : Word}
    (h : quoteBody Γ compile parsed lock g = .ok (w, g')) :
    w = g'.word ∧ w.name = g.word.name ∧ Gen.Leads Γ 0 g g' := by
  have hleads : Gen.Leads Γ 0 g g' := Along.run _ _ _ h
  have hword := yields_quoteBody.run _ _ _ h
  exact ⟨hword, hword ▸ (hleads.same_word (Nat.zero_le _)).1, hleads⟩

end Compiled

theorem popped_quot {e : TcError} {v : Value} {quot : Range} (h : popOr e g = .ok (v, g'))
    (hv : v.quot? = some quot) : g.stack.head? = some (.quot quot) ∧ g.SameCode g' := by
  have hsame : g.SameCode g' := Along.run _ _ _ h
  obtain ⟨hstack, -⟩ := popOr_run (⟨0⟩ : BlockId) h
  rw [hstack]
  cases v <;> cases hv
  exact ⟨rfl, hsame⟩

theorem compileCallQuote_enters {fuel : Nat} {cur' : BlockId}
    (h : compileCallQuote Γ (compileSpan Γ fuel) cur span g = .ok (cur', g')) :
    ∃ quot kind, Gen.Enters Γ cur quot kind g g' := by
  obtain ⟨quot, t, hquot, h⟩ := bind_run h
  obtain ⟨v, t₀, hpop, hquot⟩ := bind_run hquot
  obtain ⟨_, hv, hquot⟩ := bind_eq_ok.mp hquot
  cases hquot
  obtain ⟨htop, hpopped⟩ := popped_quot hpop (expect_eq_ok.mp hv)
  obtain ⟨_, t₁, haccount, h⟩ := bind_run h
  have haccount : Gen.SameCode t t₁ := Along.run _ _ _ haccount
  obtain ⟨built, t₂, hbuilt, h⟩ := bind_run h
  dsimp only at h
  obtain ⟨_, _, hget, h⟩ := bind_run h
  cases hget
  obtain ⟨-, h⟩ := check_seq h
  obtain ⟨-, h⟩ := check_seq h
  obtain ⟨_, t₃, hbound, h⟩ := bind_run h
  obtain ⟨_, t₄, happly, h⟩ := bind_run h
  obtain ⟨callSig, t₅, hsig, h⟩ := bind_run h
  obtain ⟨_, t₆, hemit, h⟩ := bind_run h
  cases h
  have htyped : Gen.SameCode t₂ t₅ := IsTrans.trans _ _ _ (Along.run _ _ _ hbound)
    (IsTrans.trans _ _ _ (Along.run _ _ _ happly) (Along.run _ _ _ hsig))
  exact ⟨_, _, .intro htop (IsTrans.trans _ _ _ hpopped haccount) hbuilt htyped rfl hemit⟩

theorem compileTaskSpawn_enters {fuel : Nat} {cur' : BlockId}
    (h : compileTaskSpawn Γ (compileSpan Γ fuel) cur span g = .ok (cur', g')) :
    ∃ quot kind, Gen.Enters Γ cur quot kind g g' := by
  obtain ⟨v, t, hpop, h⟩ := bind_run h
  obtain ⟨_, _, hget, h⟩ := bind_run h
  cases hget
  obtain ⟨-, h⟩ := check_seq h
  obtain ⟨quot, hv, h⟩ := need_seq h
  obtain ⟨htop, hpopped⟩ := popped_quot hpop hv
  obtain ⟨_, t₁, haccount, h⟩ := bind_run h
  have haccount : Gen.SameCode t t₁ := Along.run _ _ _ haccount
  obtain ⟨built, t₂, hbuilt, h⟩ := bind_run h
  obtain ⟨-, h⟩ := check_seq h
  obtain ⟨tid, t₃, htid, h⟩ := bind_run h
  obtain ⟨_, t₄, hpush, h⟩ := bind_run h
  obtain ⟨_, t₅, hemit, h⟩ := bind_run h
  cases h
  have htyped : Gen.SameCode t₂ t₄ :=
    IsTrans.trans _ _ _ (Along.run _ _ _ htid) (Along.run _ _ _ hpush)
  exact ⟨_, _, .intro htop (IsTrans.trans _ _ _ hpopped haccount) hbuilt htyped rfl hemit⟩

theorem leads_enters {quot : Range} {kind : OpKind} (h : Gen.Enters Γ cur quot kind g g') :
    Gen.Leads Γ nb g g' := by
  have hstep : Gen.CodeStep Γ nb g g' := .enter h
  exact .single hstep.blocks_le hstep

instance {fuel : Nat} : Leading Γ nb (compileCallQuote Γ (compileSpan Γ fuel) cur span) := by
  refine ⟨fun g a g' h => ?_⟩
  obtain ⟨quot, kind, henters⟩ := compileCallQuote_enters h
  exact leads_enters henters

instance {fuel : Nat} : Leading Γ nb (compileTaskSpawn Γ (compileSpan Γ fuel) cur span) := by
  refine ⟨fun g a g' h => ?_⟩
  obtain ⟨quot, kind, henters⟩ := compileTaskSpawn_enters h
  exact leads_enters henters

end Quotations

instance controls_leads {Γ : Env} {nb fuel : Nat}
    [hcompile : ∀ cur r b, Leading Γ nb (compileSpan Γ fuel cur r b)] :
    Controls Γ (compileSpan Γ fuel) (Gen.Leads Γ nb) where
  cond _ _ := inferInstance
  loop _ _ := inferInstance
  whileLoop _ _ := inferInstance
  lock _ _ := inferInstance
  scopedBlock _ _ _ _ _ := inferInstance
  word _ _ _ := inferInstance
  callQuote _ _ := inferInstance
  taskSpawn _ _ := inferInstance
  taskRun _ := inferInstance

instance leading_compileSpan {Γ : Env} {nb fuel : Nat} {cur : BlockId} {r : Range} {allow : Bool} :
    Leading Γ nb (compileSpan Γ fuel cur r allow) :=
  along_compileSpan (fun _ _ => inferInstance) fuel cur r allow

end Tyu.Irgen

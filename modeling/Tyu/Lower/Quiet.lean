import Tyu.Lower.Walk

/-! # What lowering leaves alone -/

namespace Tyu.Irgen

open Lib Obl

set_option synthInstance.maxSize 1000

/-- The generator stands in a clause: no suspension and no divergence is allowed. -/
structure Gen.InClause (g : Gen) : Prop where
  depth : 0 < g.contractPredDepth
  suspend : g.ctx.forbidding (.fromBits EffectSet.SUSPEND) = true
  diverge : g.ctx.ambientForbids.contains EffectSet.DIVERGE = true

structure Gen.Keeps (g g' : Gen) : Prop where
  ctx : g'.ctx = g.ctx
  depth : g'.contractPredDepth = g.contractPredDepth
  quiet : g.InClause → g'.word.performs = g.word.performs

section

variable {g g' g'' : Gen}

theorem Gen.Keeps.inClause (h : g.Keeps g') : g'.InClause ↔ g.InClause := by
  constructor
  · intro hg
    exact ⟨h.depth ▸ hg.depth, h.ctx ▸ hg.suspend, h.ctx ▸ hg.diverge⟩
  · intro hg
    exact ⟨h.depth ▸ hg.depth, h.ctx ▸ hg.suspend, h.ctx ▸ hg.diverge⟩

theorem Gen.Keeps.trans (h : g.Keeps g') (h' : g'.Keeps g'') : g.Keeps g'' where
  ctx := h'.ctx.trans h.ctx
  depth := h'.depth.trans h.depth
  quiet hg := (h'.quiet (h.inClause.mpr hg)).trans (h.quiet hg)

instance : Std.Refl Gen.Keeps := ⟨fun _ => ⟨rfl, rfl, fun _ => rfl⟩⟩

instance : IsTrans Gen Gen.Keeps := ⟨fun _ _ _ => Gen.Keeps.trans⟩

end

abbrev Keeping {α : Type} (m : GenM α) : Prop := Along Gen.Keeps m

abbrev Harmless {α : Type} (m : GenM α) : Prop := Along Gen.Same m

instance : Blind Gen.Same := ⟨fun h _ => h⟩

instance : Blind Gen.Keeps := ⟨fun h _ => ⟨h.ctx, h.depth, fun _ => h.performs⟩⟩

instance {kind : Kind} {formula : Formula} {inTree : Option InTreeVerdict} {Γ : Env} :
    Harmless (closeSite Γ kind formula inTree) := by
  refine ⟨fun g a g' h => ?_⟩
  cases h
  exact ⟨rfl, rfl, rfl⟩

instance {Γ : Env} : Straight Γ Gen.Same := .ofBlind fun _ _ _ => inferInstance

instance {Γ : Env} : Straight Γ Gen.Keeps :=
  .ofBlind fun _ _ _ => ⟨fun g a g' h => by cases h; exact ⟨rfl, rfl, fun _ => rfl⟩⟩

section Frames

variable {α β : Type} {kind : ContextKind} {param : FrameParam} {ctx ctx' : ContextStack}

theorem diverge_union {a b : EffectSet} (h : a.contains EffectSet.DIVERGE = true) :
    (a.union b).contains EffectSet.DIVERGE = true := by
  simp only [EffectSet.contains, EffectSet.union, EffectSet.DIVERGE, bne_iff_ne, ne_eq] at h ⊢
  intro hzero
  apply h
  apply BitVec.eq_of_getLsbD_eq
  intro i hi
  have := congrArg (fun x => BitVec.getLsbD x i) hzero
  simp only [BitVec.getLsbD_and, BitVec.getLsbD_or] at this ⊢
  grind

def Gen.under (g : Gen) (ctx : ContextStack) : Gen := { g with ctx := ctx }

theorem Gen.InClause.pushed {g : Gen} (h : (g.under ctx).InClause)
    (hpush : ctx.push kind param = some g.ctx) : g.InClause := by
  unfold ContextStack.push at hpush
  split at hpush
  · cases hpush
  · have hctx := Option.some.inj hpush
    refine ⟨h.depth, ?_, ?_⟩
    · rw [← hctx]
      have := h.suspend
      simp only [ContextStack.forbidding, List.any_cons, Bool.or_eq_true] at this ⊢
      exact .inr this
    · rw [← hctx]
      exact diverge_union h.diverge

/-- A computation that closes the frame opened last, and keeps what was before it. -/
class Closing (m : GenM α) : Prop where
  run : ∀ g a g' kind param ctx, ContextStack.push ctx kind param = some g.ctx →
    m g = .ok (a, g') → (g.under ctx).Keeps g'

theorem Closing.after {m : GenM α} {f : α → GenM β} (hm : Keeping m) (hf : ∀ a, Closing (f a)) :
    Closing (m >>= f) := by
  refine ⟨fun g b g' kind param ctx hpush h => ?_⟩
  obtain ⟨a, t, hma, hfa⟩ := bind_run h
  have hkeeps := hm.run g a t hma
  have hclose := (hf a).run t b g' kind param ctx (hkeeps.ctx ▸ hpush) hfa
  have hunder : (g.under ctx).Keeps (t.under ctx) :=
    ⟨rfl, hkeeps.depth, fun hin => hkeeps.quiet (hin.pushed hpush)⟩
  exact hunder.trans hclose

theorem Closing.before {m : GenM α} {f : α → GenM β} (hm : Closing m)
    (hf : ∀ a, Keeping (f a)) : Closing (m >>= f) := by
  refine ⟨fun g b g' kind param ctx hpush h => ?_⟩
  obtain ⟨a, t, hma, hfa⟩ := bind_run h
  exact (hm.run g a t kind param ctx hpush hma).trans ((hf a).run t b g' hfa)

instance : Closing popCtx := by
  refine ⟨fun g a g' kind param ctx hpush h => ?_⟩
  obtain ⟨below, hpop, h⟩ := bind_eq_ok.mp h
  cases h
  have hbelow : below = ctx := by
    unfold ContextStack.push at hpush
    split at hpush
    · cases hpush
    · rw [← Option.some.inj hpush, expect_eq_ok] at hpop
      exact (Option.some.inj hpop).symm
  rw [hbelow]
  exact ⟨rfl, rfl, fun _ => rfl⟩

theorem keeping_framed {f : Unit → GenM α} (hf : ∀ u, Closing (f u)) :
    Keeping (pushCtx kind param >>= f) := by
  refine ⟨fun g a g' h => ?_⟩
  obtain ⟨_, t, hpush, hfa⟩ := bind_run h
  obtain ⟨ctx, hctx, hpush⟩ := bind_eq_ok.mp hpush
  cases hpush
  exact (hf ()).run (g.under ctx) a g' kind param g.ctx (expect_eq_ok.mp hctx) hfa

end Frames

/-! ## Control -/

section Control

variable {Γ : Env} {compile : Compile} [hcompile : ∀ cur r b, Keeping (compile cur r b)]
  {cur : BlockId} {lex : Cursor} {span : Span} {name : String} {e e' : TcError} {α : Type}
  {entry : WordEntry}

def Gen.performing (g : Gen) (e : EffectSet) : Gen :=
  { g with word := { g.word with performs := g.word.performs.union e } }

theorem perform_run {g g' : Gen} {p : EffectSet} {f : Unit → GenM α} {a : α}
    (hf : ∀ u, Keeping (f u)) (h : (performEffects p >>= f) g = .ok (a, g'))
    (hnone : f () (g.performing p) = .ok (a, g') → g.InClause → p.bits = 0#16) : g.Keeps g' := by
  obtain ⟨_, t, hperform, h⟩ := bind_run h
  cases hperform
  have hrest := (hf ()).run _ a g' h
  refine ⟨hrest.ctx, hrest.depth, fun hin => (hrest.quiet ?_).trans ?_⟩
  · exact ⟨hin.depth, hin.suspend, hin.diverge⟩
  · show g.word.performs.union p = g.word.performs
    unfold EffectSet.union
    rw [hnone h hin, BitVec.or_zero]

theorem keeping_diverge {f : Unit → GenM α} (hf : ∀ u, Keeping (f u))
    (hrefused : ∀ g a g', g.ctx.ambientForbids.contains EffectSet.DIVERGE = true →
      f () g ≠ .ok (a, g')) :
    Keeping (performEffects (.fromBits EffectSet.DIVERGE) >>= f) :=
  ⟨fun _ a g' h => perform_run hf h fun hf hin => absurd hf (hrefused _ a g' hin.diverge)⟩

theorem requireUnforbidden_refused {g g' : Gen} {effect : BitVec 16} {u : Unit}
    (h : g.ctx.ambientForbids.contains effect = true) :
    requireUnforbidden effect e g ≠ .ok (u, g') := by
  intro hrun
  obtain ⟨_, _, hget, hcheck⟩ := bind_run hrun
  cases hget
  exact absurd (check_run hcheck).1 (by simp [h])

instance {acc : StackBound} {base : List Value} {header bodyEnd after : BlockId} :
    Keeping (closeLoop Γ acc base header bodyEnd after e e' span) := by
  unfold closeLoop
  refine .seq inferInstance fun bodyAcc => .seq inferInstance fun bodyStack => ?_
  refine .seq inferInstance fun _ => .seq inferInstance fun _ => .seq inferInstance fun _ => ?_
  refine keeping_diverge (fun _ => inferInstance) fun g a g' hforbids h => ?_
  obtain ⟨_, _, hrequire, -⟩ := bind_run h
  exact requireUnforbidden_refused hforbids hrequire

instance : Keeping (compileLock Γ compile cur span) := by
  unfold compileLock
  refine .seq inferInstance fun g => .seq inferInstance fun _ => .seq inferInstance fun body => ?_
  refine .seq inferInstance fun locked => keeping_framed fun _ => ?_
  refine .after inferInstance fun base => ?_
  -- both around the body, masked and not masked
  dsimp only
  split
  all_goals
    repeat refine .after inferInstance fun _ => ?_
    exact .before inferInstance fun _ => inferInstance

instance {isMut allow : Bool} :
    Keeping (compileScopedBlock Γ compile cur lex isMut allow span) := by
  unfold compileScopedBlock
  repeat refine .seq inferInstance fun _ => ?_
  refine keeping_framed fun _ => .after inferInstance fun _ => .before inferInstance fun _ => ?_
  infer_instance

instance : Keeping (noteSelfCall name) := by
  unfold noteSelfCall
  refine .seq inferInstance fun g => ?_
  split
  · refine keeping_diverge (fun _ => inferInstance) fun g a g' hforbids h => ?_
    obtain ⟨_, t, haccount, hrequire⟩ := bind_run h
    cases haccount
    refine requireUnforbidden_refused ?_ hrequire
    exact hforbids
  · infer_instance

/-- In a clause only a word without effects can be called, apart from divergence, which is
refused later. -/
theorem checkCallable_run {g g' : Gen} {u : Unit} (h : checkCallable entry g = .ok (u, g'))
    (hin : g.InClause) : entry.performs.contains EffectSet.SUSPEND = false ∧
      ((entry.performs.without EffectSet.SUSPEND).without EffectSet.DIVERGE).isEmpty = true := by
  obtain ⟨_, _, hget, h⟩ := bind_run h
  cases hget
  obtain ⟨_, t, hsuspend, himpure⟩ := bind_run h
  obtain ⟨hsuspend, rfl⟩ := check_run hsuspend
  have himpure := (check_run himpure).1
  have hblocked : suspendBlocked t = true := by
    unfold suspendBlocked
    rw [hin.suspend, Bool.true_or, Bool.true_or]
  have hclause : inContractPredicate t = true := decide_eq_true hin.depth
  rw [hblocked, Bool.and_true] at hsuspend
  rw [hclause, Bool.true_and, Bool.not_eq_false'] at himpure
  exact ⟨hsuspend, himpure⟩

theorem no_effects {p : EffectSet} (hsuspend : p.contains EffectSet.SUSPEND = false)
    (hdiverge : p.contains EffectSet.DIVERGE = false)
    (hrest : ((p.without EffectSet.SUSPEND).without EffectSet.DIVERGE).isEmpty = true) :
    p.bits = 0#16 := by
  simp only [EffectSet.contains, EffectSet.SUSPEND, EffectSet.DIVERGE, EffectSet.without,
    EffectSet.isEmpty, bne_eq_false_iff_eq, beq_iff_eq] at hsuspend hdiverge hrest
  apply BitVec.eq_of_getLsbD_eq
  intro i hi
  have hs := congrArg (fun x => BitVec.getLsbD x i) hsuspend
  have hd := congrArg (fun x => BitVec.getLsbD x i) hdiverge
  have hr := congrArg (fun x => BitVec.getLsbD x i) hrest
  simp only [BitVec.getLsbD_and, BitVec.getLsbD_not, BitVec.getLsbD_zero, hi] at hs hd hr ⊢
  grind

theorem keeping_called :
    Keeping (do
      noteSelfCall name
      let g ← get
      check ((entry.performs.contains EffectSet.DIVERGE &&
        g.ctx.ambientForbids.contains EffectSet.DIVERGE) = false) .divergeInBounded
      if entry.contractHash ≠ 0 then
        let _ ← recordContractPreObligation Γ name entry.sig.inputs.len
      match builtinOp name with
      | some kind => emitOp Γ cur kind span
      | none => emitCall Γ cur name entry span) := by
  repeat refine .seq inferInstance fun _ => ?_
  dsimp only
  split
  · refine .seq inferInstance fun _ => ?_
    split <;> infer_instance
  · split <;> infer_instance

instance : Keeping (compileEnvWord Γ cur name span) := by
  unfold compileEnvWord
  refine .seq inferInstance fun entry => ⟨fun g b g' h => ?_⟩
  obtain ⟨_, t, hcallable, h⟩ := bind_run h
  have hcalled := Along.run (R := Gen.Keeps) g _ t hcallable
  obtain ⟨_, u, hsig, h⟩ := bind_run h
  have hsigned := hcalled.trans (Along.run (R := Gen.Keeps) t _ u hsig)
  refine hsigned.trans (perform_run (fun _ => keeping_called) h fun h hin => ?_)
  have hpure := checkCallable_run hcallable (hsigned.inClause.mp hin)
  obtain ⟨_, v, hself, h⟩ := bind_run h
  have hnoted := Along.run (R := Gen.Keeps) _ _ v hself
  obtain ⟨_, _, hget, h⟩ := bind_run h
  cases hget
  obtain ⟨_, _, hdiverge, -⟩ := bind_run h
  have hdiverge := (check_run hdiverge).1
  have hforbids : v.ctx.ambientForbids.contains EffectSet.DIVERGE = true := by
    rw [hnoted.ctx]
    exact hin.diverge
  rw [hforbids, Bool.and_true] at hdiverge
  exact no_effects hpure.1 hdiverge hpure.2

/-- A task run takes suspensions out of the effects; in a clause none is allowed. -/
instance : Keeping (compileTaskRun compile cur) := by
  unfold compileTaskRun
  refine ⟨fun g b g' h => ?_⟩
  obtain ⟨_, _, hget, h⟩ := bind_run h
  cases hget
  obtain ⟨_, _, hallowed, h⟩ := bind_run h
  obtain ⟨hallowed, rfl⟩ := check_run hallowed
  obtain ⟨_, t₁, hlive, h⟩ := bind_run h
  obtain ⟨_, t₂, hquot, h⟩ := bind_run h
  obtain ⟨_, t₃, haccount, h⟩ := bind_run h
  obtain ⟨_, t₄, hstack, h⟩ := bind_run h
  have hstart := (((Along.run (R := Gen.Keeps) _ _ t₁ hlive).trans
    (Along.run (R := Gen.Keeps) _ _ t₂ hquot)).trans
    (Along.run (R := Gen.Keeps) _ _ t₃ haccount)).trans
    (Along.run (R := Gen.Keeps) _ _ t₄ hstack)
  obtain ⟨_, _, hget, h⟩ := bind_run h
  cases hget
  dsimp only at h
  obtain ⟨_, t₅, hpush, h⟩ := bind_run h
  obtain ⟨ctx, hctx, hpush⟩ := bind_eq_ok.mp hpush
  cases hpush
  obtain ⟨_, t₆, hbody, h⟩ := bind_run h
  have hbody := Along.run (R := Gen.Keeps) _ _ t₆ hbody
  obtain ⟨_, t₇, hpop, h⟩ := bind_run h
  have hclosed := Closing.run t₆ _ t₇ .handler .none t₄.ctx
    (by rw [hbody.ctx]; exact expect_eq_ok.mp hctx) hpop
  obtain ⟨_, t₈, hmodify, h⟩ := bind_run h
  cases hmodify
  have hend : Gen.Keeps _ g' := Along.run (R := Gen.Keeps) _ _ g' h
  refine ⟨?_, ?_, fun hin => absurd hin.suspend (by simp [hallowed])⟩
  · exact hend.ctx.trans (hclosed.ctx.trans hstart.ctx)
  · exact hend.depth.trans (hclosed.depth.trans (hbody.depth.trans hstart.depth))

instance : Controls Γ compile Gen.Keeps where
  cond _ _ := inferInstance
  loop _ _ := inferInstance
  whileLoop _ _ := inferInstance
  lock _ _ := inferInstance
  scopedBlock _ _ _ _ _ := inferInstance
  word _ _ _ := inferInstance
  callQuote _ _ := inferInstance
  taskSpawn _ _ := inferInstance
  taskRun _ := inferInstance

end Control

instance keeping_compileSpan {Γ : Env} {fuel : Nat} {cur : BlockId} {r : Range} {allow : Bool} :
    Keeping (compileSpan Γ fuel cur r allow) :=
  along_compileSpan (fun _ _ => inferInstance) fuel cur r allow

end Tyu.Irgen

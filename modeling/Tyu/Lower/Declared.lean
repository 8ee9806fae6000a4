import Tyu.Lower.Quiet

/-! # Declared effects -/

namespace Tyu.Irgen

open Lib Obl

section Clause

variable {Γ : Env} {compile : Compile} [hcompile : ∀ cur r b, Keeping (compile cur r b)]
  {cur : BlockId} {clause : Range} {g g' : Gen} {u : Unit}

theorem pushed_clause {ctx ctx' : ContextStack}
    (h : ctx.push .contractPredicate .none = some ctx') :
    ctx'.forbidding (.fromBits EffectSet.SUSPEND) = true ∧
      ctx'.ambientForbids.contains EffectSet.DIVERGE = true := by
  unfold ContextStack.push at h
  split at h
  · cases h
  · obtain rfl := Option.some.inj h
    constructor
    · simp only [ContextStack.forbidding, List.any_cons, Bool.or_eq_true]
      exact .inl (by decide)
    · have hrow : (row .contractPredicate).forbids.contains EffectSet.DIVERGE = true := by decide
      have hunion := diverge_union (b := ctx.ambientForbids) hrow
      unfold EffectSet.union at hunion ⊢
      rwa [BitVec.or_comm] at hunion

theorem begin_run (h : beginContractPredicate Γ clause g = .ok (u, g')) :
    ContextStack.push g.ctx .contractPredicate .none = some g'.ctx ∧
      g'.contractPredDepth = g.contractPredDepth + 1 ∧ g'.word.performs = g.word.performs := by
  obtain ⟨_, t, hpush, h⟩ := bind_run h
  obtain ⟨ctx, hctx, hpush⟩ := bind_eq_ok.mp hpush
  cases hpush
  rw [expect_eq_ok] at hctx
  dsimp only at h
  split at h
  all_goals
    cases h
    exact ⟨hctx, rfl, rfl⟩

theorem end_run (h : endContractPredicate g = .ok (u, g')) {kind : ContextKind}
    {param : FrameParam} {ctx : ContextStack} (hpush : ctx.push kind param = some g.ctx) :
    g'.ctx = ctx ∧ g'.contractPredDepth = g.contractPredDepth - 1 ∧
      g'.word.performs = g.word.performs := by
  obtain ⟨_, t, hmodify, h⟩ := bind_run h
  cases hmodify
  obtain ⟨_, t', hpop, h⟩ := bind_run h
  obtain ⟨_, _, hget, h⟩ := bind_run h
  cases hget
  obtain ⟨-, rfl⟩ := check_run h
  have hclosed := Closing.run { g with contractPredDepth := g.contractPredDepth - 1 } _ g' kind
    param ctx hpush hpop
  obtain ⟨below, -, hpop⟩ := bind_eq_ok.mp hpop
  cases hpop
  exact ⟨hclosed.ctx, hclosed.depth, rfl⟩

instance {n : Nat} : Harmless (compileClause Γ compile cur clause n) := by
  unfold compileClause
  refine ⟨fun g b g' h => ?_⟩
  obtain ⟨_, _, hget, h⟩ := bind_run h
  cases hget
  dsimp only at h
  obtain ⟨_, t, hbegin, h⟩ := bind_run h
  obtain ⟨hpush, hdepth, hsame⟩ := begin_run hbegin
  have hin : t.InClause := ⟨by omega, (pushed_clause hpush).1, (pushed_clause hpush).2⟩
  obtain ⟨_, v, hbody, h⟩ := bind_run h
  have hbody := Along.run (R := Gen.Keeps) _ _ v hbody
  obtain ⟨_, w, hend, h⟩ := bind_run h
  obtain ⟨hctx, hdepth', hsame'⟩ := end_run hend (hbody.ctx.symm ▸ hpush)
  have hrest : Gen.Same w g' := Along.run (R := Gen.Same) w b g' h
  refine ⟨hrest.ctx.trans hctx, hrest.depth.trans ?_, hrest.performs.trans ?_⟩
  · have := hbody.depth
    omega
  · exact hsame'.trans ((hbody.quiet hin).trans hsame)

end Clause

section After

variable {Γ : Env} {compile : Compile} [hcompile : ∀ cur r b, Keeping (compile cur r b)]
  {cur : BlockId} {decl : Decl} {g g' : Gen} {w : Word}

theorem finish_performs (h : finish Γ g = .ok (w, g')) : w.performs = g.word.performs := by
  obtain ⟨_, t₁, hbases, h⟩ := bind_run h
  have hbases := Along.run (R := Gen.Same) g _ t₁ hbases
  obtain ⟨_, t₂, hclasses, h⟩ := bind_run h
  have hclasses := Along.run (R := Gen.Same) t₁ _ t₂ hclasses
  obtain ⟨_, t₃, hmodify, h⟩ := bind_run h
  cases hmodify
  obtain ⟨_, t₄, harena, h⟩ := bind_run h
  have harena := Along.run (R := Gen.Same) _ _ t₄ harena
  obtain ⟨_, _, hget, h⟩ := bind_run h
  cases hget
  cases h
  exact harena.performs.trans (hclasses.performs.trans hbases.performs)

theorem endWord_performs (h : endWord Γ compile cur decl g = .ok (w, g')) :
    w.performs = g.word.performs := by
  obtain ⟨_, t₁, houtputs, h⟩ := bind_run h
  have houtputs := Along.run (R := Gen.Same) g _ t₁ houtputs
  obtain ⟨_, t₂, hepilogue, h⟩ := bind_run h
  have hepilogue := Along.run (R := Gen.Same) t₁ _ t₂ hepilogue
  obtain ⟨_, t₃, hret, h⟩ := bind_run h
  have hret := Along.run (R := Gen.Same) t₂ _ t₃ hret
  obtain ⟨w', t₄, hfinish, h⟩ := bind_run h
  obtain ⟨_, t₅, -, hlast⟩ := bind_run h
  cases hlast
  rw [finish_performs hfinish]
  exact hret.performs.trans (hepilogue.performs.trans houtputs.performs)

theorem checkBody_declared {u : Unit} (h : checkBody decl g = .ok (u, g'))
    (hexplicit : decl.hasExplicitPerforms = true) :
    (g'.word.performs.minus (.fromBits decl.effectBits)).isEmpty = true := by
  obtain ⟨_, t₁, -, h⟩ := bind_run h
  obtain ⟨_, t₂, hdeclared, h⟩ := bind_run h
  have hlast := Along.run (R := Gen.Same) t₂ _ g' h
  obtain ⟨_, t₃, hget, hcheck⟩ := bind_run hdeclared
  cases hget
  obtain ⟨hcovered, hsame⟩ := check_run hcheck
  rw [hexplicit, Bool.true_and, Bool.not_eq_false'] at hcovered
  rw [hlast.performs, hsame]
  exact hcovered

theorem wordBody_declared (h : wordBody Γ compile decl g = .ok (w, g'))
    (hexplicit : decl.hasExplicitPerforms = true) :
    (w.performs.minus (.fromBits decl.effectBits)).isEmpty = true := by
  obtain ⟨cur, t₁, -, h⟩ := bind_run h
  have hend : ∀ {cur t}, (do
      checkBody decl
      let g ← get
      if g.terminated then finish Γ else endWord Γ compile cur decl : GenM Word) t = .ok (w, g') →
        (w.performs.minus (.fromBits decl.effectBits)).isEmpty = true := by
    intro cur t h
    obtain ⟨_, t₂, hcheck, h⟩ := bind_run h
    have hdeclared := checkBody_declared hcheck hexplicit
    obtain ⟨_, t₃, hget, hfinal⟩ := bind_run h
    cases hget
    split at hfinal
    · rwa [finish_performs hfinal]
    · rwa [endWord_performs hfinal]
  cases hbody : decl.body with
  | none =>
    rw [hbody] at h
    obtain ⟨cur', t₂, -, h⟩ := bind_run h
    exact hend h
  | some body =>
    rw [hbody] at h
    obtain ⟨cur', t₂, -, h⟩ := bind_run h
    exact hend h

end After

theorem buildIrWord_declared {Γ : Env} {fuel : Nat} {session : Session} {decl : Decl}
    {sig : WordSig} {out : IrWordOutput} (h : buildIrWord Γ fuel session decl sig = .ok out)
    (hexplicit : decl.hasExplicitPerforms = true) :
    (out.word.performs.minus (.fromBits decl.effectBits)).isEmpty = true := by
  unfold buildIrWord at h
  obtain ⟨name, -, h⟩ := bind_eq_ok.mp h
  obtain ⟨⟨w, g⟩, hbody, h⟩ := bind_eq_ok.mp h
  cases h
  exact wordBody_declared hbody hexplicit

end Tyu.Irgen

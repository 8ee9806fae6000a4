import Tyu.Lower.Quiet

/-! # The ambient fold -/

namespace Tyu.Irgen

open Lib Obl

namespace ContextStack

def granted (frames : List ContextFrame) : CapSet :=
  frames.foldr (fun f below => below.union (row f.kind).grants) .empty

def forbidden (frames : List ContextFrame) : EffectSet :=
  frames.foldr (fun f below => below.union (row f.kind).forbids) .empty

/-- Every frame has the row of its kind, and carries the fold of the frames below it. -/
def Carries : List ContextFrame → Prop
  | [] => True
  | f :: below =>
    f.grants = (row f.kind).grants ∧ f.forbids = (row f.kind).forbids ∧
      f.savedAmbientGrants = granted below ∧ f.savedAmbientForbids = forbidden below ∧
      Carries below

structure Folded (ctx : ContextStack) : Prop where
  grants : ctx.ambientGrants = granted ctx.frames
  forbids : ctx.ambientForbids = forbidden ctx.frames
  carries : Carries ctx.frames

theorem folded_new : Folded .new := ⟨rfl, rfl, trivial⟩

variable {ctx ctx' : ContextStack} {kind : ContextKind} {param : FrameParam}

theorem push_eq_some (h : ctx.push kind param = some ctx') :
    ctx' = ⟨⟨kind, (row kind).grants, (row kind).forbids, param, ctx.ambientGrants,
      ctx.ambientForbids⟩ :: ctx.frames, ctx.ambientGrants.union (row kind).grants,
      ctx.ambientForbids.union (row kind).forbids⟩ := by
  unfold push at h
  split at h
  · cases h
  · exact (Option.some.inj h).symm

theorem Folded.push (hctx : ctx.Folded) (h : ctx.push kind param = some ctx') : ctx'.Folded := by
  rw [push_eq_some h]
  refine ⟨?_, ?_, rfl, rfl, hctx.grants, hctx.forbids, hctx.carries⟩
  · exact congrArg (·.union (row kind).grants) hctx.grants
  · exact congrArg (·.union (row kind).forbids) hctx.forbids

theorem Folded.pop (hctx : ctx.Folded) (h : ctx.pop = some ctx') : ctx'.Folded := by
  obtain ⟨frames, grants, forbids⟩ := ctx
  cases frames with
  | nil => cases h
  | cons f below =>
    cases h
    obtain ⟨-, -, hgrants, hforbids, hbelow⟩ := hctx.carries
    exact ⟨hgrants, hforbids, hbelow⟩

theorem pop_push (h : ctx.push kind param = some ctx') : ctx'.pop = some ctx := by
  rw [push_eq_some h]
  rfl

def popAll (ctx : ContextStack) : ContextStack := ctx.frames.foldl (fun c _ => c.pop.getD c) ctx

theorem Folded.popAll (hctx : ctx.Folded) : ctx.popAll = .new := by
  obtain ⟨frames, grants, forbids⟩ := ctx
  induction frames generalizing grants forbids with
  | nil =>
    have hgrants : grants = .empty := hctx.grants
    have hforbids : forbids = .empty := hctx.forbids
    rw [hgrants, hforbids]
    rfl
  | cons f below ih => exact ih _ _ (hctx.pop rfl)

theorem forbidding_iff {frames : List ContextFrame} (h : Carries frames) (effect : EffectSet) :
    (frames.any fun f => (f.forbids.intersect effect).bits != 0#16) =
      (((forbidden frames).intersect effect).bits != 0#16) := by
  induction frames with
  | nil =>
    show false = ((0#16 &&& effect.bits) != 0#16)
    rw [BitVec.zero_and, bne_self_eq_false]
  | cons f below ih =>
    obtain ⟨-, hforbids, -, -, hbelow⟩ := h
    rw [List.any_cons, ih hbelow, hforbids]
    show _ = ((((forbidden below).bits ||| (row f.kind).forbids.bits) &&& effect.bits) != 0#16)
    rw [BitVec.and_or_distrib_right, Bool.eq_iff_iff, Bool.or_eq_true, bne_iff_ne, bne_iff_ne,
      bne_iff_ne, Ne, Ne, Ne, BitVec.or_eq_zero_iff, Decidable.not_and_iff_not_or_not, or_comm]
    rfl

inductive Move where
  | push (kind : ContextKind) (param : FrameParam)
  | pop
  | reset

/-- A refused push leaves the stack as it was; the source panics where there is nothing to pop. -/
def move (ctx : ContextStack) : Move → Option ContextStack
  | .push kind param => some ((ctx.push kind param).getD ctx)
  | .pop => ctx.pop
  | .reset => some .new

theorem Folded.move {m : Move} (hctx : ctx.Folded) (h : ctx.move m = some ctx') : ctx'.Folded := by
  cases m with
  | push kind param =>
    cases h
    cases hpush : ctx.push kind param with
    | none => exact hctx
    | some next => exact hctx.push hpush
  | pop => exact hctx.pop h
  | reset =>
    cases h
    exact folded_new

theorem Folded.moves {ms : List Move} (hctx : ctx.Folded)
    (h : ms.foldlM ContextStack.move ctx = some ctx') : ctx'.Folded := by
  induction ms generalizing ctx with
  | nil =>
    cases h
    exact hctx
  | cons m rest ih =>
    rw [List.foldlM_cons] at h
    obtain ⟨next, hnext, hrest⟩ := Option.bind_eq_some_iff.mp h
    exact ih (hctx.move hnext) hrest

end ContextStack

/-- **The ambient permissions are the fold of the open frames.**  They are after every sequence
of pushes, refused ones among them, pops and resets; closing a frame gives back the stack from
before it, and closing all of them the empty one.  What a check reads from the fold is what the
open frames forbid.  Lowering a range closes what it opens; where it fails the generator is
gone with its stack. -/
theorem ambient_is_fold :
    (∀ (ms : List ContextStack.Move) (ctx : ContextStack),
      ms.foldlM ContextStack.move .new = some ctx → ctx.Folded) ∧
    (∀ (ctx ctx' : ContextStack) (kind : ContextKind) (param : FrameParam),
      ctx.push kind param = some ctx' → ctx'.pop = some ctx) ∧
    (∀ ctx : ContextStack, ctx.Folded → ctx.popAll = .new ∧
      ∀ effect, ctx.forbidding effect = ((ctx.ambientForbids.intersect effect).bits != 0#16)) ∧
    ∀ (Γ : Env) (fuel : Nat) (cur cur' : BlockId) (r : Range) (allow : Bool) (g g' : Gen),
      compileSpan Γ fuel cur r allow g = .ok (cur', g') → g'.ctx = g.ctx := by
  refine ⟨fun _ _ h => ContextStack.folded_new.moves h, fun _ _ _ _ h => ContextStack.pop_push h,
    fun ctx hctx => ⟨hctx.popAll, fun effect => ?_⟩, fun Γ fuel cur cur' r allow g g' h => ?_⟩
  · rw [hctx.forbids]
    exact ContextStack.forbidding_iff hctx.carries effect
  · have hkeeps : g.Keeps g' := Along.run g cur' g' h
    exact hkeeps.ctx

end Tyu.Irgen

import Tyu.Lower.Projections
import Tyu.Verifier.Discharge

/-! # What lowering does to the code and the locals -/

namespace Tyu.Irgen

open Lib Obl

/-! ## The steps -/

/-- A name that a call may have without being the name of a quotation: the name of a word in
scope, or of a channel operation. -/
def Env.Declares (Γ : Env) (name : Atom) : Prop :=
  (∃ entry, lookup Γ.words name.text = some entry) ∨ name = AT_CHANNEL_SEND ∨ name = AT_CHANNEL_RECV

def callee : OpKind → Option Atom
  | .call name _ _ _ _ | .taskSpawn name _ => some name
  | _ => none

/-- The quotation on top of the stack becomes a word, and an operation enters that word by its
name. -/
inductive Gen.Enters (Γ : Env) (cur : BlockId) (quot : Range) (kind : OpKind) (g g' : Gen) : Prop
  | intro {fuel : Nat} {inherit : Bool} {out : Atom × QuoteSig × StackBound} {g₁ t t' : Gen}
      {span : Span} (top : g.stack.head? = some (.quot quot)) (popped : g.SameCode g₁)
      (built : buildQuoteWord Γ (compileSpan Γ fuel) quot inherit g₁ = .ok (out, t))
      (typed : t.SameCode t') (named : callee kind = some out.1)
      (run : emitOp Γ cur kind span t' = .ok ((), g')) : Gen.Enters Γ cur quot kind g g'

/-- One action on the code.  Jumps go to blocks from number `nb` on. -/
inductive Gen.CodeStep (Γ : Env) (nb : Nat) : Gen → Gen → Prop
  | note {g g' : Gen} (same : g.SameCode g') : CodeStep Γ nb g g'
  | block {g g' : Gen} {entry : FixedVec TypeId 32} {id : BlockId}
      (run : addBlock entry g = .ok (id, g')) : CodeStep Γ nb g g'
  | plain {g g' : Gen} {cur : BlockId} {kind : OpKind} {span : Span} (hk : plainOp kind = true)
      (run : emitOp Γ cur kind span g = .ok ((), g')) : CodeStep Γ nb g g'
  | jump {g g' : Gen} {cur : BlockId} {kind : OpKind} {span : Span}
      (hk : kind.targets ≠ []) (fresh : ∀ t ∈ kind.targets, nb ≤ t.idx)
      (run : emitOp Γ cur kind span g = .ok ((), g')) : CodeStep Γ nb g g'
  | call {g g' : Gen} {cur : BlockId} {name : Atom} {sig : Sig} {e : EffectSet} {r : CapSet}
      {b : StackBound} {span : Span} (known : Γ.Declares name)
      (run : emitOp Γ cur (.call name sig e r b) span g = .ok ((), g')) : CodeStep Γ nb g g'
  /-- an argument is put into its slot -/
  | param {g g' : Gen} {cur : BlockId} {slot : Nat} {ty : TypeId} {span : Span}
      (hslot : slot < g.sig.inputs.len)
      (run : emitOp Γ cur (.localSet slot ty) span g = .ok ((), g')) : CodeStep Γ nb g g'
  /-- a temporary is set -/
  | temp {g g' : Gen} {cur : BlockId} {slot : Nat} {ty : TypeId} {span : Span}
      (hslot : tempBaseSlot g ≤ slot)
      (run : emitOp Γ cur (.localSet slot ty) span g = .ok ((), g')) : CodeStep Γ nb g g'
  /-- a name is bound to the next slot -/
  | bind {g t g' : Gen} {cur : BlockId} {l : LocalVar} {ty : TypeId} {span : Span}
      (hroom : g.locals.length < 64) (fresh : l.live = true)
      (added : Gen.SameCode { g with locals := g.locals ++ [l] } t)
      (run : emitOp Γ cur (.localSet (localSlot g g.locals.length) ty) span t = .ok ((), g')) :
      CodeStep Γ nb g g'
  /-- a name is used -/
  | use {g t g' : Gen} {cur : BlockId} {i : Nat} {l : LocalVar} {ty : TypeId} {span : Span}
      (found : g.locals[i]? = some l) (live : l.live = true)
      (spent : Gen.SameCode { g with locals := g.locals.set i (l.afterUse Γ) } t)
      (run : emitOp Γ cur (.localGet (localSlot g i) ty) span t = .ok ((), g')) : CodeStep Γ nb g g'
  /-- the locals of a scope, which are dead by then, leave it -/
  | endScope {g g' : Gen} {scope : Nat} (closed : scopeLive g scope = false)
      (run : invalidateScopeLocals scope g = .ok ((), g')) : CodeStep Γ nb g g'
  /-- a quotation becomes a word, which is entered -/
  | enter {g g' : Gen} {cur : BlockId} {quot : Range} {kind : OpKind}
      (run : Gen.Enters Γ cur quot kind g g') : CodeStep Γ nb g g'

/-- The lowering goes on from a state by code steps, and its jumps stay among the blocks from
number `nb` on, if these were all opened later. -/
def Gen.Leads (Γ : Env) (nb : Nat) (g g' : Gen) : Prop :=
  nb ≤ g.word.blocks.len → nb ≤ g'.word.blocks.len ∧
    Relation.ReflTransGen (Gen.CodeStep Γ nb) g g'

section

variable {Γ : Env} {nb : Nat} {g g' g'' : Gen}

instance : Std.Refl (Gen.Leads Γ nb) := ⟨fun _ hnb => ⟨hnb, .refl⟩⟩

instance : IsTrans Gen (Gen.Leads Γ nb) where
  trans _ _ _ h h' hnb := ⟨(h' (h hnb).1).1, (h hnb).2.trans (h' (h hnb).1).2⟩

theorem Gen.Leads.single (hlen : g.word.blocks.len ≤ g'.word.blocks.len)
    (h : Gen.CodeStep Γ nb g g') : Gen.Leads Γ nb g g' :=
  fun hnb => ⟨hnb.trans hlen, .single h⟩

end

abbrev Silent {α : Type} (m : GenM α) : Prop := Along Gen.SameCode m

abbrev Leading (Γ : Env) (nb : Nat) {α : Type} (m : GenM α) : Prop := Along (Gen.Leads Γ nb) m

section

variable {Γ : Env} {nb : Nat} {α : Type} {m : GenM α}

instance : Loose Gen.SameCode := ⟨fun h _ => h⟩

instance : Loose (Gen.Leads Γ nb) := ⟨fun h _ => .single (by rw [h.blocks]) (.note h)⟩

theorem leads_of_run {g g' : Gen} {a : α} (hm : Leading Γ nb m) (h : m g = .ok (a, g')) :
    Gen.Leads Γ nb g g' := hm.run g a g' h

end

section Operations

variable {Γ : Env} {nb : Nat} {cur : BlockId} {span : Span} {kind : OpKind}

theorem leading_jump (hk : kind.targets ≠ []) (fresh : ∀ t ∈ kind.targets, nb ≤ t.idx) :
    Leading Γ nb (emitOp Γ cur kind span) := by
  refine ⟨fun g u g' hrun => ?_⟩
  exact .single (emitOp_blocks hrun).1.ge (.jump hk fresh hrun)

theorem leading_br {target : BlockId} (h : nb ≤ target.idx) :
    Leading Γ nb (emitBr Γ cur target span) := by
  refine leading_jump (List.cons_ne_nil _ _) fun t ht => ?_
  rw [List.mem_singleton.mp ht]
  exact h

theorem leading_brIf {thenTgt elseTgt : BlockId} (h : nb ≤ thenTgt.idx) (h' : nb ≤ elseTgt.idx) :
    Leading Γ nb (emitOp Γ cur (.brIf thenTgt elseTgt) span) := by
  refine leading_jump (List.cons_ne_nil _ _) fun t ht => ?_
  obtain rfl | ht := List.mem_cons.mp ht
  · exact h
  · rw [List.mem_singleton.mp ht]
    exact h'

theorem leading_call {name : Atom} {sig : Sig} {e : EffectSet} {r : CapSet} {b : StackBound}
    (known : Γ.Declares name) : Leading Γ nb (emitOp Γ cur (.call name sig e r b) span) := by
  refine ⟨fun g u g' hrun => ?_⟩
  exact .single (emitOp_blocks hrun).1.ge (.call known hrun)

theorem addBlock_run {entry : FixedVec TypeId 32} {g g' : Gen} {id : BlockId}
    (h : addBlock entry g = .ok (id, g')) :
    id = ⟨g.word.blocks.len⟩ ∧ g'.word.blocks.items = g.word.blocks.items ++ [⟨id, entry, .new⟩] ∧
      g'.locals = g.locals ∧ g'.sig = g.sig ∧ g'.extraWords = g.extraWords ∧
      g'.quoteId = g.quoteId ∧ g'.word.name = g.word.name := by
  obtain ⟨blocks, hpush, h⟩ := bind_eq_ok.mp h
  cases h
  exact ⟨rfl, FixedVec.push_eq_some.mp (expect_eq_ok.mp hpush), rfl, rfl, rfl, rfl, rfl⟩

theorem addBlock_len {entry : FixedVec TypeId 32} {g g' : Gen} {id : BlockId}
    (h : addBlock entry g = .ok (id, g')) : g'.word.blocks.len = g.word.blocks.len + 1 := by
  unfold FixedVec.len
  rw [(addBlock_run h).2.1, List.length_append, List.length_singleton]

instance {entry : FixedVec TypeId 32} : Leading Γ nb (addBlock entry) :=
  ⟨fun _ _ _ h => .single (by rw [addBlock_len h]; exact Nat.le_succ _) (.block h)⟩

theorem leading_newBlock {α : Type} {stack : List Value} {f : BlockId → GenM α}
    (hf : ∀ id, nb ≤ id.idx → Leading Γ nb (f id)) : Leading Γ nb (newBlock Γ stack >>= f) := by
  refine ⟨fun g a g' h hnb => ?_⟩
  obtain ⟨id, t, hnew, h⟩ := bind_run h
  obtain ⟨types, t₁, htypes, hnew⟩ := bind_run hnew
  obtain ⟨entry, t₂, hentry, hadd⟩ := bind_run hnew
  have hleads : Gen.Leads Γ nb g t₂ := IsTrans.trans _ _ _
    (Along.run _ _ _ htypes) (Along.run _ _ _ hentry)
  obtain ⟨hnb₂, hsteps⟩ := hleads hnb
  have hlen : nb ≤ t.word.blocks.len := by
    rw [addBlock_len hadd]
    exact Nat.le_succ_of_le hnb₂
  have hid : nb ≤ id.idx := by
    rw [(addBlock_run hadd).1]
    exact hnb₂
  obtain ⟨hnb', hsteps'⟩ := (hf id hid).run _ a g' h hlen
  exact ⟨hnb', hsteps.trans (.trans (.single (.block hadd)) hsteps')⟩

instance : Straight Γ (Gen.Leads Γ nb) where
  site kind formula inTree := ⟨fun g a g' h => by
    cases h
    exact .single (Nat.le_refl _) (.note ⟨rfl, rfl, rfl, rfl, rfl, rfl⟩)⟩
  plain cur kind span hk := ⟨fun g u g' h => .single (emitOp_blocks h).1.ge (.plain hk h)⟩
  channel cur name sig e r b span h := leading_call (.inr h)
  param hslot h := .single (emitOp_blocks h).1.ge (.param hslot h)
  temp hslot h := .single (emitOp_blocks h).1.ge (.temp hslot h)
  bind hroom fresh added h := .single
    (by rw [(emitOp_blocks h).1, added.code.blocks]) (.bind hroom fresh added.code h)
  use found live spent h := .single
    (by rw [(emitOp_blocks h).1, spent.code.blocks]) (.use found live spent.code h)

end Operations

end Tyu.Irgen

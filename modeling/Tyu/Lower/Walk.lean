import Tyu.Lib.Along
import Tyu.Lower.Build

/-!
# A walk over the lowering

A relation between states of the generator holds along the whole lowering when it holds along the
few functions that change what the relation speaks of.
-/

namespace Tyu.Irgen

open Lib Obl

structure Gen.Frame where
  ctx : ContextStack
  depth : Nat
  performs : EffectSet
  session : Session
  blocks : FixedVec Block 16
  locals : List LocalVar
  sig : WordSig
  extraWords : FixedVec Word 16
  quoteId : Nat
  name : Atom

def Gen.frame (g : Gen) : Gen.Frame :=
  ⟨g.ctx, g.contractPredDepth, g.word.performs, g.session, g.word.blocks, g.locals, g.sig,
    g.extraWords, g.quoteId, g.word.name⟩

def Gen.Notes (g g' : Gen) : Prop := g'.frame = g.frame

structure Gen.Same (g g' : Gen) : Prop where
  ctx : g'.ctx = g.ctx
  depth : g'.contractPredDepth = g.contractPredDepth
  performs : g'.word.performs = g.word.performs

structure Gen.SameCode (g g' : Gen) : Prop where
  blocks : g'.word.blocks = g.word.blocks
  locals : g'.locals = g.locals
  sig : g'.sig = g.sig
  extraWords : g'.extraWords = g.extraWords
  quoteId : g'.quoteId = g.quoteId
  name : g'.word.name = g.word.name

instance : Std.Refl Gen.Notes := ⟨fun _ => rfl⟩

instance : IsTrans Gen Gen.Notes := ⟨fun _ _ _ h h' => h'.trans h⟩

instance : Std.Refl Gen.Same := ⟨fun _ => ⟨rfl, rfl, rfl⟩⟩

instance : IsTrans Gen Gen.Same where
  trans _ _ _ h h' :=
    ⟨h'.ctx.trans h.ctx, h'.depth.trans h.depth, h'.performs.trans h.performs⟩

instance : IsTrans Gen Gen.SameCode where
  trans _ _ _ h h' := ⟨h'.blocks.trans h.blocks, h'.locals.trans h.locals, h'.sig.trans h.sig,
    h'.extraWords.trans h.extraWords, h'.quoteId.trans h.quoteId, h'.name.trans h.name⟩

theorem Gen.Notes.same {g g' : Gen} (h : g.Notes g') : g.Same g' :=
  ⟨congrArg Frame.ctx h, congrArg Frame.depth h, congrArg Frame.performs h⟩

theorem Gen.Notes.code {g g' : Gen} (h : g.Notes g') : g.SameCode g' :=
  ⟨congrArg Frame.blocks h, congrArg Frame.locals h, congrArg Frame.sig h,
    congrArg Frame.extraWords h, congrArg Frame.quoteId h, congrArg Frame.name h⟩

theorem Gen.Notes.session {g g' : Gen} (h : g.Notes g') : g'.session = g.session :=
  congrArg Frame.session h

class Lax (R : Gen → Gen → Prop) : Prop where
  note : ∀ {g g' : Gen}, g.Notes g' → R g g'

class Blind (R : Gen → Gen → Prop) : Prop where
  code : ∀ {g g' : Gen}, g.Same g' → g'.session = g.session → R g g'

class Loose (R : Gen → Gen → Prop) : Prop where
  work : ∀ {g g' : Gen}, g.SameCode g' → g'.session = g.session → R g g'

abbrev Noting {α : Type} (m : GenM α) : Prop := Along Gen.Notes m

section

variable {R : Gen → Gen → Prop} {α : Type} {m : GenM α} {f : Gen → Gen}

instance (priority := low) [Blind R] : Lax R := ⟨fun h => Blind.code h.same h.session⟩

instance (priority := low) [Loose R] : Lax R := ⟨fun h => Loose.work h.code h.session⟩

instance (priority := low) [Lax R] [h : Noting m] : Along R m :=
  ⟨fun g a g' hm => Lax.note (h.run g a g' hm)⟩

theorem noting_modify (h : ∀ g : Gen, g.Notes (f g)) : Noting (modify f : GenM PUnit) := along_modify h

theorem along_note [Lax R] (h : ∀ g : Gen, g.Notes (f g)) : Along R (modify f : GenM PUnit) :=
  along_modify fun g => Lax.note (h g)

end

/-! ## Primitives -/

section Primitives

variable {Γ : Env} {α : Type} {c : Prop} [Decidable c] {e e' : TcError}

theorem check_run {g g' : Gen} {u : Unit} (h : check c e g = .ok (u, g')) : c ∧ g' = g := by
  obtain ⟨_, hc, h⟩ := bind_eq_ok.mp h
  cases h
  exact ⟨require_eq_ok.mp hc, rfl⟩

theorem check_seq {β : Type} {f : Unit → GenM β} {g g' : Gen} {b : β}
    (h : (check c e >>= f) g = .ok (b, g')) : c ∧ f () g = .ok (b, g') := by
  obtain ⟨u, t, hcheck, hf⟩ := bind_run h
  obtain ⟨hc, rfl⟩ := check_run hcheck
  exact ⟨hc, hf⟩

theorem need_seq {β : Type} {o : Option α} {f : α → GenM β} {g g' : Gen} {b : β}
    (h : (need o e >>= f) g = .ok (b, g')) : ∃ a, o = some a ∧ f a g = .ok (b, g') := by
  obtain ⟨a, t, hneed, hf⟩ := bind_run h
  obtain ⟨c, hc, hneed⟩ := bind_eq_ok.mp hneed
  cases hneed
  exact ⟨a, expect_eq_ok.mp hc, hf⟩

theorem lift_seq {β : Type} {x : Except TcError α} {f : α → GenM β} {g g' : Gen} {b : β}
    (h : ((liftM x : GenM α) >>= f) g = .ok (b, g')) : ∃ a, x = .ok a ∧ f a g = .ok (b, g') := by
  cases x with
  | error e => cases h
  | ok a => exact ⟨a, rfl, h⟩

instance : Noting (check c e) := along_of_eq fun _ _ _ h => (check_run h).2

instance {o : Option α} : Noting (need o e) := by
  refine ⟨fun g a g' h => ?_⟩
  obtain ⟨_, -, h⟩ := bind_eq_ok.mp h
  cases h
  rfl

instance : Noting pop := by
  refine ⟨fun g a g' h => ?_⟩
  unfold pop at h
  split at h
  all_goals
    cases h
    rfl

instance : Noting (popOr e) := by
  unfold popOr
  infer_instance

instance : Noting discard := by
  unfold discard
  infer_instance

instance {v : Value} : Noting (push v) := by
  refine ⟨fun g a g' h => ?_⟩
  unfold push at h
  split at h
  · cases h
  · cases h
    rfl

instance : Noting getStack := along_of_eq fun g a g' h => by cases h; rfl

instance : Noting getAcc := along_of_eq fun g a g' h => by cases h; rfl

instance {stack : List Value} : Noting (setStack stack) := noting_modify fun _ => rfl

instance {acc : StackBound} : Noting (setAcc acc) := noting_modify fun _ => rfl

instance {delta : StackBound} : Noting (account delta) := noting_modify fun _ => rfl

instance {v : Value} : Noting (setTop v) := noting_modify fun _ => rfl

instance {f : Linear → Linear} : Noting (modifyInterp f) := noting_modify fun _ => rfl

instance : Noting seedPointerParams := noting_modify fun _ => rfl

instance : Noting (peekOr e) := by
  unfold peekOr
  infer_instance

instance {ty : TypeAtom} : Noting (tyIdOfType Γ ty) := by
  refine ⟨fun g a g' h => ?_⟩
  obtain ⟨_, -, h⟩ := bind_eq_ok.mp h
  cases h
  rfl

instance {v : Value} : Noting (tyIdOfValue Γ v) := by
  unfold tyIdOfValue
  split <;> infer_instance

instance {sig : WordSig} : Noting (lirSigForEntry Γ sig) := by
  unfold lirSigForEntry
  infer_instance

instance {effect : BitVec 16} : Noting (requireUnforbidden effect e) := by
  unfold requireUnforbidden
  infer_instance

instance : Noting enterScope := by
  refine ⟨fun g a g' h => ?_⟩
  unfold enterScope at h
  split at h
  · cases h
  · cases h
    rfl

instance {id : Nat} : Noting (leaveScope id) := by
  refine ⟨fun g a g' h => ?_⟩
  unfold leaveScope at h
  split at h
  all_goals
    cases h
    rfl

instance {scope : Nat} : Noting (closeScope scope) := by
  unfold closeScope
  infer_instance

instance {root : Atom} {full : TypeAtom} : Noting (mintId root full) := by
  refine ⟨fun g a g' h => ?_⟩
  unfold mintId at h
  split at h
  · cases h
    rfl
  · split at h
    · cases h
    · cases h
      rfl

instance {aperture : Nat} {access : AccessMode} : Noting (recordAperture Γ aperture access) := by
  refine ⟨fun g a g' h => ?_⟩
  unfold recordAperture at h
  split at h
  · cases h
    rfl
  · split at h
    · cases h
    · split at h
      all_goals
        cases h
        rfl

instance : Noting arenaAlloc := by
  refine ⟨fun g a g' h => ?_⟩
  unfold arenaAlloc at h
  split at h
  · cases h
  · cases h
    rfl

variable {cur : BlockId} {lex : Cursor} {ty : TypeAtom} {name : String}

instance : Noting (lirAtom name) := by
  unfold lirAtom
  infer_instance

instance {toTy : TypeAtom} {sub : Option SubtypeInfo} : Noting (checkCast Γ name ty toTy sub) := by
  unfold checkCast
  repeat refine .seq inferInstance fun _ => ?_
  infer_instance

instance {offset : Nat} : Noting (placeField Γ offset ty) := by
  unfold placeField
  infer_instance

instance {place : PlacePath} {isMut : Bool} : Noting (addressOf Γ place isMut) := by
  unfold addressOf
  repeat refine .seq inferInstance fun _ => ?_
  split
  all_goals
    repeat refine .seq inferInstance fun _ => ?_
    infer_instance

instance {m : MmioAccessMeta} : Noting (checkAtomicWidth ty m) := by
  unfold checkAtomicWidth
  infer_instance

instance {m : MmioAccessMeta} : Noting (checkStoreSemantics ty m) := by
  unfold checkStoreSemantics
  infer_instance

instance {want : Option TypeAtom} : Noting (accessTy ty want) := by
  unfold accessTy
  infer_instance

instance : Noting (popQuot e e') := by
  unfold popQuot
  infer_instance

instance : Noting popResource := by
  unfold popResource
  refine .seq inferInstance fun stack => ?_
  split <;> infer_instance

instance {sig : WordSig} : Noting (applySig Γ sig) := by
  unfold applySig
  repeat refine .seq inferInstance fun _ => ?_
  infer_instance

instance {entry : WordEntry} : Noting (checkCallable entry) := by
  unfold checkCallable
  repeat refine .seq inferInstance fun _ => ?_
  infer_instance

instance : Noting (compileQuotation Γ cur lex) := by
  unfold compileQuotation
  infer_instance

instance {explicit : Bool} {declared : EffectSet} : Noting (checkDeclared explicit declared) := by
  unfold checkDeclared
  infer_instance

instance : Noting (checkOutputsDeclared Γ) := by
  unfold checkOutputsDeclared
  infer_instance

instance : Noting (fillSubtypeBases Γ) := by
  unfold fillSubtypeBases
  refine .seq inferInstance fun g => ?_
  have : ∀ atom : Atom, Noting (match findSubtype Γ.subtypes atom with
      | some st => tyIdOfType Γ st.base
      | none => pure TY_EMPTY) := fun atom => by split <;> infer_instance
  refine .seq along_mapM fun bases => .seq inferInstance fun bases => ?_
  exact noting_modify fun _ => rfl

instance : Noting fillTypeClasses := by
  unfold fillTypeClasses
  refine .seq inferInstance fun g => .seq inferInstance fun classes => ?_
  exact noting_modify fun _ => rfl

instance : Noting (finish Γ) := by
  unfold finish
  refine .seq inferInstance fun _ => .seq inferInstance fun _ => ?_
  exact .seq (noting_modify fun _ => rfl) fun _ => inferInstance

end Primitives

def plainOp : OpKind → Bool
  | .localSet _ _ | .br _ | .brIf _ _ | .call _ _ _ _ _ | .taskSpawn _ _ => false
  | _ => true

class OpKind.Plain (kind : OpKind) : Prop where
  plain : plainOp kind = true

instance {v : Int} : OpKind.Plain (.constI64 v) := ⟨rfl⟩
instance {b : Bool} : OpKind.Plain (.constBool b) := ⟨rfl⟩
instance {s : Span} : OpKind.Plain (.constStr s) := ⟨rfl⟩
instance {a : Atom} {m : Bool} {b : AddrOfBase} : OpKind.Plain (.addrOf a m b) := ⟨rfl⟩
instance {a : Atom} {i j : Nat} : OpKind.Plain (.mmioPlace a i j) := ⟨rfl⟩
instance {t : TypeId} {n : Nat} : OpKind.Plain (.scopedEnter t n) := ⟨rfl⟩
instance {t : TypeId} {n : Nat} : OpKind.Plain (.ptrAddConst t n) := ⟨rfl⟩
instance {t : TypeId} {n : Nat} : OpKind.Plain (.ptrAddIndex t n) := ⟨rfl⟩
instance {t : TypeId} : OpKind.Plain (.dup t) := ⟨rfl⟩
instance {t : TypeId} : OpKind.Plain (.drop t) := ⟨rfl⟩
instance {s t : TypeId} : OpKind.Plain (.swap s t) := ⟨rfl⟩
instance {t : TypeId} {k : CmpKind} : OpKind.Plain (.cmp t k) := ⟨rfl⟩
instance : OpKind.Plain .andBool := ⟨rfl⟩
instance : OpKind.Plain .interruptDisable := ⟨rfl⟩
instance : OpKind.Plain .interruptEnable := ⟨rfl⟩
instance {n : Nat} {t : TypeId} : OpKind.Plain (.localGet n t) := ⟨rfl⟩
instance {s t : TypeId} : OpKind.Plain (.cast s t) := ⟨rfl⟩
instance {s t : TypeId} : OpKind.Plain (.bitcast s t) := ⟨rfl⟩
instance {t : TypeId} : OpKind.Plain (.load t) := ⟨rfl⟩
instance {t : TypeId} : OpKind.Plain (.store t) := ⟨rfl⟩
instance {t : TypeId} {a : Atom} {r : ReadKind} {n : Nat} {b : BarrierKind} :
    OpKind.Plain (.mmioVolLoad t a r n b) := ⟨rfl⟩
instance {t : TypeId} {a : Atom} {w : WriteKind} {r : ReadKind} {n : Nat} {b : BarrierKind} :
    OpKind.Plain (.mmioVolStore t a w r n b) := ⟨rfl⟩
instance {s t : TypeId} {a : Atom} {i j n : Nat} {r : ReadKind} {b : BarrierKind} :
    OpKind.Plain (.mmioVolLoadField s t a i j r n b) := ⟨rfl⟩
instance {s t : TypeId} {a : Atom} {i j n : Nat} {w : WriteKind} {r : ReadKind} {b : BarrierKind} :
    OpKind.Plain (.mmioVolStoreField s t a i j w r n b) := ⟨rfl⟩
instance {c : TrapCode} : OpKind.Plain (.trapIfFalse c) := ⟨rfl⟩
instance : OpKind.Plain .ret := ⟨rfl⟩

instance {c : Prop} [Decidable c] {k k' : OpKind} [h : OpKind.Plain k] [h' : OpKind.Plain k'] :
    OpKind.Plain (if c then k else k') := by
  split
  · exact h
  · exact h'

/-! ## Straight-line words -/

/-- A relation along what changes the code or the session outside control words: sites, plain
operations, calls of channels, arguments and temporaries that are set, names that are bound and
used. -/
class Straight (Γ : Env) (R : Gen → Gen → Prop) : Prop where
  site (kind : Kind) (formula : Formula) (inTree : Option InTreeVerdict) :
    Along R (closeSite Γ kind formula inTree)
  plain (cur : BlockId) (kind : OpKind) (span : Span) (h : plainOp kind = true) :
    Along R (emitOp Γ cur kind span)
  channel (cur : BlockId) (name : Atom) (sig : Sig) (e : EffectSet) (r : CapSet) (b : StackBound)
    (span : Span) (h : name = AT_CHANNEL_SEND ∨ name = AT_CHANNEL_RECV) :
    Along R (emitOp Γ cur (.call name sig e r b) span)
  param {g g' : Gen} {cur : BlockId} {slot : Nat} {ty : TypeId} {span : Span}
    (hslot : slot < g.sig.inputs.len)
    (h : emitOp Γ cur (.localSet slot ty) span g = .ok ((), g')) : R g g'
  temp {g g' : Gen} {cur : BlockId} {slot : Nat} {ty : TypeId} {span : Span}
    (hslot : tempBaseSlot g ≤ slot)
    (h : emitOp Γ cur (.localSet slot ty) span g = .ok ((), g')) : R g g'
  bind {g t g' : Gen} {cur : BlockId} {l : LocalVar} {ty : TypeId} {span : Span}
    (hroom : g.locals.length < 64) (fresh : l.live = true)
    (added : Gen.Notes { g with locals := g.locals ++ [l] } t)
    (h : emitOp Γ cur (.localSet (localSlot g g.locals.length) ty) span t = .ok ((), g')) : R g g'
  use {g t g' : Gen} {cur : BlockId} {i : Nat} {l : LocalVar} {ty : TypeId} {span : Span}
    (found : g.locals[i]? = some l) (live : l.live = true)
    (spent : Gen.Notes { g with locals := g.locals.set i (l.afterUse Γ) } t)
    (h : emitOp Γ cur (.localGet (localSlot g i) ty) span t = .ok ((), g')) : R g g'

attribute [instance] Straight.site

theorem emitOp_blocks {Γ : Env} {g g' : Gen} {cur : BlockId} {kind : OpKind} {span : Span}
    {u : Unit} (h : emitOp Γ cur kind span g = .ok (u, g')) :
    g'.word.blocks.len = g.word.blocks.len ∧ g'.locals = g.locals ∧ g'.sig = g.sig ∧
      g'.extraWords = g.extraWords ∧ g'.quoteId = g.quoteId ∧ g'.word.name = g.word.name := by
  obtain ⟨word, hw, h⟩ := bind_eq_ok.mp h
  cases h
  obtain ⟨b, -, hw⟩ := bind_eq_ok.mp hw
  obtain ⟨ops, -, hw⟩ := bind_eq_ok.mp hw
  cases hw
  exact ⟨List.length_set .., rfl, rfl, rfl, rfl, rfl⟩

theorem tempBaseSlot_congr {g t : Gen} (hlocals : t.locals = g.locals) (hsig : t.sig = g.sig) :
    tempBaseSlot t = tempBaseSlot g := by
  unfold tempBaseSlot
  rw [hlocals, hsig]

theorem addLocal_run {l : LocalVar} {e : TcError} {g g' : Gen} {u : Unit}
    (h : addLocal l e g = .ok (u, g')) :
    g.locals.length < 64 ∧ g' = { g with locals := g.locals ++ [l] } := by
  obtain ⟨_, hroom, h⟩ := bind_eq_ok.mp h
  cases h
  exact ⟨require_eq_ok.mp hroom, rfl⟩

section Words

variable {Γ : Env} {R : Gen → Gen → Prop} [Std.Refl R] [IsTrans Gen R] [Lax R] [Straight Γ R]
  {cur : BlockId} {lex : Cursor} {span : Span} {ty : TypeAtom} {st : SubtypeInfo}
  {name : String} {tid : TypeId} {status : VerdictStatus}

instance {kind : OpKind} [h : OpKind.Plain kind] : Along R (emitOp Γ cur kind span) :=
  Straight.plain cur kind span h.plain

instance {value : Oel} {iv : Gen → Interval} : Along R (closeRangeSite Γ value st iv) := by
  unfold closeRangeSite
  infer_instance

instance {i : Nat} : Along R (recordSubtypeParamObligation Γ cur i st) := by
  unfold recordSubtypeParamObligation
  infer_instance

instance {i : Nat} {outIvs : List Interval} :
    Along R (recordSubtypeReturnObligation Γ i st outIvs) := by
  unfold recordSubtypeReturnObligation
  infer_instance

instance {toTy : TypeAtom} {iv : Interval} : Along R (recordCastObligation Γ ty toTy st iv) := by
  unfold recordCastObligation
  infer_instance

instance {iv : Interval} : Along R (recordStoreObligation Γ st iv) := by
  unfold recordStoreObligation
  infer_instance

instance {aperture offset width : Nat} :
    Along R (recordMmioBoundsObligation Γ aperture offset width) := by
  unfold recordMmioBoundsObligation
  split
  · infer_instance
  · split <;> infer_instance

instance {iv : Interval} : Along R (recordContractPostObligation Γ iv) := by
  unfold recordContractPostObligation
  infer_instance

instance {n : Nat} : Along R (recordContractPreObligation Γ name n) := by
  unfold recordContractPreObligation
  infer_instance

instance {slot : Nat} : Along R (emitSubtypeRangeTrap Γ cur slot tid st span) := by
  unfold emitSubtypeRangeTrap
  repeat refine .seq inferInstance fun _ => ?_
  infer_instance

omit [Std.Refl R] [Lax R] in
theorem along_staged {α : Type} {f : Gen → GenM α} (hf : ∀ g, Along R (f g)) :
    Along R (do
      let g ← get
      emitOp Γ cur (.dup tid) span
      emitOp Γ cur (.localSet (tempBaseSlot g) tid) span
      f g) := by
  refine ⟨fun g a g' h => ?_⟩
  obtain ⟨_, _, hget, h⟩ := bind_run h
  cases hget
  obtain ⟨_, t₁, hdup, h⟩ := bind_run h
  obtain ⟨_, t₂, hset, h⟩ := bind_run h
  obtain ⟨-, hlocals, hsig, -⟩ := emitOp_blocks hdup
  have hfirst : R g t₁ := Along.run _ _ _ hdup
  have hsecond : R t₁ t₂ := Straight.temp (tempBaseSlot_congr hlocals hsig).le hset
  exact IsTrans.trans _ _ _ (IsTrans.trans _ _ _ hfirst hsecond) ((hf g).run _ _ _ h)

instance : Along R (emitTopRangeTrap Γ cur tid st span) := by
  unfold emitTopRangeTrap
  exact along_staged fun g => inferInstance

instance : Along R (emitRangeTest Γ cur tid st span) := by
  unfold emitRangeTest
  refine along_staged fun g => ?_
  repeat refine .seq inferInstance fun _ => ?_
  infer_instance

omit [Lax R] [Straight Γ R] in
instance {trap : GenM Unit} [Along R trap] : Along R (emitUnlessClosed status trap) := by
  unfold emitUnlessClosed
  infer_instance

instance {tok : Token} : Along R (compileNumber Γ cur tok) := by
  unfold compileNumber
  repeat refine .seq inferInstance fun _ => ?_
  infer_instance

instance {tok : Token} : Along R (compileString Γ cur tok) := by
  unfold compileString
  repeat refine .seq inferInstance fun _ => ?_
  infer_instance

instance : Along R (compileBoolLiteral Γ cur name span) := by
  unfold compileBoolLiteral
  repeat refine .seq inferInstance fun _ => ?_
  infer_instance

instance {var : TypeAtom} : Along R (compileEnumVariant Γ cur span ty var) := by
  unfold compileEnumVariant
  split
  · repeat refine .seq inferInstance fun _ => ?_
    infer_instance
  · infer_instance

instance : Along R (compileStackOp Γ cur name span) := by
  unfold compileStackOp
  repeat' split
  all_goals
    repeat refine .seq inferInstance fun _ => ?_
    infer_instance

instance {toTy : TypeAtom} {sub : Option SubtypeInfo} {iv : Interval} :
    Along R (finishCast Γ cur name ty toTy tid sub iv span) := by
  unfold finishCast
  cases sub <;> repeat refine .seq inferInstance fun _ => ?_
  all_goals infer_instance

instance : Along R (compileCast Γ cur lex name span) := by
  unfold compileCast
  repeat refine .seq inferInstance fun _ => ?_
  infer_instance

instance {i : Nat} : Along R (compileLocalRef Γ cur i span) := by
  unfold compileLocalRef
  refine ⟨fun g a g' h => ?_⟩
  obtain ⟨_, _, hget, h⟩ := bind_run h
  cases hget
  obtain ⟨l, hl, h⟩ := need_seq h
  obtain ⟨hlive, h⟩ := check_seq h
  obtain ⟨_, t₁, hmodify, h⟩ := bind_run h
  cases hmodify
  obtain ⟨_, t₂, hpush, h⟩ := bind_run h
  obtain ⟨ty, t₃, hty, h⟩ := bind_run h
  obtain ⟨_, t₄, hemit, h⟩ := bind_run h
  cases h
  have hnotes : Gen.Notes { g with locals := g.locals.set i (l.afterUse Γ) } t₃ :=
    IsTrans.trans _ _ _ (Along.run _ _ _ hpush) (Along.run _ _ _ hty)
  exact Straight.use hl hlive hnotes hemit

instance {a : Atom} {scope : Nat} {place : PlaceId} {full : TcError} :
    Along R (bindLocal Γ cur ⟨a, ty, true, scope, place⟩ tid full span) := by
  unfold bindLocal
  refine ⟨fun g a g' h => ?_⟩
  obtain ⟨_, _, hget, h⟩ := bind_run h
  cases hget
  obtain ⟨_, t, hadd, hemit⟩ := bind_run h
  obtain ⟨hroom, rfl⟩ := addLocal_run hadd
  exact Straight.bind hroom rfl (Std.Refl.refl _) hemit

instance {m : Bool} {place : PlaceId} {tmp offset : Nat} {p : DestructBind × StructFieldInfo} :
    Along R (compileFieldBind Γ cur ty m place tmp offset p span) := by
  unfold compileFieldBind
  repeat refine .seq inferInstance fun _ => ?_
  dsimp only
  split
  all_goals
    repeat refine .seq inferInstance fun _ => ?_
    infer_instance

instance {binds : List DestructBind} : Along R (compileDestruct Γ cur binds span) := by
  unfold compileDestruct
  refine .seq inferInstance fun _ => .seq inferInstance fun base => ?_
  refine .seq inferInstance fun st => .seq inferInstance fun sinfo => .seq inferInstance fun _ => ?_
  refine ⟨fun g a g' h => ?_⟩
  obtain ⟨_, _, hget, h⟩ := bind_run h
  cases hget
  obtain ⟨_, t, hset, h⟩ := bind_run h
  have hfirst : R g t := Straight.temp (Nat.le_refl _) hset
  exact IsTrans.trans _ _ _ hfirst (Along.run _ _ _ h)

instance {tok : Token} : Along R (compileBind Γ cur tok span) := by
  unfold compileBind
  refine .seq inferInstance fun _ => .seq inferInstance fun v => .seq inferInstance fun _ => ?_
  refine .seq inferInstance fun name => ⟨fun g a g' h => ?_⟩
  obtain ⟨_, _, hget, h⟩ := bind_run h
  cases hget
  obtain ⟨-, h⟩ := check_seq h
  obtain ⟨-, h⟩ := check_seq h
  obtain ⟨_, t₁, hadd, h⟩ := bind_run h
  obtain ⟨hroom, rfl⟩ := addLocal_run hadd
  obtain ⟨ty, t₂, hty, h⟩ := bind_run h
  obtain ⟨_, t₃, hemit, h⟩ := bind_run h
  cases h
  exact Straight.bind hroom rfl (Along.run _ _ _ hty) hemit

instance {allow : Bool} : Along R (compileDestructBind Γ cur lex allow span) := by
  unfold compileDestructBind
  infer_instance

end Words

/-! ## Memory accesses -/

section Memory

variable {Γ : Env} {R : Gen → Gen → Prop} [Std.Refl R] [IsTrans Gen R] [Lax R] [Straight Γ R]
  {cur : BlockId} {lex : Cursor} {span : Span} {ty : TypeAtom} {name : String} {isMut : Bool}
  {plan : IndexPlan} {idx : Nat} {reg : MmioResolvedReg} {field : MmioResolvedField}
  {want : Option TypeAtom}

instance : Along R (compileAddrOf Γ cur lex isMut span) := by
  unfold compileAddrOf
  repeat refine .seq inferInstance fun _ => ?_
  infer_instance

instance {a : Atom} : Along R (compileFieldAccess Γ cur a span) := by
  unfold compileFieldAccess
  repeat refine .seq inferInstance fun _ => ?_
  split
  all_goals
    repeat refine .seq inferInstance fun _ => ?_
    infer_instance

instance : Along R (finishIndex Γ cur plan span) := by
  unfold finishIndex
  infer_instance

instance : Along R (compileStaticIndex Γ cur idx span) := by
  unfold compileStaticIndex
  repeat refine .seq inferInstance fun _ => ?_
  infer_instance

instance : Along R (compileDynamicIndex Γ cur span) := by
  unfold compileDynamicIndex
  repeat refine .seq inferInstance fun _ => ?_
  infer_instance

instance {compile : Compile} [∀ cur r b, Along R (compile cur r b)] {allow : Bool} :
    Along R (compileIndex Γ compile cur lex allow span) := by
  unfold compileIndex
  infer_instance

instance : Along R (compileDotOp Γ cur lex span) := by
  unfold compileDotOp
  infer_instance

instance : Along R (loadReg Γ cur reg want span) := by
  unfold loadReg
  repeat refine .seq inferInstance fun _ => ?_
  infer_instance

instance : Along R (loadField Γ cur field want span) := by
  unfold loadField
  repeat refine .seq inferInstance fun _ => ?_
  infer_instance

instance : Along R (compileLoad Γ cur want span) := by
  unfold compileLoad
  repeat refine .seq inferInstance fun _ => ?_
  split
  all_goals
    repeat refine .seq inferInstance fun _ => ?_
    infer_instance

instance {val : TypeAtom} : Along R (storeReg Γ cur reg val want span) := by
  unfold storeReg
  repeat refine .seq inferInstance fun _ => ?_
  infer_instance

instance {val : TypeAtom} : Along R (storeField Γ cur field val want span) := by
  unfold storeField
  repeat refine .seq inferInstance fun _ => ?_
  infer_instance

instance {val : TypeAtom} : Along R (storePtr Γ cur ty isMut val want span) := by
  unfold storePtr
  repeat refine .seq inferInstance fun _ => ?_
  split
  all_goals
    repeat refine .seq inferInstance fun _ => ?_
    infer_instance

instance : Along R (compileStore Γ cur want span) := by
  unfold compileStore
  repeat refine .seq inferInstance fun _ => ?_
  split
  all_goals
    repeat refine .seq inferInstance fun _ => ?_
    infer_instance

instance : Along R (compileLoadStore Γ cur name span) := by
  unfold compileLoadStore
  repeat refine .seq inferInstance fun _ => ?_
  split
  all_goals
    repeat refine .seq inferInstance fun _ => ?_
    infer_instance

instance : Along R (compileChannelSend Γ cur span) := by
  unfold compileChannelSend
  repeat refine .seq inferInstance fun _ => ?_
  exact .seq (Straight.channel _ _ _ _ _ _ _ (.inl rfl)) fun _ => inferInstance

instance : Along R (compileChannelRecv Γ cur span) := by
  unfold compileChannelRecv
  repeat refine .seq inferInstance fun _ => ?_
  exact .seq (Straight.channel _ _ _ _ _ _ _ (.inr rfl)) fun _ => inferInstance

end Memory

/-! ## Names and ranges -/

/-- A relation along the control words, where it holds along the ranges inside them. -/
class Controls (Γ : Env) (compile : Compile) (R : Gen → Gen → Prop) : Prop where
  cond (cur : BlockId) (span : Span) : Along R (compileIf Γ compile cur span)
  loop (cur : BlockId) (span : Span) : Along R (compileLoop Γ compile cur span)
  whileLoop (cur : BlockId) (span : Span) : Along R (compileWhile Γ compile cur span)
  lock (cur : BlockId) (span : Span) : Along R (compileLock Γ compile cur span)
  scopedBlock (cur : BlockId) (lex : Cursor) (isMut allow : Bool) (span : Span) :
    Along R (compileScopedBlock Γ compile cur lex isMut allow span)
  word (cur : BlockId) (name : String) (span : Span) : Along R (compileEnvWord Γ cur name span)
  callQuote (cur : BlockId) (span : Span) : Along R (compileCallQuote Γ compile cur span)
  taskSpawn (cur : BlockId) (span : Span) : Along R (compileTaskSpawn Γ compile cur span)
  taskRun (cur : BlockId) : Along R (compileTaskRun compile cur)

attribute [instance] Controls.cond Controls.loop Controls.whileLoop Controls.lock Controls.scopedBlock
  Controls.callQuote Controls.taskSpawn

section Ranges

variable {Γ : Env} {R : Gen → Gen → Prop} [Std.Refl R] [IsTrans Gen R] [Lax R] [Straight Γ R]
  {compile : Compile} [hcompile : ∀ cur r b, Along R (compile cur r b)] {cur : BlockId}
  {lex : Cursor} {span : Span} {name : String} {allow : Bool}

omit [Lax R] [Straight Γ R] [Std.Refl R] [IsTrans Gen R] in
instance {quot : Range} : Along R (compileQuoteSpan compile cur quot allow) := by
  unfold compileQuoteSpan
  infer_instance

omit hcompile in
instance : Along R (compileReturn Γ cur span) := by
  unfold compileReturn
  repeat refine .seq inferInstance fun _ => ?_
  infer_instance

omit hcompile in
instance : Along R (compileMmioPlace Γ cur name span) := by
  unfold compileMmioPlace
  refine .seq inferInstance fun resolved => ?_
  split
  · infer_instance
  · repeat refine .seq inferInstance fun _ => ?_
    infer_instance

variable [hcontrols : Controls Γ compile R]

instance : Along R (compileLockName Γ compile cur lex span) := by
  unfold compileLockName
  refine .cond ?_ inferInstance
  repeat refine .seq inferInstance fun _ => ?_
  infer_instance

instance : Along R (compileWordName Γ compile cur lex name span) := by
  unfold compileWordName
  have hword := hcontrols.word
  have hrun := hcontrols.taskRun
  have : Noting (modify fun g : Gen => { g with terminated := true }) := noting_modify fun _ => rfl
  repeat refine .cond inferInstance ?_
  refine .seq inferInstance fun g => ?_
  split <;> infer_instance

instance {isIdent : Bool} : Along R (compileName Γ compile cur lex isIdent name span) := by
  unfold compileName
  have hword := hcontrols.word
  refine .cond inferInstance ?_
  split
  · infer_instance
  · dsimp only
    split
    all_goals
      refine .seq inferInstance fun isVariant => ?_
      infer_instance

instance {tok : Token} : Along R (compileToken Γ compile cur tok lex allow) := by
  unfold compileToken
  split <;> infer_instance

instance {fuel : Nat} : Along R (compileTokens Γ compile allow fuel cur lex) := by
  induction fuel generalizing cur lex with
  | zero =>
    unfold compileTokens
    infer_instance
  | succ fuel ih =>
    unfold compileTokens
    refine .cond inferInstance (.seq inferInstance fun _ => .seq inferInstance fun out => ?_)
    exact .cond inferInstance ih

end Ranges

section Walk

variable {Γ : Env} {R : Gen → Gen → Prop} [Std.Refl R] [IsTrans Gen R] [Lax R] [Straight Γ R]

/-- **The walk.**  A relation that holds along the straight-line words, and along the control
words whenever it holds along the ranges inside them, holds along all ranges. -/
theorem along_compileSpan (hcontrols : ∀ fuel, (∀ cur r b, Along R (compileSpan Γ fuel cur r b)) →
      Controls Γ (compileSpan Γ fuel) R) (fuel : Nat) (cur : BlockId) (r : Range) (allow : Bool) :
    Along R (compileSpan Γ fuel cur r allow) := by
  induction fuel generalizing cur r allow with
  | zero =>
    unfold compileSpan
    infer_instance
  | succ fuel ih =>
    have := hcontrols fuel ih
    unfold compileSpan
    infer_instance

end Walk

/-! ## Whole words -/

section Whole

variable {Γ : Env} {R : Gen → Gen → Prop} [Loose R] {e : EffectSet} {kind : ContextKind}
  {param : FrameParam} {name : String} {decl : Decl} {clause : Range}

theorem along_work {f : Gen → Gen} (h : ∀ g : Gen, g.SameCode (f g))
    (hsession : ∀ g, (f g).session = g.session) : Along R (modify f : GenM PUnit) :=
  along_modify fun g => Loose.work (h g) (hsession g)

instance : Along R (performEffects e) :=
  along_work (fun _ => ⟨rfl, rfl, rfl, rfl, rfl, rfl⟩) fun _ => rfl

instance : Along R popAllCtx :=
  along_work (fun _ => ⟨rfl, rfl, rfl, rfl, rfl, rfl⟩) fun _ => rfl

instance : Along R (pushCtx kind param) := by
  refine ⟨fun g a g' h => ?_⟩
  obtain ⟨_, -, h⟩ := bind_eq_ok.mp h
  cases h
  exact Loose.work ⟨rfl, rfl, rfl, rfl, rfl, rfl⟩ rfl

instance : Along R popCtx := by
  refine ⟨fun g a g' h => ?_⟩
  obtain ⟨_, -, h⟩ := bind_eq_ok.mp h
  cases h
  exact Loose.work ⟨rfl, rfl, rfl, rfl, rfl, rfl⟩ rfl

variable [Std.Refl R] [IsTrans Gen R]

instance : Along R (noteSelfCall name) := by
  unfold noteSelfCall
  refine .seq inferInstance fun g => ?_
  split <;> infer_instance

instance : Along R (seedContext Γ decl) := by
  unfold seedContext
  repeat refine .seq inferInstance fun _ => ?_
  infer_instance

instance : Along R (checkBody decl) := by
  unfold checkBody
  infer_instance

instance : Along R (beginContractPredicate Γ clause) := by
  unfold beginContractPredicate
  refine .seq inferInstance fun _ => ⟨fun g a g' h => ?_⟩
  cases h
  dsimp only
  split <;> exact Loose.work ⟨rfl, rfl, rfl, rfl, rfl, rfl⟩ rfl

instance : Along R endContractPredicate := by
  unfold endContractPredicate
  refine .seq (along_work (fun _ => ⟨rfl, rfl, rfl, rfl, rfl, rfl⟩) fun _ => rfl) fun _ => ?_
  infer_instance

instance {compile : Compile} [∀ cur r b, Along R (compile cur r b)] {n : Nat} :
    Along R (compileClause Γ compile cur clause n) := by
  unfold compileClause
  repeat refine .seq inferInstance fun _ => ?_
  infer_instance

end Whole

section Ends

variable {Γ : Env} {R : Gen → Gen → Prop} [Std.Refl R] [IsTrans Gen R] [Lax R] [Straight Γ R]
  {compile : Compile} {cur : BlockId}

theorem along_setAll {α : Type} {slot : α → Nat} {ty : α → TypeId} {span : Span} {e : TcError}
    {xs : List α} {g g' : Gen} {u : PUnit}
    (hslot : ∀ x ∈ xs, slot x < g.sig.inputs.len ∨ tempBaseSlot g ≤ slot x)
    (h : (xs.forM fun x => do
      let _ ← popOr e
      emitOp Γ cur (.localSet (slot x) (ty x)) span) g = .ok (u, g')) : R g g' := by
  induction xs generalizing g with
  | nil =>
    cases h
    exact Std.Refl.refl _
  | cons x xs ih =>
    obtain ⟨_, t, hset, h⟩ := bind_run h
    obtain ⟨v, t₁, hpop, hemit⟩ := bind_run hset
    have hpop : g.Notes t₁ := Along.run _ _ _ hpop
    obtain ⟨-, hlocals, hsig, -⟩ := emitOp_blocks hemit
    have hbase : tempBaseSlot t₁ = tempBaseSlot g :=
      tempBaseSlot_congr hpop.code.locals hpop.code.sig
    have hset : R t₁ t := by
      obtain hparam | htemp := hslot x (List.mem_cons_self ..)
      · exact Straight.param (hpop.code.sig ▸ hparam) hemit
      · exact Straight.temp (hbase.trans_le htemp) hemit
    refine IsTrans.trans _ _ _ (IsTrans.trans _ _ _ (Lax.note hpop) hset) (ih (fun y hy => ?_) h)
    rw [hsig, hpop.code.sig, tempBaseSlot_congr hlocals hsig, hbase]
    exact hslot y (List.mem_cons_of_mem _ hy)

theorem inputSlots_lt {g : Gen} {p : (TypeAtom × TypeId) × Nat} (h : p ∈ g.inputSlots) :
    p.2 < g.sig.inputs.len := by
  have hlt := List.snd_lt_of_mem_zipIdx h
  rw [Nat.add_zero, List.length_zip] at hlt
  exact hlt.trans_le (Nat.min_le_left _ _)

instance : Along R (loadInputs Γ cur) := by
  unfold loadInputs
  infer_instance

instance : Along R (checkInputs Γ cur) := by
  unfold checkInputs
  refine .seq inferInstance fun g => ?_
  have : ∀ p : (TypeAtom × TypeId) × Nat, Along R (match findSubtype Γ.subtypes p.1.1 with
      | some st => do
        let status ← recordSubtypeParamObligation Γ cur p.2 st
        emitUnlessClosed status (emitSubtypeRangeTrap Γ cur p.2 p.1.2 st .UNKNOWN)
      | none => pure () : GenM Unit) := fun p => by split <;> infer_instance
  infer_instance

instance {status : VerdictStatus} : Along R (finishClause Γ cur status) := by
  unfold finishClause
  infer_instance

instance {tmp : Nat} {outIvs : List Interval} : Along R (checkOutputs Γ cur tmp outIvs) := by
  unfold checkOutputs
  refine .seq inferInstance fun g => ?_
  have : ∀ p : (TypeAtom × TypeId) × Nat, Along R (match findSubtype Γ.subtypes p.1.1 with
      | some st => do
        let status ← recordSubtypeReturnObligation Γ p.2 st outIvs
        emitUnlessClosed status (emitSubtypeRangeTrap Γ cur (tmp + p.2) p.1.2 st .UNKNOWN)
      | none => pure () : GenM Unit) := fun p => by split <;> infer_instance
  infer_instance

instance : Along R (stageOutputs Γ cur) := by
  unfold stageOutputs
  refine ⟨fun g a g' h => ?_⟩
  obtain ⟨_, _, hget, h⟩ := bind_run h
  cases hget
  dsimp only at h
  split at h
  · obtain ⟨_, t, hset, h⟩ := bind_run h
    have hfirst : R g t := along_setAll (fun p _ => .inr (Nat.le_add_right _ _)) hset
    exact IsTrans.trans _ _ _ hfirst (Along.run _ _ _ h)
  · have : ∀ p : (TypeAtom × TypeId) × Nat, Along R
        (match findSubtype Γ.subtypes p.1.1 with
        | some st => do
          let _ ← recordSubtypeReturnObligation Γ p.2 st
            ((g.interp.stateOrFresh cur).topNIntervals g.sig.outputs.len)
        | none => pure () : GenM Unit) := fun p => by split <;> infer_instance
    exact Along.run _ _ _ h

variable [hclause : ∀ cur clause n, Along R (compileClause Γ compile cur clause n)]

instance {requires : Option Range} : Along R (emitPrologue Γ compile cur requires) := by
  unfold emitPrologue
  refine ⟨fun g a g' h => ?_⟩
  obtain ⟨_, _, hget, h⟩ := bind_run h
  cases hget
  obtain ⟨_, t, hset, h⟩ := bind_run h
  have hfirst : R g t := along_setAll
    (fun p hp => .inl (inputSlots_lt (List.mem_reverse.mp hp))) hset
  refine IsTrans.trans _ _ _ hfirst (@Along.run _ _ _ _ _ ?_ _ _ _ h)
  refine .seq inferInstance fun _ => .seq inferInstance fun _ => ?_
  split <;> infer_instance

instance {ensures : Option Range} : Along R (emitEpilogue Γ compile cur ensures) := by
  unfold emitEpilogue
  refine .seq inferInstance fun g => ?_
  dsimp only
  split
  all_goals
    repeat refine .seq inferInstance fun _ => ?_
    infer_instance

instance {decl : Decl} : Along R (endWord Γ compile cur decl) := by
  unfold endWord
  repeat refine .seq inferInstance fun _ => ?_
  infer_instance

end Ends

section Body

variable {Γ : Env} {R : Gen → Gen → Prop} [Std.Refl R] [IsTrans Gen R] [Loose R] [Straight Γ R]
  [hopen : Along R (openWord Γ)] {compile : Compile} [hcompile : ∀ cur r b, Along R (compile cur r b)]
  {cur : BlockId} {decl : Decl}

instance : Along R (beginWord Γ compile decl) := by
  unfold beginWord
  have hcaps : ∀ caps : CapSet, Noting (modify fun g : Gen =>
      { g with word := { g.word with requires := caps } }) := fun _ => noting_modify fun _ => rfl
  refine .seq inferInstance fun _ => ?_
  dsimp only
  split
  all_goals
    repeat refine .seq inferInstance fun _ => ?_
    split <;> infer_instance

omit hopen in
instance : Along R (wordBody Γ compile decl) := by
  unfold wordBody
  refine .seq inferInstance fun cur => ?_
  dsimp only
  split
  all_goals
    repeat refine .seq inferInstance fun _ => ?_
    infer_instance

end Body

section Frames

variable {Γ : Env} {R : Gen → Gen → Prop} [Std.Refl R] [IsTrans Gen R] [Loose R] [Straight Γ R]
  {compile : Compile} [hcompile : ∀ cur r b, Along R (compile cur r b)] {cur : BlockId} {span : Span}

instance : Along R (compileLock Γ compile cur span) := by
  unfold compileLock
  repeat refine .seq inferInstance fun _ => ?_
  dsimp only
  split
  all_goals
    repeat refine .seq inferInstance fun _ => ?_
    infer_instance

omit [Straight Γ R] in
instance : Along R (compileTaskRun compile cur) := by
  unfold compileTaskRun
  repeat first
    | refine .seq inferInstance fun _ => ?_
    | refine .seq (along_work (fun _ => ⟨rfl, rfl, rfl, rfl, rfl, rfl⟩) fun _ => rfl) fun _ => ?_
  infer_instance

end Frames

/-! ## Relations that do not speak of the code -/

section Blind

variable {Γ : Env} {R : Gen → Gen → Prop} [Blind R] {cur : BlockId} {span : Span}

instance {kind : OpKind} : Along R (emitOp Γ cur kind span) := by
  refine ⟨fun g a g' h => ?_⟩
  obtain ⟨word, hword, h⟩ := bind_eq_ok.mp h
  cases h
  refine Blind.code ⟨rfl, rfl, ?_⟩ rfl
  unfold appendOp at hword
  obtain ⟨_, -, hword⟩ := bind_eq_ok.mp hword
  obtain ⟨_, -, hword⟩ := bind_eq_ok.mp hword
  cases hword
  rfl

instance {target : BlockId} : Along R (emitBr Γ cur target span) := by
  unfold emitBr
  infer_instance

instance {entry : FixedVec TypeId 32} : Along R (addBlock entry) := by
  refine ⟨fun g a g' h => ?_⟩
  obtain ⟨_, -, h⟩ := bind_eq_ok.mp h
  cases h
  exact Blind.code ⟨rfl, rfl, rfl⟩ rfl

instance {scope : Nat} : Along R (invalidateScopeLocals scope) :=
  along_modify fun _ => Blind.code ⟨rfl, rfl, rfl⟩ rfl

instance : Along R quoteWordName := by
  refine ⟨fun g a g' h => ?_⟩
  cases h
  exact Blind.code ⟨rfl, rfl, rfl⟩ rfl

variable [IsTrans Gen R]

theorem Straight.ofBlind (hsite : ∀ kind formula inTree, Along R (closeSite Γ kind formula inTree)) :
    Straight Γ R where
  site := hsite
  plain _ _ _ _ := inferInstance
  channel _ _ _ _ _ _ _ _ := inferInstance
  param _ h := Along.run _ _ _ h
  temp _ h := Along.run _ _ _ h
  bind _ _ added h := IsTrans.trans _ _ _
    (Blind.code (g := _) ⟨added.same.ctx, added.same.depth, added.same.performs⟩ added.session)
    (Along.run _ _ _ h)
  use _ _ spent h := IsTrans.trans _ _ _
    (Blind.code ⟨spent.same.ctx, spent.same.depth, spent.same.performs⟩ spent.session)
    (Along.run _ _ _ h)

variable [Std.Refl R] {compile : Compile} [hcompile : ∀ cur r b, Along R (compile cur r b)]
  {name : String} {entry : WordEntry}

omit hcompile in
instance {stack : List Value} : Along R (newBlock Γ stack) := by
  unfold newBlock
  infer_instance

omit hcompile in
instance : Along R (openWord Γ) := by
  unfold openWord
  refine .seq inferInstance fun _ => .seq inferInstance fun _ => .seq ?_ fun _ => inferInstance
  exact along_modify fun _ => Blind.code ⟨rfl, rfl, rfl⟩ rfl

instance : Along R (compileIf Γ compile cur span) := by
  unfold compileIf
  repeat refine .seq inferInstance fun _ => ?_
  infer_instance

omit hcompile in
instance : Along R (emitCall Γ cur name entry span) := by
  unfold emitCall
  refine .seq inferInstance fun _ => .seq inferInstance fun _ => ?_
  refine .seq (along_modify fun _ => Blind.code ⟨rfl, rfl, rfl⟩ rfl) fun _ => inferInstance

omit hcompile in
instance {quot : Range} {inherit : Bool} : Along R (buildQuoteWord Γ compile quot inherit) := by
  unfold buildQuoteWord
  repeat first
    | refine .seq inferInstance fun _ => ?_
    | refine .seq (along_modify fun _ => Blind.code ⟨rfl, rfl, rfl⟩ rfl) fun _ => ?_
  infer_instance

omit hcompile in
instance : Along R (compileCallQuote Γ compile cur span) := by
  unfold compileCallQuote
  repeat refine .seq inferInstance fun _ => ?_
  infer_instance

omit hcompile in
instance : Along R (compileTaskSpawn Γ compile cur span) := by
  unfold compileTaskSpawn
  repeat refine .seq inferInstance fun _ => ?_
  infer_instance

variable [hclose : ∀ acc base header bodyEnd after e e', Along R
  (closeLoop Γ acc base header bodyEnd after e e' span)]

instance : Along R (compileWhile Γ compile cur span) := by
  unfold compileWhile
  repeat refine .seq inferInstance fun _ => ?_
  infer_instance

instance : Along R (compileLoop Γ compile cur span) := by
  unfold compileLoop
  repeat refine .seq inferInstance fun _ => ?_
  infer_instance

end Blind

end Tyu.Irgen

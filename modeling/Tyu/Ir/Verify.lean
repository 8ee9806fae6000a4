import Tyu.Ir.Types
import Tyu.Lib.BoundedStack
import Tyu.Lib.Checked

/-! # The IR verifier -/

namespace Tyu

open Lib

inductive VerifyError where
  | entryBlockNotFound (span : Span)
  | entryStackLenMismatch (span : Span)
  | entryStackTypeMismatch (span : Span)
  | codeAfterTerminator (span : Span)
  | typeMismatch (span : Span)
  | dropTypeMismatch (span : Span)
  | swapTypeMismatch (span : Span)
  | localTypeMismatch (span : Span)
  | callStackUnderflow (span : Span)
  | callInputTypeMismatch (span : Span)
  | loadAddrNotPtr (span : Span)
  | storeValueTypeMismatch (span : Span)
  | storeAddrNotMutPtr (span : Span)
  | mmioFieldAddrNotMmio (span : Span)
  | mmioFieldTypeMismatch (span : Span)
  | trapIfFalseNotBool (span : Span)
  | brTargetNotFound (span : Span)
  | brStackDepthMismatch (span : Span)
  | brStackContentMismatch (span : Span)
  | brIfCondNotBool (span : Span)
  | brIfTargetNotFound (span : Span)
  | brIfStackDepthMismatch (span : Span)
  | brIfStackContentMismatch (span : Span)
  | retStackDepthMismatch (span : Span)
  | retOutputTypeMismatch (span : Span)
  | notTerminated (span : Span)
  | popEmptyStack (span : Span)
  | pushFullStack (span : Span)
  | scopedEnterTypeNotScoped (span : Span)
  | mmioApertureOutOfRange (span : Span)
  | mmioPlaceOutOfBounds (span : Span)
  | mmioPhantomRead (span : Span)
  | mmioOverWideAccess (span : Span)
  | mmioApertureUnbound (span : Span)
  | mmioApertureEmulatedBound (span : Span)

abbrev TypeStack := BoundedStack TypeId 64

/-- A recorded `mmioPlace`: its name, aperture and offset. -/
structure Site where
  place : Atom
  aperture : Nat
  offset : Nat
deriving DecidableEq

structure VerifyState where
  stack : TypeStack
  sites : FixedVec Site 8
  terminated : Bool

namespace VerifyState

def push (st : VerifyState) (ty : TypeId) (span : Span) : Except VerifyError VerifyState :=
  match st.stack.push ty with
  | some stack => .ok { st with stack := stack }
  | none => .error (.pushFullStack span)

def pop (st : VerifyState) (span : Span) : Except VerifyError (TypeId × VerifyState) :=
  match st.stack.pop with
  | some (ty, stack) => .ok (ty, { st with stack := stack })
  | none => .error (.popEmptyStack span)

/-- Push the types of `tys` in turn. -/
def pushAll (st : VerifyState) (tys : List TypeId) (span : Span) :
    Except VerifyError VerifyState :=
  match st.stack.pushAll tys with
  | some stack => .ok { st with stack := stack }
  | none => .error (.pushFullStack span)

def addSite (st : VerifyState) (site : Site) : VerifyState :=
  match st.sites.push site with
  | some sites => { st with sites := sites }
  | none => st

def terminate (st : VerifyState) : VerifyState := { st with terminated := true }

end VerifyState

/-- Addition on `u32` that stops at the greatest value. -/
def saturatingAddU32 (a b : Nat) : Nat := min (a + b) (2 ^ 32 - 1)

/-- A volatile access of `width` bytes at `place` stays inside the aperture that the
first recorded site of that name declared.  A name without a site is not checked. -/
def checkSiteBounds (w : Word) (sites : List Site) (place : Atom) (width : Nat) (span : Span) :
    Except VerifyError Unit :=
  match sites.find? fun s => s.place == place with
  | none => .ok ⟨⟩
  | some site =>
    match findApertureUse w site.aperture with
    | none => .error (.mmioApertureOutOfRange span)
    | some wu => require (saturatingAddU32 site.offset width ≤ wu.size) (.mmioPlaceOutOfBounds span)

/-- The width checks of a volatile access.  A type whose own name is no primitive's
has no known width and passes. -/
def checkVolWidth (w : Word) (sites : List Site) (ty : TypeId) (place : Atom) (atomicMax : Nat)
    (span : Span) : Except VerifyError Unit :=
  match typeWidthBytes w ty with
  | none => .ok ⟨⟩
  | some width => do
    checkSiteBounds w sites place width span
    require (width * 8 ≤ atomicMax) (.mmioOverWideAccess span)

def checkTarget (w : Word) (stack : TypeStack) (tgt : BlockId)
    (notFound depthMismatch contentMismatch : VerifyError) : Except VerifyError Unit := do
  let t ← expect (findBlock w tgt) notFound
  require (t.entryStack.len = stack.depth) depthMismatch
  require (t.entryStack.items = stack.items.reverse) contentMismatch

/-- Are the types, bottom first, acceptable where the types of `want` are declared? -/
def typesOk (w : Word) (got want : List TypeId) : Prop :=
  List.Forall₂ (fun g t => typeOk w g t = true) got want

instance (w : Word) (got want : List TypeId) : Decidable (typesOk w got want) :=
  inferInstanceAs (Decidable (List.Forall₂ (fun g t => typeOk w g t = true) got want))

def verifyOp (w : Word) (st : VerifyState) (op : Op) : Except VerifyError VerifyState := do
  let span := op.span
  require (st.terminated = false) (.codeAfterTerminator span)
  match op.kind with
  | .constI64 _ => st.push TY_I64 span
  | .constBool _ => st.push TY_BOOL span
  | .constStr _ => st.push TY_STR span
  | .addrOf _ false _ => st.push TY_PTR span
  | .addrOf _ true _ => st.push TY_PTR_MUT span
  | .mmioPlace place aperture offset =>
    let wu ← expect (findApertureUse w aperture) (.mmioApertureOutOfRange span)
    require (offset < wu.size) (.mmioPlaceOutOfBounds span)
    (st.addSite ⟨place, aperture, offset⟩).push TY_MMIO span
  | .scopedEnter ty _ =>
    let cls := (w.typeClasses.get? ty.idx).getD .other
    require (isScopedEnterClass cls = true) (.scopedEnterTypeNotScoped span)
    st.push ty span
  | .taskSpawn _ taskTy => st.push taskTy span
  | .ptrAddConst ty _ =>
    let (top, st) ← st.pop span
    require (top = ty) (.typeMismatch span)
    st.push top span
  | .ptrAddIndex ty _ =>
    let (idx, st) ← st.pop span
    require (idx = TY_I64) (.callInputTypeMismatch span)
    let (top, st) ← st.pop span
    require (top = ty) (.typeMismatch span)
    st.push top span
  | .dup ty =>
    let (top, st) ← st.pop span
    require (top = ty) (.typeMismatch span)
    let st ← st.push top span
    st.push top span
  | .drop ty =>
    let (top, st) ← st.pop span
    require (top = ty) (.dropTypeMismatch span)
    pure st
  | .swap a b =>
    let (top, st) ← st.pop span
    let (below, st) ← st.pop span
    require (top = b ∧ below = a) (.swapTypeMismatch span)
    let st ← st.push top span
    st.push below span
  | .addI64 | .subI64 | .mulI64 =>
    let (_, st) ← st.pop span
    let (_, st) ← st.pop span
    st.push TY_I64 span
  | .cmp out _ =>
    let (_, st) ← st.pop span
    let (_, st) ← st.pop span
    st.push out span
  | .andBool | .orBool =>
    let (_, st) ← st.pop span
    let (_, st) ← st.pop span
    st.push TY_BOOL span
  | .notBool =>
    let (_, st) ← st.pop span
    st.push TY_BOOL span
  | .interruptDisable | .interruptEnable => pure st
  | .localSet _ ty =>
    let (v, st) ← st.pop span
    require (typeOk w v ty = true) (.localTypeMismatch span)
    pure st
  | .localGet _ ty => st.push ty span
  | .cast src tgt | .bitcast src tgt =>
    let (v, st) ← st.pop span
    require (v = src) (.localTypeMismatch span)
    st.push tgt span
  | .call _ sig _ _ _ =>
    let (args, stack) ← expect (st.stack.popN sig.inLen) (.callStackUnderflow span)
    require (typesOk w args.reverse sig.inputs.items) (.callInputTypeMismatch span)
    { st with stack := stack }.pushAll sig.outputs.items span
  | .load ty =>
    let (addr, st) ← st.pop span
    require (addr = TY_PTR ∨ addr = TY_PTR_MUT) (.loadAddrNotPtr span)
    st.push ty span
  | .store ty =>
    let (v, st) ← st.pop span
    let (addr, st) ← st.pop span
    require (v = ty) (.storeValueTypeMismatch span)
    require (addr = TY_PTR_MUT) (.storeAddrNotMutPtr span)
    pure st
  | .mmioVolLoad ty place _ atomicMax _ =>
    let (addr, st) ← st.pop span
    require (addr = TY_MMIO ∨ addr = TY_PTR ∨ addr = TY_PTR_MUT) (.loadAddrNotPtr span)
    checkVolWidth w st.sites.items ty place atomicMax span
    st.push ty span
  | .mmioVolStore ty place writeKind readKind atomicMax _ =>
    let (v, st) ← st.pop span
    let (addr, st) ← st.pop span
    require (v = ty) (.storeValueTypeMismatch span)
    require (addr = TY_MMIO ∨ addr = TY_PTR_MUT) (.storeAddrNotMutPtr span)
    -- a read-modify-write of an effectful register would read the bus behind the source
    require (¬(readKind = .effectful ∧
      (writeKind = .w1s ∨ writeKind = .w1c ∨ writeKind = .xor))) (.mmioPhantomRead span)
    checkVolWidth w st.sites.items ty place atomicMax span
    pure st
  | .mmioVolLoadField regTy fieldTy place _ _ _ atomicMax _ =>
    let (pl, st) ← st.pop span
    require (pl = TY_MMIO) (.mmioFieldAddrNotMmio span)
    checkVolWidth w st.sites.items regTy place atomicMax span
    st.push fieldTy span
  | .mmioVolStoreField regTy fieldTy place _ _ _ readKind atomicMax _ =>
    let (v, st) ← st.pop span
    let (pl, st) ← st.pop span
    require (pl = TY_MMIO ∧ v = fieldTy) (.mmioFieldTypeMismatch span)
    require (readKind ≠ .effectful) (.mmioPhantomRead span)
    checkVolWidth w st.sites.items regTy place atomicMax span
    pure st
  | .trapIfFalse _ =>
    let (v, st) ← st.pop span
    require (v = TY_BOOL) (.trapIfFalseNotBool span)
    pure st
  | .br target =>
    checkTarget w st.stack target (.brTargetNotFound span) (.brStackDepthMismatch span)
      (.brStackContentMismatch span)
    pure st.terminate
  | .brIf thenTgt elseTgt =>
    let (cond, st) ← st.pop span
    require (cond = TY_BOOL) (.brIfCondNotBool span)
    checkTarget w st.stack thenTgt (.brIfTargetNotFound span) (.brIfStackDepthMismatch span)
      (.brIfStackContentMismatch span)
    checkTarget w st.stack elseTgt (.brIfTargetNotFound span) (.brIfStackDepthMismatch span)
      (.brIfStackContentMismatch span)
    pure st.terminate
  | .ret =>
    require (st.stack.depth = w.sig.outLen) (.retStackDepthMismatch span)
    require (typesOk w st.stack.items.reverse w.sig.outputs.items) (.retOutputTypeMismatch span)
    pure st.terminate

def entryTypes (b : Block) : TypeStack :=
  ⟨b.entryStack.items.reverse, by
    rw [List.length_reverse]
    exact Nat.le_trans b.entryStack.bounded (by decide)⟩

def VerifyState.entry (b : Block) : VerifyState := ⟨entryTypes b, .new, false⟩

def verifyBlock (w : Word) (b : Block) : Except VerifyError Unit := do
  let st ← b.ops.items.foldlM (verifyOp w) (.entry b)
  require (st.terminated = true) (.notTerminated .UNKNOWN)

def verifyAperture (wu : ApertureUse) : Except VerifyError Unit :=
  match wu.kind, wu.bind with
  | .bus, .none => .error (.mmioApertureUnbound .UNKNOWN)
  | .emulated, .armThumbLdrLiteral => .error (.mmioApertureEmulatedBound .UNKNOWN)
  | .emulated, .riscVHi20Lo12 => .error (.mmioApertureEmulatedBound .UNKNOWN)
  | _, _ => .ok ⟨⟩

def verifyWord (w : Word) : Except VerifyError Unit := do
  let entry ← expect (findBlock w w.entry) (.entryBlockNotFound .UNKNOWN)
  require (entry.entryStack.len = w.sig.inLen) (.entryStackLenMismatch .UNKNOWN)
  require (entry.entryStack.items = w.sig.inputs.items) (.entryStackTypeMismatch .UNKNOWN)
  w.blocks.items.forM (verifyBlock w)
  w.apertures.items.forM verifyAperture

def verifyModule (m : Module) : Except VerifyError Unit := m.words.forM verifyWord

def Accepted (w : Word) : Prop := verifyWord w = .ok ⟨⟩

instance (w : Word) : Decidable (Accepted w) :=
  match h : verifyWord w with
  | .ok ⟨⟩ => .isTrue h
  | .error _ => .isFalse fun hok => by rw [Accepted, h] at hok; cases hok

/-! ## What acceptance says -/

namespace VerifyState

theorem push_eq_ok {st st' : VerifyState} {ty : TypeId} {span : Span} :
    st.push ty span = .ok st' ↔
      ∃ stack, st.stack.push ty = some stack ∧ st' = { st with stack := stack } := by
  unfold push
  cases st.stack.push ty <;> simp [eq_comm]

theorem pop_eq_ok {st st' : VerifyState} {ty : TypeId} {span : Span} :
    st.pop span = .ok (ty, st') ↔
      ∃ stack, st.stack.pop = some (ty, stack) ∧ st' = { st with stack := stack } := by
  unfold pop
  cases st.stack.pop with
  | none => simp
  | some p =>
    obtain ⟨ty', stack'⟩ := p
    simp only [Except.ok.injEq, Prod.mk.injEq, Option.some.injEq]
    constructor
    · rintro ⟨rfl, rfl⟩
      exact ⟨stack', ⟨rfl, rfl⟩, rfl⟩
    · rintro ⟨stack, ⟨rfl, rfl⟩, rfl⟩
      exact ⟨rfl, rfl⟩

theorem pushAll_eq_ok {st st' : VerifyState} {tys : List TypeId} {span : Span} :
    st.pushAll tys span = .ok st' ↔
      ∃ stack, st.stack.pushAll tys = some stack ∧ st' = { st with stack := stack } := by
  unfold pushAll
  cases st.stack.pushAll tys <;> simp [eq_comm]

@[simp] theorem addSite_stack (st : VerifyState) (site : Site) :
    (st.addSite site).stack = st.stack := by
  unfold addSite
  split <;> rfl

@[simp] theorem addSite_terminated (st : VerifyState) (site : Site) :
    (st.addSite site).terminated = st.terminated := by
  unfold addSite
  split <;> rfl

end VerifyState

theorem checkTarget_eq_ok {w : Word} {stack : TypeStack} {tgt : BlockId} {e₁ e₂ e₃ : VerifyError}
    {u : Unit} (h : checkTarget w stack tgt e₁ e₂ e₃ = .ok u) :
    ∃ t, findBlock w tgt = some t ∧ t.entryStack.items = stack.items.reverse := by
  unfold checkTarget at h
  rw [bind_eq_ok] at h
  obtain ⟨t, ht, h⟩ := h
  rw [bind_eq_ok] at h
  obtain ⟨_, _, h⟩ := h
  exact ⟨t, expect_eq_ok.mp ht, require_eq_ok.mp h⟩

theorem Accepted.block {w : Word} (h : Accepted w) {b : Block} (hb : b ∈ w.blocks.items) :
    ∃ st, b.ops.items.foldlM (verifyOp w) (.entry b) = .ok st ∧ st.terminated = true := by
  unfold Accepted verifyWord at h
  simp only [bind_eq_ok] at h
  obtain ⟨_, _, _, _, _, _, _, hblocks, _⟩ := h
  have hb' := forM_eq_ok.mp hblocks b hb
  unfold verifyBlock at hb'
  rw [bind_eq_ok] at hb'
  obtain ⟨st, hst, hterm⟩ := hb'
  exact ⟨st, hst, require_eq_ok.mp hterm⟩

theorem Accepted.entry {w : Word} (h : Accepted w) :
    ∃ b, findBlock w w.entry = some b ∧ b.entryStack.items = w.sig.inputs.items := by
  unfold Accepted verifyWord at h
  simp only [bind_eq_ok] at h
  obtain ⟨b, hb, _, _, _, hitems, _⟩ := h
  exact ⟨b, expect_eq_ok.mp hb, require_eq_ok.mp hitems⟩

/-!
## How many entries an operation takes and leaves

Every operation first pops and then pushes a number of entries that its payload alone
determines.  The verifier, the machine and the abstract interpreter agree on these
two numbers.
-/

namespace OpKind

def pops : OpKind → Nat
  | .constI64 _ | .constBool _ | .constStr _ | .addrOf _ _ _ | .mmioPlace _ _ _
  | .scopedEnter _ _ | .taskSpawn _ _ | .interruptDisable | .interruptEnable
  | .localGet _ _ | .br _ | .ret => 0
  | .ptrAddConst _ _ | .dup _ | .drop _ | .notBool | .localSet _ _ | .cast _ _ | .bitcast _ _
  | .load _ | .mmioVolLoad _ _ _ _ _ | .mmioVolLoadField _ _ _ _ _ _ _ _ | .trapIfFalse _
  | .brIf _ _ => 1
  | .ptrAddIndex _ _ | .swap _ _ | .addI64 | .subI64 | .mulI64 | .cmp _ _ | .andBool | .orBool
  | .store _ | .mmioVolStore _ _ _ _ _ _ | .mmioVolStoreField _ _ _ _ _ _ _ _ _ => 2
  | .call _ sig _ _ _ => sig.inLen

def pushes : OpKind → Nat
  | .constI64 _ | .constBool _ | .constStr _ | .addrOf _ _ _ | .mmioPlace _ _ _
  | .scopedEnter _ _ | .taskSpawn _ _ | .localGet _ _ | .ptrAddConst _ _ | .notBool
  | .cast _ _ | .bitcast _ _ | .load _ | .mmioVolLoad _ _ _ _ _
  | .mmioVolLoadField _ _ _ _ _ _ _ _ | .ptrAddIndex _ _ | .addI64 | .subI64 | .mulI64
  | .cmp _ _ | .andBool | .orBool => 1
  | .dup _ | .swap _ _ => 2
  | .interruptDisable | .interruptEnable | .drop _ | .localSet _ _ | .store _
  | .mmioVolStore _ _ _ _ _ _ | .mmioVolStoreField _ _ _ _ _ _ _ _ _ | .trapIfFalse _
  | .br _ | .brIf _ _ | .ret => 0
  | .call _ sig _ _ _ => sig.outLen

end OpKind

namespace VerifyState

variable {st st' : VerifyState} {ty : TypeId} {span : Span}

theorem push_depth (h : st.push ty span = .ok st') : st'.stack.depth = st.stack.depth + 1 := by
  obtain ⟨stack, hpush, rfl⟩ := push_eq_ok.mp h
  unfold BoundedStack.depth
  rw [BoundedStack.push_eq_some.mp hpush, List.length_cons]

theorem pop_depth (h : st.pop span = .ok (ty, st')) : st.stack.depth = st'.stack.depth + 1 := by
  obtain ⟨stack, hpop, rfl⟩ := pop_eq_ok.mp h
  unfold BoundedStack.depth
  rw [BoundedStack.pop_eq_some.mp hpop, List.length_cons]

theorem pushAll_depth {tys : List TypeId} (h : st.pushAll tys span = .ok st') :
    st'.stack.depth = st.stack.depth + tys.length := by
  obtain ⟨stack, hpush, rfl⟩ := pushAll_eq_ok.mp h
  unfold BoundedStack.depth
  rw [BoundedStack.pushAll_eq_some.mp hpush, List.length_append, List.length_reverse, Nat.add_comm]

end VerifyState

/-- The verifier's stack has the entries an operation takes, and changes by what it
takes and leaves. -/
theorem verifyOp_depth {w : Word} {st st' : VerifyState} {op : Op}
    (h : verifyOp w st op = .ok st') :
    op.kind.pops ≤ st.stack.depth ∧
      st'.stack.depth = st.stack.depth - op.kind.pops + op.kind.pushes := by
  obtain ⟨kind, span⟩ := op
  unfold verifyOp at h
  rw [bind_eq_ok] at h
  obtain ⟨_, -, h⟩ := h
  have push := @VerifyState.push_depth
  have pop := @VerifyState.pop_depth
  cases kind with
  | addrOf place isMut base =>
    cases isMut <;> exact ⟨Nat.zero_le _, push h⟩
  | mmioPlace place aperture offset =>
    simp only [bind_eq_ok] at h
    obtain ⟨-, -, -, -, hpush⟩ := h
    have := push hpush
    rw [VerifyState.addSite_stack] at this
    exact ⟨Nat.zero_le _, this⟩
  | call name sig performs requires bound =>
    simp only [bind_eq_ok, Prod.exists] at h
    obtain ⟨tys, stack, hpop, -, -, hpush⟩ := h
    obtain ⟨hitems, hlen⟩ := BoundedStack.popN_eq_some.mp (expect_eq_ok.mp hpop)
    have hall := VerifyState.pushAll_depth hpush
    have hdepth : st.stack.depth = sig.inLen + stack.depth := by
      unfold BoundedStack.depth
      rw [hitems, List.length_append, hlen]
    simp only [OpKind.pops, OpKind.pushes]
    change st'.stack.depth = stack.depth + sig.outLen at hall
    omega
  | _ =>
    simp only [bind_eq_ok, Prod.exists, pure_eq_ok] at h
    simp only [OpKind.pops, OpKind.pushes]
    grind [VerifyState.terminate]

end Tyu

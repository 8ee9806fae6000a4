import Tyu.Ir.Verify
import Tyu.Ir.Exec

/-!
# The verifier is a sound type system

An accepted word never faults: along every run, whatever the world answers, the types on the
machine's stack are the types the verifier simulated at that point of the block.
-/

namespace Tyu

open Lib

def Typed (st : VerifyState) (m : Machine) : Prop := m.stack.map Cell.ty = st.stack

theorem Typed.push {st st' : VerifyState} {m : Machine} {ty : TypeId} {span : Span}
    (h : Typed st m) (hp : st.push ty span = .ok st') (v : Value) :
    ∃ m', m.push ⟨v, ty⟩ = .ok m' ∧ Typed st' m' ∧ st'.terminated = st.terminated := by
  obtain ⟨stack, hpush, rfl⟩ := VerifyState.push_eq_ok.mp hp
  have hmap := BoundedStack.push_map Cell.ty m.stack ⟨v, ty⟩
  rw [show m.stack.map Cell.ty = st.stack from h] at hmap
  obtain ⟨mstack, hm, rfl⟩ := Option.map_eq_some_iff.mp (hmap.symm.trans hpush)
  refine ⟨{ m with stack := mstack }, ?_, rfl, rfl⟩
  unfold Machine.push
  rw [hm]

theorem Typed.pop {st st' : VerifyState} {m : Machine} {ty : TypeId} {span : Span}
    (h : Typed st m) (hp : st.pop span = .ok (ty, st')) :
    ∃ v m', m.pop = .ok (⟨v, ty⟩, m') ∧ Typed st' m' ∧ st'.terminated = st.terminated ∧
      st'.sites = st.sites := by
  obtain ⟨stack, hpop, rfl⟩ := VerifyState.pop_eq_ok.mp hp
  have hmap := BoundedStack.pop_map Cell.ty m.stack
  rw [show m.stack.map Cell.ty = st.stack from h, hpop] at hmap
  obtain ⟨⟨c, mstack⟩, hm, hc⟩ := Option.map_eq_some_iff.mp hmap.symm
  obtain ⟨rfl, rfl⟩ := Prod.mk.inj hc
  refine ⟨c.value, { m with stack := mstack }, ?_, rfl, rfl, rfl⟩
  unfold Machine.pop
  rw [hm]

theorem Typed.popN {st : VerifyState} {m : Machine} {n : Nat} {tys : List TypeId}
    {stack : TypeStack} (h : Typed st m) (hp : st.stack.popN n = some (tys, stack)) :
    ∃ cs m', m.popN n = .ok (cs, m') ∧ Typed { st with stack := stack } m' := by
  have hmap := BoundedStack.popN_map Cell.ty m.stack n
  rw [show m.stack.map Cell.ty = st.stack from h, hp] at hmap
  obtain ⟨⟨cs, mstack⟩, hm, hc⟩ := Option.map_eq_some_iff.mp hmap.symm
  obtain ⟨rfl, rfl⟩ := Prod.mk.inj hc
  refine ⟨cs, { m with stack := mstack }, ?_, rfl⟩
  unfold Machine.popN
  rw [hm]

theorem Typed.pushAll {st st' : VerifyState} {m : Machine} {tys : List TypeId} {span : Span}
    {cs : List Cell} (h : Typed st m) (hp : st.pushAll tys span = .ok st')
    (hcs : cs.map Cell.ty = tys) :
    ∃ m', m.pushAll cs = .ok m' ∧ Typed st' m' ∧ st'.terminated = st.terminated := by
  obtain ⟨stack, hpush, rfl⟩ := VerifyState.pushAll_eq_ok.mp hp
  have hmap := BoundedStack.pushAll_map Cell.ty m.stack cs
  rw [show m.stack.map Cell.ty = st.stack from h, hcs, hpush] at hmap
  obtain ⟨mstack, hm, rfl⟩ := Option.map_eq_some_iff.mp hmap.symm
  refine ⟨{ m with stack := mstack }, ?_, rfl, rfl⟩
  unfold Machine.pushAll
  rw [hm]

theorem callResults_types (W : World) (m : Machine) (name : Atom) (args : List Int)
    (outs : List TypeId) : (callResults W m name args outs).map Cell.ty = outs := by
  refine List.ext_getElem? fun i => ?_
  rw [callResults, List.getElem?_map, List.getElem?_mapIdx, Option.map_map]
  cases outs[i]? <;> rfl

/-! ## One operation -/

/-- What the verifier has established when an operation is over: the machine has the
simulated types, and the block goes on, or they are those of the block that control
goes to, or they are acceptable as the word's outputs.  A trap ends the run. -/
def ControlOk (w : Word) (st : VerifyState) (m : Machine) : Control → Prop
  | .next => Typed st m ∧ st.terminated = false
  | .goto tgt =>
    Typed st m ∧ ∃ t, findBlock w tgt = some t ∧ t.entryStack.items = st.stack.items.reverse
  | .done => Typed st m ∧ typesOk w st.stack.items.reverse w.sig.outputs.items
  | .trap _ => True

def Follows (W : World) (w : Word) (m : Machine) (kind : OpKind) (st' : VerifyState) : Prop :=
  ∃ m' ctl, execOp W kind m = .ok (m', ctl) ∧ ControlOk w st' m' ctl

section Step

variable {W : World} {w : Word} {st st' : VerifyState} {m : Machine} {span : Span}

theorem follows_pushVal {kind : OpKind} {v : Int} {ty : TypeId}
    (hex : execOp W kind m = pushVal m v ty) (hm : Typed st m) (hlive : st.terminated = false)
    (h : st.push ty span = .ok st') : Follows W w m kind st' := by
  obtain ⟨m', hpush, hm', hterm⟩ := hm.push h ⟨v, none⟩
  refine ⟨m', .next, ?_, hm', hterm.trans hlive⟩
  rw [hex, pushVal, hpush]
  rfl

theorem follows_binop {kind : OpKind} {f : Int → Int → Int} {ta tb ty : TypeId}
    {st₁ st₂ : VerifyState} (hex : execOp W kind m = binop m ty f) (hm : Typed st m)
    (hlive : st.terminated = false) (hb : st.pop span = .ok (tb, st₁))
    (ha : st₁.pop span = .ok (ta, st₂)) (hpush : st₂.push ty span = .ok st') :
    Follows W w m kind st' := by
  obtain ⟨vb, m₁, hmb, hm₁, ht₁, -⟩ := hm.pop hb
  obtain ⟨va, m₂, hma, hm₂, ht₂, -⟩ := hm₁.pop ha
  obtain ⟨m₃, hm₃, hty, ht₃⟩ := hm₂.push hpush ⟨f va.val vb.val, none⟩
  refine ⟨m₃, .next, ?_, hty, ht₃.trans (ht₂.trans (ht₁.trans hlive))⟩
  rw [hex, binop, hmb]
  simp only [bind, Except.bind, hma, Cell.val, hm₃]
  rfl

theorem follows_readTop {kind : OpKind} {f : Int → Int} {ta ty : TypeId} {st₁ : VerifyState}
    (hex : execOp W kind m = readTop m ty f) (hm : Typed st m) (hlive : st.terminated = false)
    (ha : st.pop span = .ok (ta, st₁)) (hpush : st₁.push ty span = .ok st') :
    Follows W w m kind st' := by
  obtain ⟨va, m₁, hma, hm₁, ht₁, -⟩ := hm.pop ha
  obtain ⟨m₂, hm₂, hty, ht₂⟩ := hm₁.push hpush ⟨f va.val, none⟩
  refine ⟨m₂, .next, ?_, hty, ht₂.trans (ht₁.trans hlive)⟩
  rw [hex, readTop, hma]
  simp only [bind, Except.bind, Cell.val, hm₂]
  rfl

theorem follows_pop2 {kind : OpKind} {tv ta : TypeId} {st₁ : VerifyState}
    (hex : execOp W kind m = (do
      let (_, m) ← m.pop
      let (_, m) ← m.pop
      pure (m, .next))) (hm : Typed st m) (hlive : st.terminated = false)
    (hv : st.pop span = .ok (tv, st₁)) (ha : st₁.pop span = .ok (ta, st')) :
    Follows W w m kind st' := by
  obtain ⟨v, m₁, hm₁, hty₁, ht₁, -⟩ := hm.pop hv
  obtain ⟨a, m₂, hm₂, hty₂, ht₂, -⟩ := hty₁.pop ha
  refine ⟨m₂, .next, ?_, hty₂, ht₂.trans (ht₁.trans hlive)⟩
  rw [hex, hm₁]
  simp only [bind, Except.bind, hm₂]
  rfl

/-- One operation that the verifier lets pass: the machine does not fault on it, its
types stay those the verifier simulates, and control goes where the verifier looked. -/
theorem verifyOp_follows {op : Op} (h : verifyOp w st op = .ok st') (hm : Typed st m) :
    Follows W w m op.kind st' := by
  obtain ⟨kind, span⟩ := op
  unfold verifyOp at h
  rw [bind_eq_ok] at h
  obtain ⟨_, hreq, h⟩ := h
  have hlive : st.terminated = false := require_eq_ok.mp hreq
  cases kind with
  | constI64 v => exact follows_pushVal rfl hm hlive h
  | constBool b => exact follows_pushVal rfl hm hlive h
  | constStr s => exact follows_pushVal rfl hm hlive h
  | addrOf place isMut base =>
    cases isMut with
    | false => exact follows_pushVal rfl hm hlive h
    | true => exact follows_pushVal rfl hm hlive h
  | mmioPlace place aperture offset =>
    simp only [bind_eq_ok] at h
    obtain ⟨-, -, -, -, hpush⟩ := h
    have hm' : Typed (st.addSite ⟨place, aperture, offset⟩) m := by
      rw [Typed, VerifyState.addSite_stack]
      exact hm
    obtain ⟨m', hex, hty, ht⟩ :=
      hm'.push hpush ⟨W.apertureBase aperture + offset, some ⟨place, aperture, offset⟩⟩
    refine ⟨m', .next, ?_, hty, ht.trans ((st.addSite_terminated _).trans hlive)⟩
    rw [execOp, hex]
    rfl
  | scopedEnter ty len =>
    simp only [bind_eq_ok] at h
    obtain ⟨-, -, hpush⟩ := h
    exact follows_pushVal rfl hm hlive hpush
  | taskSpawn name taskTy => exact follows_pushVal rfl hm hlive h
  | ptrAddConst ty offset =>
    simp only [bind_eq_ok, Prod.exists] at h
    obtain ⟨top, st₁, hpop, -, -, hpush⟩ := h
    obtain ⟨v, m₁, hm₁, hty₁, ht₁, -⟩ := hm.pop hpop
    obtain ⟨m₂, hm₂, hty₂, ht₂⟩ := hty₁.push hpush (v.shift offset)
    refine ⟨m₂, .next, ?_, hty₂, ht₂.trans (ht₁.trans hlive)⟩
    simp only [execOp, hm₁, bind, Except.bind, hm₂]
    rfl
  | ptrAddIndex ty scale =>
    simp only [bind_eq_ok, Prod.exists] at h
    obtain ⟨idx, st₁, hpop₁, -, -, top, st₂, hpop₂, -, -, hpush⟩ := h
    obtain ⟨i, m₁, hm₁, hty₁, ht₁, -⟩ := hm.pop hpop₁
    obtain ⟨v, m₂, hm₂, hty₂, ht₂, -⟩ := hty₁.pop hpop₂
    obtain ⟨m₃, hm₃, hty₃, ht₃⟩ := hty₂.push hpush (v.shift (i.val * scale))
    refine ⟨m₃, .next, ?_, hty₃, ht₃.trans (ht₂.trans (ht₁.trans hlive))⟩
    simp only [execOp, hm₁, bind, Except.bind, hm₂, Cell.val, hm₃]
    rfl
  | dup ty =>
    simp only [bind_eq_ok, Prod.exists] at h
    obtain ⟨top, st₁, hpop, -, -, st₂, hpush₁, hpush₂⟩ := h
    obtain ⟨v, m₁, hm₁, hty₁, ht₁, -⟩ := hm.pop hpop
    obtain ⟨m₂, hm₂, hty₂, ht₂⟩ := hty₁.push hpush₁ v
    obtain ⟨m₃, hm₃, hty₃, ht₃⟩ := hty₂.push hpush₂ v
    refine ⟨m₃, .next, ?_, hty₃, ht₃.trans (ht₂.trans (ht₁.trans hlive))⟩
    simp only [execOp, hm₁, bind, Except.bind, hm₂, hm₃]
    rfl
  | drop ty =>
    simp only [bind_eq_ok, Prod.exists, pure_eq_ok] at h
    obtain ⟨top, st₁, hpop, -, -, rfl⟩ := h
    obtain ⟨v, m₁, hm₁, hty₁, ht₁, -⟩ := hm.pop hpop
    refine ⟨m₁, .next, ?_, hty₁, ht₁.trans hlive⟩
    simp only [execOp, hm₁, bind, Except.bind]
    rfl
  | swap a b =>
    simp only [bind_eq_ok, Prod.exists] at h
    obtain ⟨top, st₁, hpop₁, below, st₂, hpop₂, -, -, st₃, hpush₁, hpush₂⟩ := h
    obtain ⟨vb, m₁, hm₁, hty₁, ht₁, -⟩ := hm.pop hpop₁
    obtain ⟨va, m₂, hm₂, hty₂, ht₂, -⟩ := hty₁.pop hpop₂
    obtain ⟨m₃, hm₃, hty₃, ht₃⟩ := hty₂.push hpush₁ vb
    obtain ⟨m₄, hm₄, hty₄, ht₄⟩ := hty₃.push hpush₂ va
    refine ⟨m₄, .next, ?_, hty₄, ht₄.trans (ht₃.trans (ht₂.trans (ht₁.trans hlive)))⟩
    simp only [execOp, hm₁, bind, Except.bind, hm₂, hm₃, hm₄]
    rfl
  | addI64 =>
    simp only [bind_eq_ok, Prod.exists] at h
    obtain ⟨tb, st₁, hb, ta, st₂, ha, hpush⟩ := h
    exact follows_binop (f := fun a b => wrapI64 (a + b)) rfl hm hlive hb ha hpush
  | subI64 =>
    simp only [bind_eq_ok, Prod.exists] at h
    obtain ⟨tb, st₁, hb, ta, st₂, ha, hpush⟩ := h
    exact follows_binop (f := fun a b => wrapI64 (a - b)) rfl hm hlive hb ha hpush
  | mulI64 =>
    simp only [bind_eq_ok, Prod.exists] at h
    obtain ⟨tb, st₁, hb, ta, st₂, ha, hpush⟩ := h
    exact follows_binop (f := fun a b => wrapI64 (a * b)) rfl hm hlive hb ha hpush
  | cmp out k =>
    simp only [bind_eq_ok, Prod.exists] at h
    obtain ⟨tb, st₁, hb, ta, st₂, ha, hpush⟩ := h
    exact follows_binop (f := fun a b => boolVal (k.holds a b)) rfl hm hlive hb ha hpush
  | andBool =>
    simp only [bind_eq_ok, Prod.exists] at h
    obtain ⟨tb, st₁, hb, ta, st₂, ha, hpush⟩ := h
    exact follows_binop (f := fun a b => boolVal (a != 0 && b != 0)) rfl hm hlive hb ha hpush
  | orBool =>
    simp only [bind_eq_ok, Prod.exists] at h
    obtain ⟨tb, st₁, hb, ta, st₂, ha, hpush⟩ := h
    exact follows_binop (f := fun a b => boolVal (a != 0 || b != 0)) rfl hm hlive hb ha hpush
  | notBool =>
    simp only [bind_eq_ok, Prod.exists] at h
    obtain ⟨top, st₁, hpop, hpush⟩ := h
    obtain ⟨v, m₁, hm₁, hty₁, ht₁, -⟩ := hm.pop hpop
    obtain ⟨m₂, hm₂, hty₂, ht₂⟩ := hty₁.push hpush ⟨boolVal (v.val == 0), none⟩
    refine ⟨m₂, .next, ?_, hty₂, ht₂.trans (ht₁.trans hlive)⟩
    simp only [execOp, hm₁, bind, Except.bind, Cell.val, hm₂]
    rfl
  | interruptDisable =>
    cases pure_eq_ok.mp h
    exact ⟨m, .next, rfl, hm, hlive⟩
  | interruptEnable =>
    cases pure_eq_ok.mp h
    exact ⟨m, .next, rfl, hm, hlive⟩
  | localSet slot ty =>
    simp only [bind_eq_ok, Prod.exists, pure_eq_ok] at h
    obtain ⟨top, st₁, hpop, -, -, rfl⟩ := h
    obtain ⟨v, m₁, hm₁, hty₁, ht₁, -⟩ := hm.pop hpop
    refine ⟨m₁.setLocal slot v, .next, ?_, hty₁, ht₁.trans hlive⟩
    simp only [execOp, hm₁, bind, Except.bind]
    rfl
  | localGet slot ty =>
    obtain ⟨m₁, hm₁, hty₁, ht₁⟩ := hm.push h (m.getLocal slot)
    refine ⟨m₁, .next, ?_, hty₁, ht₁.trans hlive⟩
    simp only [execOp, bind, Except.bind, hm₁]
    rfl
  | cast src tgt =>
    simp only [bind_eq_ok, Prod.exists] at h
    obtain ⟨top, st₁, hpop, -, -, hpush⟩ := h
    obtain ⟨v, m₁, hm₁, hty₁, ht₁, -⟩ := hm.pop hpop
    obtain ⟨m₂, hm₂, hty₂, ht₂⟩ := hty₁.push hpush v
    refine ⟨m₂, .next, ?_, hty₂, ht₂.trans (ht₁.trans hlive)⟩
    simp only [execOp, hm₁, bind, Except.bind, hm₂]
    rfl
  | bitcast src tgt =>
    simp only [bind_eq_ok, Prod.exists] at h
    obtain ⟨top, st₁, hpop, -, -, hpush⟩ := h
    obtain ⟨v, m₁, hm₁, hty₁, ht₁, -⟩ := hm.pop hpop
    obtain ⟨m₂, hm₂, hty₂, ht₂⟩ := hty₁.push hpush v
    refine ⟨m₂, .next, ?_, hty₂, ht₂.trans (ht₁.trans hlive)⟩
    simp only [execOp, hm₁, bind, Except.bind, hm₂]
    rfl
  | call name sig performs requires bound =>
    simp only [bind_eq_ok, Prod.exists] at h
    obtain ⟨tys, stack, hpop, -, -, hpush⟩ := h
    obtain ⟨args, m₁, hm₁, hty₁⟩ := hm.popN (expect_eq_ok.mp hpop)
    cases htrap : W.callTrap m₁.clock name (args.map Cell.val) with
    | some code =>
      refine ⟨m₁, .trap code, ?_, trivial⟩
      simp only [execOp, hm₁, bind, Except.bind, htrap]
      rfl
    | none =>
      obtain ⟨m₂, hm₂, hty₂, ht₂⟩ :=
        hty₁.pushAll hpush (callResults_types W m₁ name (args.map Cell.val) sig.outputs.items)
      refine ⟨m₂, .next, ?_, hty₂, ht₂.trans hlive⟩
      simp only [execOp, hm₁, bind, Except.bind, htrap, hm₂]
      rfl
  | load ty =>
    simp only [bind_eq_ok, Prod.exists] at h
    obtain ⟨addr, st₁, hpop, -, -, hpush⟩ := h
    exact follows_readTop (f := fun a => W.load _ _ a) rfl hm hlive hpop hpush
  | store ty =>
    simp only [bind_eq_ok, Prod.exists, pure_eq_ok] at h
    obtain ⟨tv, st₁, hpop₁, ta, st₂, hpop₂, -, -, -, -, rfl⟩ := h
    obtain ⟨v, m₁, hm₁, hty₁, ht₁, -⟩ := hm.pop hpop₁
    obtain ⟨a, m₂, hm₂, hty₂, ht₂, -⟩ := hty₁.pop hpop₂
    refine ⟨{ m₂ with mem := m₂.mem.record a.val v.val }, .next, ?_, hty₂,
      ht₂.trans (ht₁.trans hlive)⟩
    simp only [execOp, hm₁, bind, Except.bind, hm₂]
    rfl
  | mmioVolLoad ty place rk am bar =>
    simp only [bind_eq_ok, Prod.exists] at h
    obtain ⟨addr, st₁, hpop, -, -, -, -, hpush⟩ := h
    exact follows_readTop (f := fun _ => W.mmioRead _ _ _) rfl hm hlive hpop hpush
  | mmioVolStore ty place wk rk am bar =>
    simp only [bind_eq_ok, Prod.exists, pure_eq_ok] at h
    obtain ⟨tv, st₁, hpop₁, ta, st₂, hpop₂, -, -, -, -, -, -, -, -, rfl⟩ := h
    exact follows_pop2 rfl hm hlive hpop₁ hpop₂
  | mmioVolLoadField regTy fieldTy place mask shift rk am bar =>
    simp only [bind_eq_ok, Prod.exists] at h
    obtain ⟨addr, st₁, hpop, -, -, -, -, hpush⟩ := h
    exact follows_readTop (f := fun _ => W.mmioRead _ _ _) rfl hm hlive hpop hpush
  | mmioVolStoreField regTy fieldTy place mask shift wk rk am bar =>
    simp only [bind_eq_ok, Prod.exists, pure_eq_ok] at h
    obtain ⟨tv, st₁, hpop₁, ta, st₂, hpop₂, -, -, -, -, -, -, rfl⟩ := h
    exact follows_pop2 rfl hm hlive hpop₁ hpop₂
  | trapIfFalse code =>
    simp only [bind_eq_ok, Prod.exists, pure_eq_ok] at h
    obtain ⟨top, st₁, hpop, -, -, rfl⟩ := h
    obtain ⟨v, m₁, hm₁, hty₁, ht₁, -⟩ := hm.pop hpop
    refine ⟨m₁, if v.val = 0 then .trap code else .next, ?_, ?_⟩
    · simp only [execOp, hm₁, bind, Except.bind]
      rfl
    · split
      · trivial
      · exact ⟨hty₁, ht₁.trans hlive⟩
  | br target =>
    simp only [bind_eq_ok, pure_eq_ok] at h
    obtain ⟨_, htgt, rfl⟩ := h
    exact ⟨m, .goto target, rfl, hm, checkTarget_eq_ok htgt⟩
  | brIf thenTgt elseTgt =>
    simp only [bind_eq_ok, Prod.exists, pure_eq_ok] at h
    obtain ⟨cond, st₁, hpop, -, -, _, hthen, _, helse, rfl⟩ := h
    obtain ⟨v, m₁, hm₁, hty₁, -, -⟩ := hm.pop hpop
    refine ⟨m₁, .goto (if v.val ≠ 0 then thenTgt else elseTgt), ?_, hty₁, ?_⟩
    · simp only [execOp, hm₁, bind, Except.bind]
      rfl
    · split
      · exact checkTarget_eq_ok hthen
      · exact checkTarget_eq_ok helse
  | ret =>
    simp only [bind_eq_ok, pure_eq_ok] at h
    obtain ⟨-, -, _, htypes, rfl⟩ := h
    exact ⟨m, .done, rfl, hm, require_eq_ok.mp htypes⟩

end Step

/-! ## Runs -/

def Machine.stackTypes (m : Machine) : List TypeId := (m.stack.items.map Cell.ty).reverse

theorem Typed.stackTypes {st : VerifyState} {m : Machine} (h : Typed st m) :
    m.stackTypes = st.stack.items.reverse := by
  rw [← show m.stack.map Cell.ty = st.stack from h]
  rfl

theorem typed_entry {b : Block} {m : Machine} (h : m.stackTypes = b.entryStack.items) :
    Typed (.entry b) m := by
  refine BoundedStack.ext ?_
  have hrev : b.entryStack.items.reverse = m.stack.items.map Cell.ty := by
    rw [← h, Machine.stackTypes, List.reverse_reverse]
  exact hrev.symm

theorem forget_stackTypes (m : Machine) : m.tick.forget.stackTypes = m.stackTypes := by
  unfold Machine.stackTypes Machine.forget Machine.tick
  simp only [BoundedStack.map_items, List.map_map]
  rfl

/-- The invariant of a run: the machine has the types that the verifier reached after
the operations already run in this block. -/
def Consistent (w : Word) (c : Config) : Prop :=
  ∃ b st, findBlock w c.block = some b ∧
    (b.ops.items.take c.pc).foldlM (verifyOp w) (.entry b) = .ok st ∧
    Typed st c.machine ∧ st.terminated = false

/-- A consistent point of an accepted word has an operation to run, and the machine
follows the verifier over it. -/
theorem Consistent.follows {w : Word} (hw : Accepted w) {c : Config} (hc : Consistent w c)
    (W : World) :
    ∃ b op st', findBlock w c.block = some b ∧ currentOp w c = some op ∧
      (b.ops.items.take (c.pc + 1)).foldlM (verifyOp w) (.entry b) = .ok st' ∧
      Follows W w c.machine op.kind st' := by
  obtain ⟨b, st, hb, hpre, hty, hlive⟩ := hc
  obtain ⟨stEnd, hall, hterm⟩ := hw.block (findBlock_mem hb).1
  have hlt : c.pc < b.ops.items.length := by
    -- at the end of the block the verifier has terminated, and here it has not
    by_contra hge
    rw [List.take_of_length_le (Nat.le_of_not_lt hge), hall] at hpre
    cases hpre
    rw [hterm] at hlive
    cases hlive
  have hop : b.ops.items[c.pc]? = some b.ops.items[c.pc] := List.getElem?_eq_getElem hlt
  obtain ⟨st', hstep, hpre'⟩ := foldlM_at hall hpre hop
  refine ⟨b, b.ops.items[c.pc], st', hb, ?_, hpre', verifyOp_follows hstep hty⟩
  rw [currentOp, hb, Option.bind_some, hop]

theorem Consistent.step {w : Word} (hw : Accepted w) {W : World} {c c' : Config}
    (hc : Consistent w c) (hstep : wordStep W w c = .running c') : Consistent w c' := by
  obtain ⟨b, op, st', hb, hop, hpre, m', ctl, hex, hok⟩ := hc.follows hw W
  obtain ⟨op', m, ctl', hop', hex', hfollow⟩ := wordStep_eq_running.mp hstep
  rw [hop] at hop'
  cases hop'
  rw [hex] at hex'
  cases hex'
  rcases follow_eq_running.mp hfollow with ⟨rfl, rfl⟩ | ⟨tgt, rfl, rfl⟩
  · exact ⟨b, st', hb, hpre, hok.1, hok.2⟩
  · obtain ⟨hty, t, ht, hentry⟩ := hok
    refine ⟨t, .entry t, ht, foldlM_nil_eq_ok.mpr rfl, typed_entry ?_, rfl⟩
    rw [forget_stackTypes, hty.stackTypes, hentry]

theorem Consistent.init {w : Word} (hw : Accepted w) {m : Machine}
    (hm : m.stackTypes = w.sig.inputs.items) : Consistent w ⟨w.entry, 0, m⟩ := by
  obtain ⟨b, hb, hitems⟩ := hw.entry
  exact ⟨b, .entry b, hb, foldlM_nil_eq_ok.mpr rfl, typed_entry (hm.trans hitems.symm), rfl⟩

theorem consistent_of_reachable {w : Word} (hw : Accepted w) {W : World}
    {start : Machine → Prop} (hstart : ∀ m, start m → m.stackTypes = w.sig.inputs.items)
    {c : Config} (hc : (wordSystem W w start).Reachable c) : Consistent w c := by
  refine System.Reach.invariant ?_ (fun s s' hs _ hstep => hs.step hw hstep) hc
  rintro ⟨block, pc, m⟩ ⟨rfl, rfl, hm⟩
  exact Consistent.init hw (hstart m hm)

/-- What the type system promises at a point of a run of `w`: the next operation
neither pops an empty stack nor pushes on a full one, and there is one; a block is
entered with exactly its declared types; a return hands over as many values as the
signature declares, of acceptable types. -/
structure TypeSafe (W : World) (w : Word) (c : Config) : Prop where
  noFault : ∀ f, wordStep W w c ≠ .faulted f
  notStuck : wordStep W w c ≠ .stuck
  entered : c.pc = 0 →
    ∃ b, findBlock w c.block = some b ∧ c.machine.stackTypes = b.entryStack.items
  returned : ∀ m, wordStep W w c = .returned m →
    m.stack.depth = w.sig.outLen ∧ typesOk w m.stackTypes w.sig.outputs.items

theorem Consistent.typeSafe {w : Word} (hw : Accepted w) {W : World} {c : Config}
    (hc : Consistent w c) : TypeSafe W w c := by
  obtain ⟨b, op, st', hb, hop, hpre, m', ctl, hex, hok⟩ := hc.follows hw W
  have hout : wordStep W w c = c.follow m' ctl := by
    rw [wordStep, hop]
    simp only [hex]
  refine ⟨?_, ?_, ?_, ?_⟩
  · intro f
    rw [hout]
    cases ctl <;> simp [Config.follow]
  · rw [hout]
    cases ctl <;> simp [Config.follow]
  · intro hpc
    obtain ⟨b₀, st, hb₀, hpre₀, hty, -⟩ := hc
    rw [hpc, List.take_zero, foldlM_nil_eq_ok] at hpre₀
    refine ⟨b₀, hb₀, ?_⟩
    rw [hty.stackTypes, ← hpre₀]
    exact List.reverse_reverse _
  · intro m hret
    rw [hout] at hret
    cases ctl with
    | done =>
      cases hret
      obtain ⟨hty, htypes⟩ := hok
      rw [← hty.stackTypes] at htypes
      refine ⟨?_, htypes⟩
      have hlen := htypes.length_eq
      rwa [Machine.stackTypes, List.length_reverse, List.length_map] at hlen
    | next => cases hret
    | goto tgt => cases hret
    | trap code => cases hret

def countdown : Word where
  name := ⟨"countdown", by decide⟩
  sig := ⟨⟨[TY_I64], by decide⟩, ⟨[TY_I64], by decide⟩⟩
  performs := .empty
  requires := .empty
  bound := ⟨0, .slots 2⟩
  entry := ⟨0⟩
  types := ⟨[AT_EMPTY, AT_I64, AT_BOOL], three_types⟩
  typeSizes := ⟨[0, 8, 1], three_types⟩
  typeClasses := ⟨[.other, .i64, .bool], three_types⟩
  apertures := .new
  subtypeBases := ⟨[TY_EMPTY, TY_EMPTY, TY_EMPTY], three_types⟩
  blocks := ⟨[
    ⟨⟨0⟩, ⟨[TY_I64], by decide⟩, ⟨[⟨.br ⟨1⟩, .UNKNOWN⟩], by decide⟩⟩,
    ⟨⟨1⟩, ⟨[TY_I64], by decide⟩, ⟨[⟨.dup TY_I64, .UNKNOWN⟩, ⟨.constI64 0, .UNKNOWN⟩,
      ⟨.cmp TY_BOOL .gt, .UNKNOWN⟩, ⟨.brIf ⟨2⟩ ⟨3⟩, .UNKNOWN⟩], by decide⟩⟩,
    ⟨⟨2⟩, ⟨[TY_I64], by decide⟩, ⟨[⟨.constI64 1, .UNKNOWN⟩, ⟨.subI64, .UNKNOWN⟩,
      ⟨.br ⟨1⟩, .UNKNOWN⟩], by decide⟩⟩,
    ⟨⟨3⟩, ⟨[TY_I64], by decide⟩, ⟨[⟨.ret, .UNKNOWN⟩], by decide⟩⟩], by decide⟩

/-- A machine with the one integer `n` on its stack. -/
def oneInteger (n : Int) : Machine :=
  ⟨⟨[⟨⟨n, none⟩, TY_I64⟩], one_value⟩, [], ⟨[], 0, 0⟩, 0⟩

end Tyu

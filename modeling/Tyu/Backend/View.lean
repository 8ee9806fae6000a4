import Tyu.Ir.Exec

/-! # What an operation does to values -/

namespace Tyu

open Lib

structure View where
  vals : List Int
  locals : List Int
  mem : Mem

def Machine.view (m : Machine) : View := ⟨m.values, m.locals.map Value.val, m.mem⟩

namespace View

def withVals (x : View) (vals : List Int) : View := { x with vals := vals }

/-- The topmost value is replaced by `f` of it. -/
def Unary (x x' : View) (f : Int → Int) : Prop :=
  ∃ a rest, x.vals = a :: rest ∧ x' = x.withVals (f a :: rest)

/-- The two topmost values are replaced by `f` of them; the right operand is on top. -/
def Binary (x x' : View) (f : Int → Int → Int) : Prop :=
  ∃ b a rest, x.vals = b :: a :: rest ∧ x' = x.withVals (f a b :: rest)

end View

def Acts (W : World) (clock : Nat) (kind : OpKind) (x x' : View) (ctl : Control) : Prop :=
  match kind with
  | .constI64 v => x' = x.withVals (v :: x.vals) ∧ ctl = .next
  | .constBool b => x' = x.withVals (boolVal b :: x.vals) ∧ ctl = .next
  | .constStr _ | .addrOf _ _ _ | .scopedEnter _ _ | .taskSpawn _ _ =>
    x' = x.withVals (W.address clock kind :: x.vals) ∧ ctl = .next
  | .mmioPlace _ aperture offset =>
    x' = x.withVals ((W.apertureBase aperture + offset) :: x.vals) ∧ ctl = .next
  | .ptrAddConst _ offset => x.Unary x' (fun p => wrapI64 (p + offset)) ∧ ctl = .next
  | .ptrAddIndex _ scale => x.Binary x' (fun p i => wrapI64 (p + i * scale)) ∧ ctl = .next
  | .dup _ => (∃ v rest, x.vals = v :: rest ∧ x' = x.withVals (v :: v :: rest)) ∧ ctl = .next
  | .drop _ => (∃ v rest, x.vals = v :: rest ∧ x' = x.withVals rest) ∧ ctl = .next
  | .swap _ _ =>
    (∃ b a rest, x.vals = b :: a :: rest ∧ x' = x.withVals (a :: b :: rest)) ∧ ctl = .next
  | .addI64 => x.Binary x' (fun a b => wrapI64 (a + b)) ∧ ctl = .next
  | .subI64 => x.Binary x' (fun a b => wrapI64 (a - b)) ∧ ctl = .next
  | .mulI64 => x.Binary x' (fun a b => wrapI64 (a * b)) ∧ ctl = .next
  | .cmp _ k => x.Binary x' (fun a b => boolVal (k.holds a b)) ∧ ctl = .next
  | .andBool => x.Binary x' (fun a b => boolVal (a != 0 && b != 0)) ∧ ctl = .next
  | .orBool => x.Binary x' (fun a b => boolVal (a != 0 || b != 0)) ∧ ctl = .next
  | .notBool => x.Unary x' (fun a => boolVal (a == 0)) ∧ ctl = .next
  | .interruptDisable | .interruptEnable => x' = x ∧ ctl = .next
  | .localSet slot _ =>
    (∃ v rest, x.vals = v :: rest ∧ x' = ⟨rest, x.locals.set slot v, x.mem⟩) ∧ ctl = .next
  | .localGet slot _ => x' = x.withVals (x.locals.getD slot 0 :: x.vals) ∧ ctl = .next
  | .cast _ _ | .bitcast _ _ => x.Unary x' id ∧ ctl = .next
  | .call name sig _ _ _ =>
    ∃ args rest, x.vals = args ++ rest ∧ args.length = sig.inLen ∧
      match W.callTrap clock name args with
      | some code => x' = x.withVals rest ∧ ctl = .trap code
      | none =>
        x' = x.withVals
          (((List.range sig.outLen).map (W.callResult clock name args)).reverse ++ rest) ∧ ctl = .next
  | .load _ => x.Unary x' (fun a => W.load clock x.mem a) ∧ ctl = .next
  | .store _ =>
    (∃ v a rest, x.vals = v :: a :: rest ∧ x' = ⟨rest, x.locals, x.mem.record a v⟩) ∧ ctl = .next
  | .trapIfFalse code =>
    ∃ v rest, x.vals = v :: rest ∧ x' = x.withVals rest ∧ ctl = if v = 0 then .trap code else .next
  | .br target => x' = x ∧ ctl = .goto target
  | .brIf thenTgt elseTgt =>
    ∃ v rest, x.vals = v :: rest ∧ x' = x.withVals rest ∧
      ctl = .goto (if v ≠ 0 then thenTgt else elseTgt)
  | .ret => x' = x ∧ ctl = .done
  | .mmioVolLoad _ _ _ _ _ | .mmioVolStore _ _ _ _ _ _ | .mmioVolLoadField _ _ _ _ _ _ _ _
  | .mmioVolStoreField _ _ _ _ _ _ _ _ _ => True

section

variable {W : World} {m m' : Machine} {ctl : Control}

theorem Machine.SameBut.view {vals : List Int} (h : m.SameBut m') (hv : m'.values = vals) :
    m'.view = m.view.withVals vals := by
  rw [Machine.view, View.withVals, Machine.view, hv, h.locals, h.mem]

theorem view_tick (m : Machine) : m.tick.view = m.view := rfl

theorem view_forget (m : Machine) : m.forget.view = m.view := by
  have hvals : m.forget.values = m.values := by
    simp only [Machine.values, Machine.forget, BoundedStack.map_items, List.map_map]
    rfl
  have hlocals : m.forget.locals.map Value.val = m.locals.map Value.val := by
    simp only [Machine.forget, List.map_map]
    rfl
  rw [Machine.view, hvals, hlocals]
  rfl

theorem acts_pushVal {v : Int} {ty : TypeId} (h : pushVal m v ty = .ok (m', ctl)) :
    m'.view = m.view.withVals (v :: m.view.vals) ∧ ctl = .next := by
  obtain ⟨hitems, hsame, hctl⟩ := of_pushVal h
  refine ⟨hsame.view ?_, hctl⟩
  rw [Machine.values, hitems]
  rfl

theorem acts_binop {ty : TypeId} {f : Int → Int → Int} (h : binop m ty f = .ok (m', ctl)) :
    m.view.Binary m'.view f ∧ ctl = .next := by
  obtain ⟨a, b, rest, hitems, hitems', hsame, hctl⟩ := of_binop h
  refine ⟨⟨b.val, a.val, rest.map Cell.val, ?_, hsame.view ?_⟩, hctl⟩
  · show m.values = _
    rw [Machine.values, hitems]
    rfl
  · rw [Machine.values, hitems']
    rfl

theorem acts_readTop {ty : TypeId} {f : Int → Int} (h : readTop m ty f = .ok (m', ctl)) :
    m.view.Unary m'.view f ∧ ctl = .next := by
  obtain ⟨a, rest, hitems, hitems', hsame, hctl⟩ := of_readTop h
  refine ⟨⟨a.val, rest.map Cell.val, ?_, hsame.view ?_⟩, hctl⟩
  · show m.values = _
    rw [Machine.values, hitems]
    rfl
  · rw [Machine.values, hitems']
    rfl

theorem values_push {c : Cell} (h : m.push c = .ok m') :
    m'.values = c.val :: m.values ∧ m.SameBut m' := by
  obtain ⟨hitems, hsame⟩ := Machine.of_push h
  rw [Machine.values, hitems]
  exact ⟨rfl, hsame⟩

theorem values_pop {c : Cell} (h : m.pop = .ok (c, m')) :
    m.values = c.val :: m'.values ∧ m.SameBut m' := by
  obtain ⟨hitems, hsame⟩ := Machine.of_pop h
  rw [Machine.values, hitems]
  exact ⟨rfl, hsame⟩

theorem callResults_vals (W : World) (m : Machine) (name : Atom) (args : List Int) (outs : List TypeId) :
    (callResults W m name args outs).map Cell.val =
      (List.range outs.length).map (W.callResult m.clock name args) := by
  refine List.ext_getElem ?_ fun i hi hi' => ?_
  · simp [callResults]
  · simp [callResults, Cell.val]

end

theorem acts_of_execOp {W : World} {kind : OpKind} {m m' : Machine} {ctl : Control}
    (h : execOp W kind m = .ok (m', ctl)) : Acts W m.clock kind m.view m'.view ctl := by
  cases kind with
  | constI64 v => exact acts_pushVal h
  | constBool b => exact acts_pushVal h
  | constStr span => exact acts_pushVal h
  | addrOf place isMut base => exact acts_pushVal h
  | scopedEnter ty len => exact acts_pushVal h
  | taskSpawn name ty => exact acts_pushVal h
  | mmioPlace place aperture offset =>
    simp only [execOp, bind_eq_ok, pure_eq_ok, Prod.mk.injEq] at h
    obtain ⟨m₁, hpush, rfl, rfl⟩ := h
    obtain ⟨hv, hsame⟩ := values_push hpush
    exact ⟨hsame.view hv, rfl⟩
  | ptrAddConst ty offset =>
    simp only [execOp, bind_eq_ok, pure_eq_ok, Prod.exists, Prod.mk.injEq] at h
    obtain ⟨p, m₁, hpop, m₂, hpush, rfl, rfl⟩ := h
    obtain ⟨hv, hsame⟩ := values_pop hpop
    obtain ⟨hv', hsame'⟩ := values_push hpush
    exact ⟨⟨p.val, m₁.values, hv, (hsame.trans hsame').view hv'⟩, rfl⟩
  | ptrAddIndex ty scale =>
    simp only [execOp, bind_eq_ok, pure_eq_ok, Prod.exists, Prod.mk.injEq] at h
    obtain ⟨i, m₁, hpop, p, m₂, hpop', m₃, hpush, rfl, rfl⟩ := h
    obtain ⟨hi, hsame⟩ := values_pop hpop
    obtain ⟨hp, hsame'⟩ := values_pop hpop'
    obtain ⟨hv, hsame''⟩ := values_push hpush
    refine ⟨⟨i.val, p.val, m₂.values, ?_, ((hsame.trans hsame').trans hsame'').view hv⟩, rfl⟩
    show m.values = _
    rw [hi, hp]
  | dup ty =>
    simp only [execOp, bind_eq_ok, pure_eq_ok, Prod.exists, Prod.mk.injEq] at h
    obtain ⟨c, m₁, hpop, m₂, hpush, m₃, hpush', rfl, rfl⟩ := h
    obtain ⟨hv, hsame⟩ := values_pop hpop
    obtain ⟨hv', hsame'⟩ := values_push hpush
    obtain ⟨hv'', hsame''⟩ := values_push hpush'
    rw [hv'] at hv''
    exact ⟨⟨c.val, m₁.values, hv, ((hsame.trans hsame').trans hsame'').view hv''⟩, rfl⟩
  | drop ty =>
    simp only [execOp, bind_eq_ok, pure_eq_ok, Prod.exists, Prod.mk.injEq] at h
    obtain ⟨c, m₁, hpop, rfl, rfl⟩ := h
    obtain ⟨hv, hsame⟩ := values_pop hpop
    exact ⟨⟨c.val, m₁.values, hv, hsame.view rfl⟩, rfl⟩
  | swap ta tb =>
    simp only [execOp, bind_eq_ok, pure_eq_ok, Prod.exists, Prod.mk.injEq] at h
    obtain ⟨b, m₁, hpop, a, m₂, hpop', m₃, hpush, m₄, hpush', rfl, rfl⟩ := h
    obtain ⟨hb, hsame⟩ := values_pop hpop
    obtain ⟨ha, hsame'⟩ := values_pop hpop'
    obtain ⟨hv, hsame''⟩ := values_push hpush
    obtain ⟨hv', hsame'''⟩ := values_push hpush'
    rw [hv] at hv'
    refine ⟨⟨b.val, a.val, m₂.values, ?_,
      (((hsame.trans hsame').trans hsame'').trans hsame''').view hv'⟩, rfl⟩
    show m.values = _
    rw [hb, ha]
  | addI64 => exact acts_binop h
  | subI64 => exact acts_binop h
  | mulI64 => exact acts_binop h
  | cmp out k => exact acts_binop h
  | andBool => exact acts_binop h
  | orBool => exact acts_binop h
  | notBool =>
    simp only [execOp, bind_eq_ok, pure_eq_ok, Prod.exists, Prod.mk.injEq] at h
    obtain ⟨a, m₁, hpop, m₂, hpush, rfl, rfl⟩ := h
    obtain ⟨hv, hsame⟩ := values_pop hpop
    obtain ⟨hv', hsame'⟩ := values_push hpush
    exact ⟨⟨a.val, m₁.values, hv, (hsame.trans hsame').view hv'⟩, rfl⟩
  | interruptDisable =>
    cases h
    exact ⟨rfl, rfl⟩
  | interruptEnable =>
    cases h
    exact ⟨rfl, rfl⟩
  | localSet slot ty =>
    simp only [execOp, bind_eq_ok, pure_eq_ok, Prod.exists, Prod.mk.injEq] at h
    obtain ⟨c, m₁, hpop, rfl, rfl⟩ := h
    obtain ⟨hv, hsame⟩ := values_pop hpop
    refine ⟨⟨c.val, m₁.values, hv, ?_⟩, rfl⟩
    show View.mk m₁.values ((m₁.locals.set slot c.value).map Value.val) m₁.mem = _
    rw [List.map_set, hsame.locals, hsame.mem]
    rfl
  | localGet slot ty =>
    simp only [execOp, bind_eq_ok, pure_eq_ok, Prod.mk.injEq] at h
    obtain ⟨m₁, hpush, rfl, rfl⟩ := h
    obtain ⟨hv, hsame⟩ := values_push hpush
    refine ⟨hsame.view (hv.trans ?_), rfl⟩
    have hget : (m.getLocal slot).val = (m.locals.map Value.val).getD slot 0 := by
      rw [Machine.getLocal, List.getD_eq_getElem?_getD, List.getD_eq_getElem?_getD,
        List.getElem?_map]
      cases m.locals[slot]? <;> rfl
    exact congrArg (· :: m.values) hget
  | cast src tgt =>
    simp only [execOp, bind_eq_ok, pure_eq_ok, Prod.exists, Prod.mk.injEq] at h
    obtain ⟨c, m₁, hpop, m₂, hpush, rfl, rfl⟩ := h
    obtain ⟨hv, hsame⟩ := values_pop hpop
    obtain ⟨hv', hsame'⟩ := values_push hpush
    exact ⟨⟨c.val, m₁.values, hv, (hsame.trans hsame').view hv'⟩, rfl⟩
  | bitcast src tgt =>
    simp only [execOp, bind_eq_ok, pure_eq_ok, Prod.exists, Prod.mk.injEq] at h
    obtain ⟨c, m₁, hpop, m₂, hpush, rfl, rfl⟩ := h
    obtain ⟨hv, hsame⟩ := values_pop hpop
    obtain ⟨hv', hsame'⟩ := values_push hpush
    exact ⟨⟨c.val, m₁.values, hv, (hsame.trans hsame').view hv'⟩, rfl⟩
  | call name sig performs req bound =>
    simp only [execOp, bind_eq_ok, Prod.exists] at h
    obtain ⟨args, m₁, hpop, h⟩ := h
    obtain ⟨hitems, hlen, hsame⟩ := Machine.of_popN hpop
    refine ⟨args.map Cell.val, m₁.values, ?_, by rw [List.length_map, hlen], ?_⟩
    · show m.values = _
      rw [Machine.values, hitems, List.map_append]
      rfl
    · rw [hsame.clock] at h
      cases htrap : W.callTrap m.clock name (args.map Cell.val) with
      | some code =>
        rw [htrap] at h
        cases h
        exact ⟨hsame.view rfl, rfl⟩
      | none =>
        rw [htrap] at h
        simp only [bind_eq_ok, pure_eq_ok, Prod.mk.injEq] at h
        obtain ⟨m₂, hpush, rfl, rfl⟩ := h
        obtain ⟨hitems', hsame'⟩ := Machine.of_pushAll hpush
        refine ⟨(hsame.trans hsame').view ?_, rfl⟩
        rw [Machine.values, hitems', List.map_append, List.map_reverse, callResults_vals,
          hsame.clock]
        rfl
  | load ty => exact acts_readTop h
  | store ty =>
    simp only [execOp, bind_eq_ok, pure_eq_ok, Prod.exists, Prod.mk.injEq] at h
    obtain ⟨v, m₁, hpop, a, m₂, hpop', rfl, rfl⟩ := h
    obtain ⟨hv, hsame⟩ := values_pop hpop
    obtain ⟨ha, hsame'⟩ := values_pop hpop'
    refine ⟨⟨v.val, a.val, m₂.values, ?_, ?_⟩, rfl⟩
    · show m.values = _
      rw [hv, ha]
    · show View.mk m₂.values (m₂.locals.map Value.val) (m₂.mem.record a.val v.val) = _
      rw [(hsame.trans hsame').locals, (hsame.trans hsame').mem]
      rfl
  | trapIfFalse code =>
    simp only [execOp, bind_eq_ok, pure_eq_ok, Prod.exists, Prod.mk.injEq] at h
    obtain ⟨c, m₁, hpop, rfl, rfl⟩ := h
    obtain ⟨hv, hsame⟩ := values_pop hpop
    exact ⟨c.val, m₁.values, hv, hsame.view rfl, rfl⟩
  | br tgt =>
    cases h
    exact ⟨rfl, rfl⟩
  | brIf thenTgt elseTgt =>
    simp only [execOp, bind_eq_ok, pure_eq_ok, Prod.exists, Prod.mk.injEq] at h
    obtain ⟨c, m₁, hpop, rfl, rfl⟩ := h
    obtain ⟨hv, hsame⟩ := values_pop hpop
    exact ⟨c.val, m₁.values, hv, hsame.view rfl, rfl⟩
  | ret =>
    cases h
    exact ⟨rfl, rfl⟩
  | mmioVolLoad => trivial
  | mmioVolStore => trivial
  | mmioVolLoadField => trivial
  | mmioVolStoreField => trivial

end Tyu

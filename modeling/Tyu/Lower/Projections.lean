import Tyu.Lower.Quiet
import Tyu.Lower.TypeSizes

/-!
# Projections and the code they become

A field or index step moves the address on top of the stack, or on a value of aggregate type moves
and reads through it.
-/

namespace Tyu.Irgen

open Lib

/-! ## Emitted operations -/

def Gen.opsAt (g : Gen) (cur : BlockId) : List OpKind :=
  ((g.word.blocks.get? cur.idx).map fun b => b.ops.items.map Op.kind).getD []

section Runs

variable {Γ : Env} {g g' : Gen} {cur : BlockId}

theorem appendOp_ops {w w' : Word} {op : Op} (h : appendOp w cur op = .ok w') :
    ∃ b ops, w.blocks.get? cur.idx = some b ∧ ops.items = b.ops.items ++ [op] ∧
      w'.blocks.get? cur.idx = some { b with ops := ops } := by
  obtain ⟨b, hb, h⟩ := bind_eq_ok.mp h
  obtain ⟨ops, hops, h⟩ := bind_eq_ok.mp h
  rw [expect_eq_ok] at hb hops
  cases h
  refine ⟨b, ops, hb, FixedVec.push_eq_some.mp hops, ?_⟩
  have hlt : cur.idx < w.blocks.items.length := (List.getElem?_eq_some_iff.mp hb).1
  show (w.blocks.items.set cur.idx { b with ops := ops })[cur.idx]? = _
  rw [List.getElem?_set_self hlt]

theorem emitOp_run {kind : OpKind} {span : Span} {u : Unit}
    (h : emitOp Γ cur kind span g = .ok (u, g')) :
    g'.opsAt cur = g.opsAt cur ++ [kind] ∧ g'.stack = g.stack ∧ g'.locals = g.locals := by
  obtain ⟨word, hw, h⟩ := bind_eq_ok.mp h
  cases h
  obtain ⟨b, ops, hb, hops, hb'⟩ := appendOp_ops hw
  refine ⟨?_, rfl, rfl⟩
  show ((word.blocks.get? cur.idx).map fun b => b.ops.items.map Op.kind).getD [] = _
  rw [Gen.opsAt, hb, hb']
  show ops.items.map Op.kind = b.ops.items.map Op.kind ++ [kind]
  rw [hops, List.map_append]
  rfl

theorem tyIdOfType_run (cur : BlockId) {ty : TypeAtom} {tid : TypeId}
    (h : tyIdOfType Γ ty g = .ok (tid, g')) :
    g'.opsAt cur = g.opsAt cur ∧ g'.stack = g.stack ∧ g'.locals = g.locals := by
  obtain ⟨p, -, h⟩ := bind_eq_ok.mp h
  cases h
  exact ⟨rfl, rfl, rfl⟩

/-! Steps that only look: what they found, and the rest of the run from the same state. -/

section Looks

variable {α β : Type} {b : β}

theorem peekOr_seq {e : TcError} {f : Value → GenM β}
    (h : (peekOr e >>= f) g = .ok (b, g')) :
    ∃ v, g.stack.head? = some v ∧ f v g = .ok (b, g') := by
  obtain ⟨v, t, hpeek, hf⟩ := bind_run h
  obtain ⟨stack, t', hget, hpeek⟩ := bind_run hpeek
  cases hget
  obtain ⟨c, hc, hneed⟩ := bind_eq_ok.mp hpeek
  cases hneed
  exact ⟨v, expect_eq_ok.mp hc, hf⟩

end Looks

theorem popOr_run (cur : BlockId) {e : TcError} {v : Value} (h : popOr e g = .ok (v, g')) :
    g.stack = v :: g'.stack ∧ g'.opsAt cur = g.opsAt cur ∧ g'.locals = g.locals := by
  obtain ⟨top, t, hpop, hneed⟩ := bind_run h
  obtain ⟨c, hc, hneed⟩ := bind_eq_ok.mp hneed
  cases hneed
  obtain rfl := expect_eq_ok.mp hc
  unfold pop at hpop
  split at hpop
  · cases hpop
  · next heq =>
    cases hpop
    exact ⟨heq, rfl, rfl⟩

theorem push_run {v : Value} {u : Unit} (h : push v g = .ok (u, g')) :
    g' = { g with stack := v :: g.stack } := by
  unfold push at h
  split at h
  · cases h
  · cases h
    rfl

theorem setTop_run (cur : BlockId) {v : Value} {u : Unit} (h : setTop v g = .ok (u, g')) :
    g'.opsAt cur = g.opsAt cur ∧ g'.stack = v :: g.stack.tail := by
  cases h
  exact ⟨rfl, rfl⟩

theorem discard_run {u : Unit} (h : discard g = .ok (u, g')) :
    g' = { g with stack := g.stack.tail } := by
  obtain ⟨top, t, hpop, h⟩ := bind_run h
  cases h
  unfold pop at hpop
  split at hpop
  · next heq =>
    cases hpop
    rw [heq]
    show g = { g with stack := [] }
    rw [← heq]
  · next heq =>
    cases hpop
    rw [heq]
    rfl

end Runs

/-! ## Hops -/

inductive Hop where
  | field (name : Atom)
  | index (n : Nat)
  | dynamic (i : Int)

namespace Hop

def lower (Γ : Env) (cur : BlockId) (span : Span) : Hop → GenM BlockId
  | .field name => compileFieldAccess Γ cur name span
  | .index n => compileStaticIndex Γ cur n span
  | .dynamic _ => compileDynamicIndex Γ cur span

def operands : Hop → List Value
  | .dynamic _ => [.plain AT_I64]
  | _ => []

def ty (db : NominalDb) (t : TypeAtom) : Hop → Option TypeAtom
  | .field name => structFieldTy db t name
  | .index _ | .dynamic _ => arrayElemType t

end Hop

def Value.objectTy : Value → Option TypeAtom
  | .plain t => some t
  | .ptr t _ _ => some t
  | _ => none

def Value.byRef : Value → Bool
  | .ptr _ _ _ => true
  | _ => false

/-- An accepted run of the lowering takes the value `v` on top of the stack to `v'`, and
adds `ops` to the block. -/
def Lowers (Γ : Env) (hop : Hop) (v : Value) (ops : List OpKind) (v' : Value) : Prop :=
  ∃ (g g' : Gen) (cur cur' : BlockId) (span : Span) (rest : List Value),
    g.stack = hop.operands ++ v :: rest ∧ hop.lower Γ cur span g = .ok (cur', g') ∧
      g'.stack = v' :: rest ∧ g'.opsAt cur = g.opsAt cur ++ ops

/-- The address operation of a hop from type `t` to type `t'`. -/
inductive Moves (db : NominalDb) : Hop → TypeAtom → OpKind → TypeAtom → Prop
  | field {name : Atom} {t t' : TypeAtom} {tid : TypeId} {off : Nat} {s : StructInfo}
      (hs : db.struct t = some s) (hf : fieldAt db name s.fields 0 = .ok (off, t')) :
      Moves db (.field name) t (.ptrAddConst tid off) t'
  | index {n len k : Nat} {t t' : TypeAtom} {tid : TypeId} (he : arrayElemType t = some t')
      (hl : arrayLen t = some len) (hn : n < len) (hk : typeSizeBytes db t' = some k) :
      Moves db (.index n) t (.ptrAddConst tid (saturatingMulU32 n k)) t'
  | dynamic {i : Int} {len k : Nat} {t t' : TypeAtom} {tid : TypeId}
      (he : arrayElemType t = some t') (hl : arrayLen t = some len)
      (hk : typeSizeBytes db t' = some k) : Moves db (.dynamic i) t (.ptrAddIndex tid k) t'

/-- The code of a hop: its address operation, and a load when the base is a value. -/
structure HopCode (db : NominalDb) (hop : Hop) (v : Value) (ops : List OpKind) (v' : Value)
    (t t' : TypeAtom) (move : OpKind) : Prop where
  ty : v'.objectTy = some t'
  byRef : v'.byRef = v.byRef
  moves : Moves db hop t move t'
  code : if v.byRef then ops = [move] else ∃ tid, ops = [move, .load tid]

section Cases

variable {Γ : Env} {g g' : Gen} {cur cur' : BlockId} {span : Span} {v v' : Value}
  {rest : List Value} {ops : List OpKind}

theorem fieldAccess_code {name : Atom} {t : TypeAtom} (ht : v.objectTy = some t)
    (hg : g.stack = v :: rest) (h : compileFieldAccess Γ cur name span g = .ok (cur', g'))
    (hg' : g'.stack = v' :: rest) (hops : g'.opsAt cur = g.opsAt cur ++ ops) :
    ∃ t' move, HopCode Γ.nominals (.field name) v ops v' t t' move := by
  obtain ⟨base, hbase, h⟩ := peekOr_seq h
  rw [hg] at hbase
  cases hbase
  cases v with
  | ptr ty isMut place =>
    cases ht
    dsimp only at h
    obtain ⟨s, hs, h⟩ := need_seq h
    obtain ⟨found, hf, h⟩ := lift_seq h
    obtain ⟨_, t₁, hemit, h⟩ := bind_run h
    obtain ⟨hops₁, hstack₁, -⟩ := emitOp_run hemit
    obtain ⟨_, t₂, hset, h⟩ := bind_run h
    cases hset
    cases h
    have hops : t₁.opsAt cur = g.opsAt cur ++ ops := hops
    obtain rfl := List.append_cancel_left (hops.symm.trans hops₁)
    have hg' : Value.ptr found.2 isMut place :: t₁.stack.tail = v' :: rest := hg'
    obtain ⟨rfl, -⟩ := List.cons.inj hg'
    exact ⟨_, _, rfl, rfl, .field hs hf, rfl⟩
  | plain ty =>
    cases ht
    dsimp only at h
    obtain ⟨s, hs, h⟩ := need_seq h
    obtain ⟨found, hf, h⟩ := lift_seq h
    obtain ⟨tid, t₁, htid, h⟩ := bind_run h
    obtain ⟨_, t₂, hmove, h⟩ := bind_run h
    obtain ⟨tid', t₃, htid', h⟩ := bind_run h
    obtain ⟨_, t₄, hload, h⟩ := bind_run h
    obtain ⟨_, t₅, hdiscard, h⟩ := bind_run h
    obtain ⟨_, t₆, hpush, h⟩ := bind_run h
    cases h
    obtain rfl := push_run hpush
    obtain rfl := discard_run hdiscard
    have hops : t₄.opsAt cur = g.opsAt cur ++ ops := hops
    rw [(emitOp_run hload).1, (tyIdOfType_run cur htid').1, (emitOp_run hmove).1,
      (tyIdOfType_run cur htid).1, List.append_assoc] at hops
    obtain rfl := List.append_cancel_left hops
    have hg' : Value.plain found.2 :: t₄.stack.tail = v' :: rest := hg'
    obtain ⟨rfl, -⟩ := List.cons.inj hg'
    exact ⟨_, _, rfl, rfl, .field hs hf, _, rfl⟩
  | _ => cases ht

theorem indexPlan_run {db : NominalDb} {idx : Option Nat} {t : TypeAtom} {plan : IndexPlan}
    (ht : v.objectTy = some t) (h : indexPlan db idx v = .ok plan) :
    (∃ len, arrayElemType t = some plan.elem ∧ arrayLen t = some len ∧
      (∀ n, idx = some n → n < len) ∧ typeSizeBytes db plan.elem = some plan.scale) ∧
    (plan.after v).objectTy = some plan.elem ∧
    (if v.byRef then plan.out ≠ .value ∧ (plan.after v).byRef = true else plan.out = .value) := by
  have key : ∀ {out : IndexOut} {tid : TypeId}, arrayPlan db t idx out tid = .ok plan →
      (∃ len, arrayElemType t = some plan.elem ∧ arrayLen t = some len ∧
        (∀ n, idx = some n → n < len) ∧ typeSizeBytes db plan.elem = some plan.scale) ∧
      plan.out = out := by
    intro out tid h
    obtain ⟨elem, he, h⟩ := bind_eq_ok.mp h
    obtain ⟨len, hl, h⟩ := bind_eq_ok.mp h
    obtain ⟨_, hn, h⟩ := bind_eq_ok.mp h
    obtain ⟨size, hk, h⟩ := bind_eq_ok.mp h
    rw [expect_eq_ok] at he hl hk
    rw [require_eq_ok] at hn
    cases h
    refine ⟨⟨len, he, hl, fun n heq => ?_, hk⟩, rfl⟩
    subst heq
    exact of_decide_eq_true hn
  cases v with
  | ptr ty isMut place =>
    cases ht
    obtain ⟨hplan, hout⟩ := key h
    refine ⟨hplan, ?_, ?_⟩
    · rw [IndexPlan.after, hout]
      rfl
    · rw [IndexPlan.after, hout]
      exact ⟨nofun, rfl⟩
  | plain ty =>
    cases ht
    obtain ⟨hplan, hout⟩ := key h
    refine ⟨hplan, ?_, hout⟩
    rw [IndexPlan.after, hout]
    rfl
  | _ => cases ht

theorem finishIndex_run {plan : IndexPlan} {u : Unit}
    (h : finishIndex Γ cur plan span g = .ok (u, g')) :
    if plan.out = .value then
      (∃ tid, g'.opsAt cur = g.opsAt cur ++ [.load tid]) ∧
        g'.stack = .plain plan.elem :: g.stack.tail
    else g' = g := by
  unfold finishIndex at h
  split at h
  · next hout =>
    rw [if_pos hout]
    obtain ⟨tid, t₁, htid, h⟩ := bind_run h
    obtain ⟨_, t₂, hload, h⟩ := bind_run h
    cases h
    obtain ⟨hops, hstack, -⟩ := tyIdOfType_run cur htid
    obtain ⟨hops', hstack', -⟩ := emitOp_run hload
    refine ⟨⟨tid, ?_⟩, ?_⟩
    · show t₂.opsAt cur = _
      rw [hops', hops]
    · show Value.plain plan.elem :: t₂.stack.tail = _
      rw [hstack', hstack]
  · next hout =>
    rw [if_neg hout]
    cases h
    rfl

theorem index_code {hop : Hop} {idx : Option Nat} {t : TypeAtom} {plan : IndexPlan}
    {move : OpKind} {u : Unit} (ht : v.objectTy = some t)
    (hplan : indexPlan Γ.nominals idx v = .ok plan) (hg : g.stack = plan.after v :: rest)
    (hmove : Moves Γ.nominals hop t move plan.elem)
    (h : finishIndex Γ cur plan span g = .ok (u, g')) (hg' : g'.stack = v' :: rest)
    {before : List OpKind} (hbefore : g.opsAt cur = before ++ [move])
    (hops : g'.opsAt cur = before ++ ops) :
    ∃ t' move, HopCode Γ.nominals hop v ops v' t t' move := by
  obtain ⟨-, hty, hout⟩ := indexPlan_run ht hplan
  have hfinish := finishIndex_run h
  by_cases hval : plan.out = .value
  · have hby : v.byRef = false := by
      by_contra hne
      rw [Bool.not_eq_false] at hne
      rw [if_pos hne] at hout
      exact hout.1 hval
    rw [if_pos hval] at hfinish
    obtain ⟨⟨tid, hload⟩, hstack⟩ := hfinish
    rw [hload, hbefore, List.append_assoc] at hops
    obtain rfl := List.append_cancel_left hops
    rw [hstack] at hg'
    obtain ⟨rfl, -⟩ := List.cons.inj hg'
    refine ⟨_, move, rfl, hby.symm, hmove, ?_⟩
    rw [hby]
    exact ⟨tid, rfl⟩
  · have hby : v.byRef = true := by
      by_contra hne
      rw [if_neg hne] at hout
      exact hval hout
    rw [if_neg hval] at hfinish
    subst hfinish
    rw [hbefore] at hops
    obtain rfl := List.append_cancel_left hops
    rw [hg] at hg'
    obtain ⟨rfl, -⟩ := List.cons.inj hg'
    rw [if_pos hby] at hout
    refine ⟨_, move, hty, hout.2.trans hby.symm, hmove, ?_⟩
    rw [if_pos hby]

theorem staticIndex_code {n : Nat} {t : TypeAtom} (ht : v.objectTy = some t)
    (hg : g.stack = v :: rest) (h : compileStaticIndex Γ cur n span g = .ok (cur', g'))
    (hg' : g'.stack = v' :: rest) (hops : g'.opsAt cur = g.opsAt cur ++ ops) :
    ∃ t' move, HopCode Γ.nominals (.index n) v ops v' t t' move := by
  obtain ⟨base, hbase, h⟩ := peekOr_seq h
  rw [hg] at hbase
  cases hbase
  obtain ⟨plan, hplan, h⟩ := lift_seq h
  obtain ⟨_, t₁, hset, h⟩ := bind_run h
  obtain ⟨_, t₂, hemit, h⟩ := bind_run h
  obtain ⟨_, t₃, hfinish, h⟩ := bind_run h
  cases h
  cases hset
  obtain ⟨hops₂, hstack₂, -⟩ := emitOp_run hemit
  obtain ⟨⟨len, he, hl, hn, hk⟩, -, -⟩ := indexPlan_run ht hplan
  have hg₂ : t₂.stack = plan.after v :: rest := by
    rw [hstack₂]
    show plan.after v :: g.stack.tail = _
    rw [hg, List.tail_cons]
  exact index_code ht hplan hg₂ (.index he hl (hn n rfl) hk) hfinish hg' hops₂ hops

theorem dynamicIndex_code {i : Int} {t : TypeAtom} (ht : v.objectTy = some t)
    (hg : g.stack = .plain AT_I64 :: v :: rest)
    (h : compileDynamicIndex Γ cur span g = .ok (cur', g'))
    (hg' : g'.stack = v' :: rest) (hops : g'.opsAt cur = g.opsAt cur ++ ops) :
    ∃ t' move, HopCode Γ.nominals (.dynamic i) v ops v' t t' move := by
  obtain ⟨idx, t₀, hpop, h⟩ := bind_run h
  obtain ⟨hstack, hops₀, -⟩ := popOr_run cur hpop
  rw [hg] at hstack
  obtain ⟨rfl, hrest⟩ := List.cons.inj hstack
  obtain ⟨-, h⟩ := check_seq h
  obtain ⟨base, hbase, h⟩ := peekOr_seq h
  rw [← hrest] at hbase
  cases hbase
  obtain ⟨plan, hplan, h⟩ := lift_seq h
  obtain ⟨_, t₁, hemit, h⟩ := bind_run h
  obtain ⟨_, t₂, hset, h⟩ := bind_run h
  obtain ⟨_, t₃, hfinish, h⟩ := bind_run h
  cases h
  obtain ⟨hops₁, hstack₁, -⟩ := emitOp_run hemit
  obtain ⟨hops₂, hstack₂⟩ := setTop_run cur hset
  obtain ⟨⟨len, he, hl, -, hk⟩, -, -⟩ := indexPlan_run ht hplan
  rw [hstack₁, ← hrest, List.tail_cons] at hstack₂
  rw [hops₁, hops₀] at hops₂
  exact index_code ht hplan hstack₂ (.dynamic he hl hk) hfinish hg' hops₂ hops

theorem Lowers.code {hop : Hop} {t : TypeAtom} (h : Lowers Γ hop v ops v')
    (ht : v.objectTy = some t) : ∃ t' move, HopCode Γ.nominals hop v ops v' t t' move := by
  obtain ⟨g, g', cur, cur', span, rest, hg, hrun, hg', hops⟩ := h
  cases hop with
  | field name => exact fieldAccess_code ht hg hrun hg' hops
  | index n => exact staticIndex_code ht hg hrun hg' hops
  | dynamic i => exact dynamicIndex_code ht hg hrun hg' hops

end Cases

/-! ## Destructuring -/

def constOffsets (ops : List OpKind) : List Nat :=
  ops.filterMap fun kind => match kind with
    | .ptrAddConst _ off => some off
    | _ => none

def Gen.offsetsAt (g : Gen) (cur : BlockId) : List Nat := constOffsets (g.opsAt cur)

def Unmoved (cur : BlockId) (g g' : Gen) : Prop := g'.offsetsAt cur = g.offsetsAt cur

def Unemitted (cur : BlockId) (g g' : Gen) : Prop := g'.opsAt cur = g.opsAt cur

section Destruct

variable {Γ : Env} {g g' : Gen} {cur cur' : BlockId} {span : Span}

instance : Std.Refl (Unemitted cur) := ⟨fun _ => rfl⟩

instance : IsTrans Gen (Unemitted cur) := ⟨fun _ _ _ h h' => h'.trans h⟩

instance : IsTrans Gen (Unmoved cur) := ⟨fun _ _ _ h h' => h'.trans h⟩

theorem offsetsAt_emit {kind : OpKind} {u : Unit}
    (h : emitOp Γ cur kind span g = .ok (u, g')) :
    g'.offsetsAt cur = g.offsetsAt cur ++ constOffsets [kind] := by
  unfold Gen.offsetsAt
  rw [(emitOp_run h).1, constOffsets, constOffsets, constOffsets, List.filterMap_append]

theorem unmoved_emit {kind : OpKind} (h : constOffsets [kind] = []) :
    Along (Unmoved cur) (emitOp Γ cur kind span) := by
  refine ⟨fun g u g' hrun => ?_⟩
  show g'.offsetsAt cur = g.offsetsAt cur
  rw [offsetsAt_emit hrun, h, List.append_nil]

instance {tid : TypeId} : Along (Unmoved cur) (emitOp Γ cur (.load tid) span) := unmoved_emit rfl

instance {slot : Nat} {tid : TypeId} : Along (Unmoved cur) (emitOp Γ cur (.localGet slot tid) span) :=
  unmoved_emit rfl

instance {slot : Nat} {tid : TypeId} : Along (Unmoved cur) (emitOp Γ cur (.localSet slot tid) span) :=
  unmoved_emit rfl

instance {α : Type} {m : GenM α} [hm : Along (Unemitted cur) m] : Along (Unmoved cur) m := by
  refine ⟨fun g a g' h => ?_⟩
  show constOffsets (g'.opsAt cur) = constOffsets (g.opsAt cur)
  rw [hm.run _ _ _ h]

instance : Lax (Unemitted cur) := ⟨fun h => by
  unfold Unemitted Gen.opsAt
  rw [h.code.blocks]⟩

instance {l : LocalVar} {e : TcError} : Along (Unemitted cur) (addLocal l e) := by
  refine ⟨fun g u g' h => ?_⟩
  obtain ⟨_, -, h⟩ := bind_eq_ok.mp h
  cases h
  rfl

instance {l : LocalVar} {tid : TypeId} {e : TcError} :
    Along (Unmoved cur) (bindLocal Γ cur l tid e span) := by
  unfold bindLocal
  infer_instance

theorem placeField_seq {β : Type} {b : β} {off : Nat} {ty : TypeAtom} {f : Nat × Nat → GenM β}
    (h : (placeField Γ off ty >>= f) g = .ok (b, g')) :
    ∃ k, typeSizeBytes Γ.nominals ty = some k ∧ alignUp off (fieldAlign k) + k < 2 ^ 32 ∧
      f (alignUp off (fieldAlign k), alignUp off (fieldAlign k) + k) g = .ok (b, g') := by
  obtain ⟨placed, t, hplace, hf⟩ := bind_run h
  obtain ⟨k, hk, hplace⟩ := need_seq hplace
  obtain ⟨next, hnext, hplace⟩ := need_seq hplace
  obtain ⟨rfl, hlt⟩ := checkedAddU32_eq_some.mp hnext
  cases hplace
  exact ⟨k, hk, hlt, hf⟩

theorem unmoved_seq (cur : BlockId) {α β : Type} {m : GenM α} [hm : Along (Unmoved cur) m]
    {f : α → GenM β} {b : β} (h : (m >>= f) g = .ok (b, g')) :
    ∃ a t, t.offsetsAt cur = g.offsetsAt cur ∧ f a t = .ok (b, g') := by
  obtain ⟨a, t, hrun, hf⟩ := bind_run h
  exact ⟨a, t, hm.run _ _ _ hrun, hf⟩

theorem compileFieldBind_run {structTy : TypeAtom} {baseMut : Bool} {basePlace : PlaceId}
    {tmp off next : Nat} {p : DestructBind × StructFieldInfo}
    (h : compileFieldBind Γ cur structTy baseMut basePlace tmp off p span g = .ok (next, g')) :
    ∃ k, g'.offsetsAt cur = g.offsetsAt cur ++ [alignUp off (fieldAlign k)] ∧
      typeSizeBytes Γ.nominals p.2.ty = some k ∧ next = alignUp off (fieldAlign k) + k ∧
      next < 2 ^ 32 := by
  obtain ⟨-, h⟩ := check_seq h
  obtain ⟨k, hk, hlt, h⟩ := placeField_seq h
  obtain ⟨_, t₁, h₁, h⟩ := unmoved_seq cur h
  obtain ⟨_, t₂, h₂, h⟩ := unmoved_seq cur h
  obtain ⟨_, t₃, hmove, h⟩ := bind_run h
  have h₃ := offsetsAt_emit hmove
  rw [h₂, h₁] at h₃
  dsimp only at h
  suffices hrest : g'.offsetsAt cur = t₃.offsetsAt cur ∧ next = alignUp off (fieldAlign k) + k by
    refine ⟨k, hrest.1.trans h₃, hk, hrest.2, ?_⟩
    rw [hrest.2]
    exact hlt
  split at h
  · obtain ⟨_, t₄, h₄, h⟩ := unmoved_seq cur h
    obtain ⟨_, t₅, h₅, h⟩ := unmoved_seq cur h
    obtain ⟨_, t₆, h₆, h⟩ := unmoved_seq cur h
    obtain ⟨_, t₇, h₇, h⟩ := unmoved_seq cur h
    cases h
    exact ⟨h₇.trans (h₆.trans (h₅.trans h₄)), rfl⟩
  · obtain ⟨_, t₄, h₄, h⟩ := unmoved_seq cur h
    obtain ⟨_, t₅, h₅, h⟩ := unmoved_seq cur h
    obtain ⟨_, t₆, h₆, h⟩ := unmoved_seq cur h
    obtain ⟨_, t₇, h₇, h⟩ := unmoved_seq cur h
    obtain ⟨_, t₈, h₈, h⟩ := unmoved_seq cur h
    obtain ⟨_, t₉, h₉, h⟩ := unmoved_seq cur h
    obtain ⟨_, t₁₀, h₁₀, h⟩ := unmoved_seq cur h
    obtain ⟨_, t₁₁, h₁₁, h⟩ := unmoved_seq cur h
    cases h
    exact ⟨h₁₁.trans (h₁₀.trans (h₉.trans (h₈.trans (h₇.trans (h₆.trans (h₅.trans h₄)))))), rfl⟩

/-- The names of a pattern add the starts of their fields, as long as the placement ends
below 2^32. -/
theorem fieldBinds_run {structTy : TypeAtom} {baseMut : Bool} {basePlace : PlaceId} {tmp : Nat}
    {sz : TypeAtom → Nat} {ps : List (DestructBind × StructFieldInfo)} {off next : Nat}
    (hsz : ∀ p ∈ ps, ∀ k, typeSizeBytes Γ.nominals p.2.ty = some k → k = sz p.2.ty)
    (hfit : Item.finish (fieldItems sz (ps.map Prod.snd)) off < 2 ^ 32)
    (h : ps.foldlM (fun off p => compileFieldBind Γ cur structTy baseMut basePlace tmp off p span)
      off g = .ok (next, g')) :
    g'.offsetsAt cur =
      g.offsetsAt cur ++ Item.starts (fieldItems sz (ps.map Prod.snd)) off := by
  induction ps generalizing off g with
  | nil =>
    cases h
    exact (List.append_nil _).symm
  | cons p ps ih =>
    rw [List.foldlM_cons] at h
    obtain ⟨off', t, hbind, h⟩ := bind_run h
    obtain ⟨k, hops, hk, rfl, -⟩ := compileFieldBind_run hbind
    obtain rfl := hsz p (List.mem_cons_self ..) k hk
    have hle := Item.le_finish (fieldItems_pos sz (ps.map Prod.snd))
      (roundUp (fieldAlign (sz p.2.ty)) off + sz p.2.ty)
    have hfit : Item.finish (fieldItems sz (ps.map Prod.snd))
        (roundUp (fieldAlign (sz p.2.ty)) off + sz p.2.ty) < 2 ^ 32 := hfit
    rw [alignUp_eq_roundUp (fieldAlign_isAlign _) (by omega)] at h hops
    rw [ih (fun q hq => hsz q (List.mem_cons_of_mem _ hq)) hfit h, hops, List.append_assoc]
    rfl

theorem compileDestruct_run {binds : List DestructBind} {v : Value} {t : TypeAtom}
    {s : StructInfo} {sz : TypeAtom → Nat}
    (hsz : ∀ f ∈ s.fields, ∀ k, typeSizeBytes Γ.nominals f.ty = some k → k = sz f.ty)
    (hfit : Item.finish (fieldItems sz s.fields) 0 < 2 ^ 32)
    (hv : g.stack.head? = some v) (ht : v.objectTy = some t) (hs : Γ.nominals.struct t = some s)
    (h : compileDestruct Γ cur binds span g = .ok (cur', g')) :
    g'.offsetsAt cur = g.offsetsAt cur ++ Item.starts (fieldItems sz s.fields) 0 := by
  obtain ⟨-, h⟩ := check_seq h
  obtain ⟨base, hbase, h⟩ := peekOr_seq h
  cases hv.symm.trans hbase
  obtain ⟨st, hst, h⟩ := need_seq h
  have hty : st.1 = t := by
    cases v with
    | ptr ty isMut place =>
      cases hst
      exact Option.some.inj ht
    | plain ty =>
      change (if _ then none else some (ty, false, PLACE_NONE)) = some st at hst
      split at hst
      · cases hst
      · cases hst
        exact Option.some.inj ht
    | _ => cases ht
  obtain ⟨sinfo, hsinfo, h⟩ := need_seq h
  rw [hty, hs] at hsinfo
  cases hsinfo
  obtain ⟨hlen, h⟩ := check_seq h
  obtain ⟨_, t₁, h₁, h⟩ := unmoved_seq cur h
  obtain ⟨_, t₂, h₂, h⟩ := unmoved_seq cur h
  obtain ⟨_, t₃, h₃, h⟩ := unmoved_seq cur h
  obtain ⟨next, t₄, hfold, h⟩ := bind_run h
  cases h
  have hmap : (binds.zip s.fields).map Prod.snd = s.fields := List.map_snd_zip (by omega)
  have hrun := fieldBinds_run (fun p hp k hk => hsz p.2 (List.of_mem_zip hp).2 k hk)
    (hmap.symm ▸ hfit) hfold
  rw [hmap, h₃, h₂, h₁] at hrun
  exact hrun

end Destruct

section AddressOf

variable {Γ : Env} {g g' : Gen} {cur cur' : BlockId} {span : Span}

theorem mintId_stack {root : Atom} {full : TypeAtom} {id : PlaceId}
    (h : mintId root full g = .ok (id, g')) : g'.stack = g.stack := by
  unfold mintId at h
  split at h
  · cases h
    rfl
  · split at h
    · cases h
    · cases h
      rfl

/-- A place that is no register path becomes an address that the linker fills in, of the
type at the end of the path. -/
theorem addressOf_run (cur : BlockId) {place : PlacePath} {isMut : Bool} {base : AddrOfBase}
    (h : addressOf Γ place isMut g = .ok (base, g')) :
    g'.opsAt cur = g.opsAt cur ∧ (Γ.resolveMmioPlace place = .ok none → base = .runtime ∧
      ∃ ty id, resolvePlacePointeeTy Γ g place = .ok (some ty) ∧
        g'.stack = .ptr ty isMut id :: g.stack) := by
  obtain ⟨resolved, hres, h⟩ := lift_seq h
  cases resolved with
  | some r =>
    refine ⟨?_, fun hnone => ?_⟩
    · cases r with
      | reg reg =>
        dsimp only at h
        exact Along.run (R := Unemitted cur) _ _ _ h
      | field f => cases h
    · rw [hres] at hnone
      cases hnone
  | none =>
    dsimp only at h
    obtain ⟨g₀, t₀, hget, h⟩ := bind_run h
    cases hget
    obtain ⟨_, -, h⟩ := lift_seq h
    obtain ⟨pointee, hpointee, h⟩ := lift_seq h
    obtain ⟨ty, hty, h⟩ := need_seq h
    obtain ⟨-, h⟩ := check_seq h
    obtain ⟨id, t₁, hmint, h⟩ := bind_run h
    obtain ⟨_, t₂, hpush, h⟩ := bind_run h
    have hbase : base = .runtime := by
      cases h
      rfl
    have hsame : g' = t₂ := by
      cases h
      rfl
    have hstack : t₁.stack = g.stack := mintId_stack hmint
    have hops : Unemitted cur g t₁ := Along.run _ _ _ hmint
    rw [hsame, push_run hpush]
    refine ⟨hops, fun _ => ⟨hbase, ty, id, ?_, ?_⟩⟩
    · rw [hpointee, hty]
    · show _ :: t₁.stack = _
      rw [hstack]

/-- The reference to a place is one operation that names the whole path: no step of the path
becomes an offset. -/
theorem compileAddrOf_run {lex lex' : Cursor} {isMut : Bool}
    (h : compileAddrOf Γ cur lex isMut span g = .ok ((cur', lex'), g')) :
    ∃ path place base, parsePlacePath Γ.src lex = .ok (path, lex') ∧
      Atom.new path.full = some place ∧
      g'.opsAt cur = g.opsAt cur ++ [.addrOf place isMut base] ∧
      (Γ.resolveMmioPlace path = .ok none → base = .runtime ∧
        ∃ ty id, resolvePlacePointeeTy Γ g path = .ok (some ty) ∧
          g'.stack = .ptr ty isMut id :: g.stack) := by
  obtain ⟨parsed, hparsed, h⟩ := lift_seq h
  obtain ⟨base, t₁, hbase, h⟩ := bind_run h
  obtain ⟨place, hplace, h⟩ := need_seq h
  obtain ⟨_, t₂, hemit, h⟩ := bind_run h
  cases h
  obtain ⟨hops, hstack, -⟩ := emitOp_run hemit
  obtain ⟨hsame, hpointee⟩ := addressOf_run cur hbase
  refine ⟨parsed.1, place, base, hparsed, hplace, ?_, fun hnone => ?_⟩
  · rw [hops, hsame]
  · obtain ⟨hbase, ty, id, hty, htop⟩ := hpointee hnone
    exact ⟨hbase, ty, id, hty, hstack.trans htop⟩

end AddressOf

end Tyu.Irgen

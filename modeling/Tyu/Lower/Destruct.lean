import Tyu.Lower.SlotRuns

/-!
# Destructuring

A pattern puts the base address into a temporary, and takes one field after the other through it:
the address, moved to the field, then the value there, unless the name borrows.
-/

namespace Tyu.Irgen

open Lib

/-! ## The code of a pattern -/

/-- The offsets of fields, laid out from `offset` on. -/
def fieldStarts (db : NominalDb) : List StructFieldInfo → Nat → Option (List Nat)
  | [], _ => some []
  | f :: rest, offset => do
    let size ← typeSizeBytes db f.ty
    let start := alignUp offset (fieldAlign size)
    let starts ← fieldStarts db rest (start + size)
    pure (start :: starts)

/-- A field as it is bound: by address or by value, its offset, the type of its local. -/
structure BoundField where
  borrow : Bool
  off : Nat
  tid : TypeId

/-- The code that binds one field of the object whose address is in the slot `tmp`. -/
def fieldCode (tmp : Nat) (base : TypeId) (slot : Nat) (f : BoundField) : List OpKind :=
  .localGet tmp base :: .ptrAddConst base f.off ::
    ((if f.borrow then [] else [.load f.tid]) ++ [.localSet slot f.tid])

def fieldsCode (tmp : Nat) (base : TypeId) : Nat → List BoundField → List OpKind
  | _, [] => []
  | slot, f :: rest => fieldCode tmp base slot f ++ fieldsCode tmp base (slot + 1) rest

structure Gen.Adds (cur : BlockId) (ops : List OpKind) (g g' : Gen) : Prop where
  ops : g'.opsAt cur = g.opsAt cur ++ ops
  locals : g'.locals = g.locals
  sig : g'.sig = g.sig

section Code

variable {Γ : Env} {g t g' : Gen} {cur cur' : BlockId} {span : Span} {ops ops' : List OpKind}

theorem Gen.Adds.trans (h : g.Adds cur ops t) (h' : t.Adds cur ops' g') :
    g.Adds cur (ops ++ ops') g' where
  ops := by rw [h'.ops, h.ops, List.append_assoc]
  locals := h'.locals.trans h.locals
  sig := h'.sig.trans h.sig

theorem Gen.SameCode.adds (h : g.SameCode g') : g.Adds cur [] g' where
  ops := by rw [Gen.opsAt, h.blocks, Gen.opsAt, List.append_nil]
  locals := h.locals
  sig := h.sig

theorem emitOp_adds {kind : OpKind} {u : Unit} (h : emitOp Γ cur kind span g = .ok (u, g')) :
    g.Adds cur [kind] g' :=
  ⟨(emitOp_run h).1, (emitOp_run h).2.2, (emitOp_blocks h).2.2.1⟩

theorem silent_adds {α : Type} {m : GenM α} [hm : Silent m] {a : α} (h : m g = .ok (a, g')) :
    g.Adds cur [] g' := (hm.run _ _ _ h).adds

theorem bindLocal_run {l : LocalVar} {tid : TypeId} {full : TcError} {u : Unit}
    (h : bindLocal Γ cur l tid full span g = .ok (u, g')) :
    g.locals.length < 64 ∧
      g'.opsAt cur = g.opsAt cur ++ [.localSet (localSlot g g.locals.length) tid] ∧
      g'.locals = g.locals ++ [l] ∧ g'.sig = g.sig := by
  obtain ⟨_, _, hget, h⟩ := bind_run h
  cases hget
  obtain ⟨_, t, hadd, hemit⟩ := bind_run h
  obtain ⟨hroom, rfl⟩ := addLocal_run hadd
  have hadds : Gen.Adds cur _ _ g' := emitOp_adds hemit
  exact ⟨hroom, hadds.ops, hadds.locals, hadds.sig⟩

def baseTid (baseMut : Bool) : TypeId := if baseMut then TY_PTR_MUT else TY_PTR

theorem compileFieldBind_code {structTy : TypeAtom} {baseMut : Bool} {basePlace : PlaceId}
    {tmp off next : Nat} {p : DestructBind × StructFieldInfo}
    (h : compileFieldBind Γ cur structTy baseMut basePlace tmp off p span g = .ok (next, g')) :
    ∃ (k : Nat) (tid : TypeId) (l : LocalVar), typeSizeBytes Γ.nominals p.2.ty = some k ∧
      next = alignUp off (fieldAlign k) + k ∧ g.locals.length < 64 ∧
      g'.opsAt cur = g.opsAt cur ++ fieldCode tmp (baseTid baseMut) (localSlot g g.locals.length)
        ⟨p.1.borrow, alignUp off (fieldAlign k), tid⟩ ∧
      g'.locals = g.locals ++ [l] ∧ l.name = p.1.name ∧ findLocal g p.1.name = none ∧
      g'.sig = g.sig := by
  obtain ⟨-, h⟩ := check_seq h
  obtain ⟨k, hk, -, h⟩ := placeField_seq h
  obtain ⟨_, t₁, hget, h⟩ := bind_run h
  obtain ⟨_, t₂, hpush, h⟩ := bind_run h
  obtain ⟨_, t₃, hmove, h⟩ := bind_run h
  have haddr : g.Adds cur ([.localGet tmp (baseTid baseMut)] ++ [] ++
      [.ptrAddConst (baseTid baseMut) (alignUp off (fieldAlign k))]) t₃ :=
    ((emitOp_adds hget).trans (silent_adds hpush)).trans (emitOp_adds hmove)
  have hbound : ∀ {more : List OpKind} {t u : Gen} {l : LocalVar} {tid : TypeId} {full : TcError}
      {a : Unit}, t₃.Adds cur more t → findLocal t p.1.name = none → l.name = p.1.name →
      bindLocal Γ cur l tid full span t = .ok (a, u) → g.locals.length < 64 ∧
        u.opsAt cur = g.opsAt cur ++ (.localGet tmp (baseTid baseMut) ::
          .ptrAddConst (baseTid baseMut) (alignUp off (fieldAlign k)) ::
          (more ++ [.localSet (localSlot g g.locals.length) tid])) ∧
        u.locals = g.locals ++ [l] ∧ findLocal g p.1.name = none ∧ u.sig = g.sig := by
    intro more t u l tid full a hmore hfresh hname hbind
    obtain ⟨hroom, hops, hlocals, hsig⟩ := bindLocal_run hbind
    have hadds := haddr.trans hmore
    have hslot : localSlot t t.locals.length = localSlot g g.locals.length := by
      unfold localSlot
      rw [hadds.locals, hadds.sig]
    refine ⟨hadds.locals ▸ hroom, ?_, hlocals.trans (by rw [hadds.locals]), ?_,
      hsig.trans hadds.sig⟩
    · rw [hops, hadds.ops, hslot, List.append_assoc, List.append_assoc]
      rfl
    · unfold findLocal at hfresh ⊢
      rw [← hadds.locals]
      exact hfresh
  dsimp only at h
  split at h
  · next hborrow =>
    obtain ⟨_, _, hget, h⟩ := bind_run h
    cases hget
    obtain ⟨hfresh, h⟩ := check_seq h
    obtain ⟨_, t₄, hdiscard, h⟩ := bind_run h
    obtain ⟨_, t₅, hbind, h⟩ := bind_run h
    cases h
    have hsilent : t₃.Adds cur [] t₄ := silent_adds hdiscard
    have hfresh : findLocal t₄ p.1.name = none := by
      unfold findLocal
      rw [hsilent.locals]
      exact hfresh
    obtain ⟨hroom, hops, hlocals, hnone, hsig⟩ := hbound hsilent hfresh rfl hbind
    refine ⟨k, baseTid p.1.isMut, _, hk, rfl, hroom, ?_, hlocals, rfl, hnone, hsig⟩
    rw [hops, fieldCode, if_pos hborrow]
    rfl
  · next hborrow =>
    obtain ⟨tid, t₄, htid, h⟩ := bind_run h
    obtain ⟨_, t₅, hload, h⟩ := bind_run h
    obtain ⟨_, t₆, hdiscard, h⟩ := bind_run h
    obtain ⟨_, t₇, hpush, h⟩ := bind_run h
    obtain ⟨_, _, hget, h⟩ := bind_run h
    cases hget
    obtain ⟨hfresh, h⟩ := check_seq h
    obtain ⟨_, t₈, hdiscard', h⟩ := bind_run h
    obtain ⟨_, t₉, hbind, h⟩ := bind_run h
    cases h
    have hmore : t₃.Adds cur ([] ++ [.load tid] ++ [] ++ [] ++ []) t₈ :=
      ((((silent_adds htid).trans (emitOp_adds hload)).trans (silent_adds hdiscard)).trans
        (silent_adds hpush)).trans (silent_adds hdiscard')
    have hsilent : t₇.Adds cur [] t₈ := silent_adds hdiscard'
    have hfresh : findLocal t₈ p.1.name = none := by
      unfold findLocal
      rw [hsilent.locals]
      exact hfresh
    obtain ⟨hroom, hops, hlocals, hnone, hsig⟩ := hbound hmore hfresh rfl hbind
    refine ⟨k, tid, _, hk, rfl, hroom, ?_, hlocals, rfl, hnone, hsig⟩
    rw [hops, fieldCode, if_neg hborrow]
    rfl

theorem findLocal_bound {l : LocalVar} (hlocals : g'.locals = g.locals ++ [l])
    (hfresh : findLocal g l.name = none) : findLocal g' l.name = some g.locals.length := by
  unfold findLocal at hfresh ⊢
  rw [hlocals, List.findIdx?_append, hfresh]
  show ((if l.name == l.name then some 0 else none).map _) = _
  rw [if_pos (beq_self_eq_true l.name)]
  exact congrArg some (Nat.zero_add _)

theorem findLocal_append {more : List LocalVar} (hlocals : g'.locals = g.locals ++ more)
    {name : Atom} {i : Nat} (h : findLocal g name = some i) : findLocal g' name = some i := by
  unfold findLocal at h ⊢
  rw [hlocals, List.findIdx?_append, h]
  rfl

theorem fieldBinds_code {structTy : TypeAtom} {baseMut : Bool} {basePlace : PlaceId} {tmp : Nat}
    {ps : List (DestructBind × StructFieldInfo)} {off next : Nat}
    (h : ps.foldlM (fun off p => compileFieldBind Γ cur structTy baseMut basePlace tmp off p span)
      off g = .ok (next, g')) :
    ∃ (fs : List BoundField) (ls : List LocalVar),
      fs.map BoundField.borrow = ps.map (fun p => p.1.borrow) ∧
      fieldStarts Γ.nominals (ps.map Prod.snd) off = some (fs.map BoundField.off) ∧
      g'.opsAt cur = g.opsAt cur ++
        fieldsCode tmp (baseTid baseMut) (g.sig.inputs.len + g.locals.length) fs ∧
      g'.locals = g.locals ++ ls ∧ g'.sig = g.sig ∧ (ps ≠ [] → g'.locals.length ≤ 64) ∧
      ls.length = ps.length ∧
      ∀ k p, ps[k]? = some p → findLocal g' p.1.name = some (g.locals.length + k) := by
  induction ps generalizing off g with
  | nil =>
    cases h
    refine ⟨[], [], rfl, rfl, (List.append_nil _).symm, (List.append_nil _).symm, rfl, ?_, rfl, ?_⟩
    · exact fun h => absurd rfl h
    · rintro k p ⟨⟩
  | cons p ps ih =>
    rw [List.foldlM_cons] at h
    obtain ⟨off', t, hbind, h⟩ := bind_run h
    obtain ⟨size, tid, l, hsize, rfl, hroom, hops, hlocals, hname, hfresh, hsig⟩ :=
      compileFieldBind_code hbind
    obtain ⟨fs, ls, hborrow, hstarts, hops', hlocals', hsig', hroom', hlen, hfound⟩ := ih h
    have hone : t.locals.length = g.locals.length + 1 := by rw [hlocals, List.length_append]; rfl
    refine ⟨⟨p.1.borrow, alignUp off (fieldAlign size), tid⟩ :: fs, l :: ls, ?_, ?_, ?_, ?_,
      hsig'.trans hsig, fun _ => ?_, congrArg Nat.succ hlen, ?_⟩
    · rw [List.map_cons, hborrow]
      rfl
    · rw [List.map_cons, fieldStarts, hsize]
      show (fieldStarts Γ.nominals (ps.map Prod.snd) _ >>= _) = _
      rw [hstarts]
      rfl
    · rw [hops', hops, localSlot_eq g (Nat.le_of_lt hroom), hsig, hone, List.append_assoc]
      rfl
    · rw [hlocals', hlocals, List.append_assoc]
      rfl
    · by_cases hps : ps = []
      · subst hps
        cases h
        rw [hone]
        exact hroom
      · exact hroom' hps
    · intro k q hk
      cases k with
      | zero =>
        cases hk
        refine findLocal_append hlocals' ?_
        rw [← hname] at hfresh ⊢
        exact findLocal_bound hlocals hfresh
      | succ k =>
        rw [hfound k q hk, hone, Nat.add_assoc, Nat.add_comm 1 k]

def patternOffsets (Γ : Env) (g : Gen) : Option (List Nat) := do
  let v ← g.stack.head?
  let t ← v.objectTy
  let s ← Γ.nominals.struct t
  fieldStarts Γ.nominals s.fields 0

theorem compileDestruct_code {binds : List DestructBind}
    (h : compileDestruct Γ cur binds span g = .ok (cur', g')) :
    ∃ (base : TypeId) (fs : List BoundField) (ls : List LocalVar),
      fs.map BoundField.borrow = binds.map DestructBind.borrow ∧
      patternOffsets Γ g = some (fs.map BoundField.off) ∧
      g'.opsAt cur = g.opsAt cur ++ (.localSet (g.namesEnd + 1) base ::
        fieldsCode (g.namesEnd + 1) base g.namesEnd fs) ∧
      g'.locals = g.locals ++ ls ∧ ls.length = binds.length ∧ g'.sig = g.sig ∧
      g'.locals.length ≤ 64 ∧ (g.Numbered → g'.Numbered) ∧ binds ≠ [] ∧
      ∀ k b, binds[k]? = some b → findLocal g' b.name = some (g.locals.length + k) := by
  have hleads : Gen.Leads Γ g.word.blocks.len g g' := Along.run _ _ _ h
  obtain ⟨hne, h⟩ := check_seq h
  obtain ⟨v, hv, h⟩ := peekOr_seq h
  obtain ⟨st, hst, h⟩ := need_seq h
  obtain ⟨s, hs, h⟩ := need_seq h
  obtain ⟨hlen, h⟩ := check_seq h
  obtain ⟨_, _, hget, h⟩ := bind_run h
  cases hget
  obtain ⟨_, t₁, hset, h⟩ := bind_run h
  obtain ⟨_, t₂, hdiscard, h⟩ := bind_run h
  obtain ⟨next, t₃, hfold, h⟩ := bind_run h
  cases h
  have hadds : g.Adds cur _ t₂ := (emitOp_adds hset).trans (silent_adds hdiscard)
  obtain ⟨fs, ls, hborrow, hstarts, hops, hlocals, hsig, hroom, hcount, hfound⟩ :=
    fieldBinds_code hfold
  have hzip : (binds.zip s.fields).map Prod.snd = s.fields := List.map_snd_zip (by omega)
  have hzip' : (binds.zip s.fields).map Prod.fst = binds := List.map_fst_zip (by omega)
  have hps : binds.zip s.fields ≠ [] := by
    intro hnil
    rw [hnil] at hzip'
    exact hne hzip'.symm
  have hroom := hroom hps
  have hsmall : g.locals.length ≤ 64 := by
    rw [hlocals, List.length_append, hadds.locals] at hroom
    omega
  have hafter := (Gen.After.refl hsmall).steps (hleads (Nat.le_refl _)).2
  refine ⟨baseTid st.2.1, fs, ls, ?_, ?_, ?_, hlocals.trans (by rw [hadds.locals]), ?_,
    hsig.trans hadds.sig, hroom, hafter.numbered, hne, ?_⟩
  · rw [hborrow]
    show (binds.zip s.fields).map (DestructBind.borrow ∘ Prod.fst) = _
    rw [← List.map_map, hzip']
  · have hty : v.objectTy = some st.1 := by
      cases v with
      | ptr ty isMut place =>
        cases hst
        rfl
      | plain ty =>
        change (if _ then none else some (ty, false, PLACE_NONE)) = some st at hst
        split at hst
        · cases hst
        · cases hst
          rfl
      | _ => cases hst
    rw [patternOffsets, hv]
    show (v.objectTy >>= _) = _
    rw [hty]
    show (Γ.nominals.struct st.1 >>= _) = _
    rw [hs]
    show fieldStarts Γ.nominals s.fields 0 = _
    rw [← hzip]
    exact hstarts
  · rw [hops, hadds.ops, hadds.sig, hadds.locals, tempBaseSlot_eq g hsmall, List.append_assoc]
    rfl
  · rw [hcount, List.length_zip]
    omega
  · intro k b hb
    have hklt : k < binds.length := (List.getElem?_eq_some_iff.mp hb).1
    have hk : (binds.zip s.fields)[k]? = some (b, s.fields[k]) := by
      rw [List.getElem?_zip_eq_some]
      exact ⟨hb, List.getElem?_eq_getElem (by omega)⟩
    have := hfound k _ hk
    rwa [hadds.locals] at this

end Code

/-! ## Running a pattern -/

/-- The value of the field at `off` of the object at `p`: its address when the name borrows,
else what the memory has there. -/
def FieldValue (W : World) (mem : Mem) (p : Int) (borrow : Bool) (off : Nat) (v : Int) : Prop :=
  if borrow then v = wrapI64 (p + off) else ∃ clock, v = W.load clock mem (wrapI64 (p + off))

section Running

variable {W : World} {m m' : Machine} {tmp slot : Nat} {base : TypeId} {f : BoundField}

theorem runOps_append {ops ops' : List OpKind} (h : runOps W (ops ++ ops') m = .ok m') :
    ∃ m₁, runOps W ops m = .ok m₁ ∧ runOps W ops' m₁ = .ok m' := by
  induction ops generalizing m with
  | nil => exact ⟨m, rfl, h⟩
  | cons kind ops ih =>
    obtain ⟨m₁, ctl, hexec, h⟩ := runOps_cons h
    obtain ⟨m₂, hfirst, hsecond⟩ := ih h
    refine ⟨m₂, ?_, hsecond⟩
    rw [runOps, hexec]
    exact hfirst

theorem fieldCode_runs (h : runOps W (fieldCode tmp base slot f) m = .ok m') :
    ∃ v, FieldValue W m.mem (m.view.locals.getD tmp 0) f.borrow f.off v ∧
      m'.view = ⟨m.view.vals, m.view.locals.set slot v, m.view.mem⟩ := by
  obtain ⟨m₁, _, hget, h⟩ := runOps_cons h
  obtain ⟨m₂, _, hmove, h⟩ := runOps_cons h
  obtain ⟨hview₁, -⟩ := acts_of_execOp hget
  obtain ⟨⟨p, rest, hvals, hview₂⟩, -⟩ := acts_of_execOp hmove
  rw [view_tick, hview₁] at hvals hview₂
  obtain ⟨rfl, rfl⟩ := List.cons.inj hvals
  have hlast : ∀ {x m₃ : Machine} {v : Int}, x.view = m.view.withVals (v :: m.view.vals) →
      runOps W [.localSet slot f.tid] x = .ok m₃ →
      m₃.view = ⟨m.view.vals, m.view.locals.set slot v, m.view.mem⟩ := by
    intro x m₃ v hx h
    obtain ⟨m₄, _, hset, h⟩ := runOps_cons h
    cases h
    obtain ⟨⟨w, rest, hvals, hview⟩, -⟩ := acts_of_execOp hset
    rw [hx] at hvals hview
    obtain ⟨rfl, rfl⟩ := List.cons.inj hvals
    rw [view_tick, hview]
    rfl
  unfold FieldValue
  cases hborrow : f.borrow with
  | true =>
    rw [hborrow] at h
    exact ⟨_, rfl, hlast (by rw [view_tick, hview₂]; rfl) h⟩
  | false =>
    rw [hborrow] at h
    obtain ⟨m₃, _, hload, h⟩ := runOps_cons h
    obtain ⟨⟨a, rest, hvals, hview₃⟩, -⟩ := acts_of_execOp hload
    rw [view_tick, hview₂] at hvals hview₃
    obtain ⟨rfl, rfl⟩ := List.cons.inj hvals
    exact ⟨_, ⟨_, rfl⟩, hlast (by rw [view_tick, hview₃]; rfl) h⟩

/-- With one field or two, every slot ends up with the value of its field: the temporary, one
above the first slot, is read before the second field takes its place. -/
theorem few_fields_run {n : Nat} {fs : List BoundField} {p : Int} {below : List Int}
    (hfew : fs.length ≤ 2) (hm : m.values = p :: below) (htmp : n + 1 < m.locals.length)
    (h : runOps W (.localSet (n + 1) base :: fieldsCode (n + 1) base n fs) m = .ok m') :
    ∀ k f, fs[k]? = some f → ∃ v, m'.view.locals[n + k]? = some v ∧
      FieldValue W m.mem p f.borrow f.off v := by
  obtain ⟨m₁, _, hset, h⟩ := runOps_cons h
  obtain ⟨⟨q, rest, hvals, hview⟩, -⟩ := acts_of_execOp hset
  obtain ⟨rfl, rfl⟩ := List.cons.inj (hm.symm.trans hvals)
  have htmp : n + 1 < m.view.locals.length := by
    show n + 1 < (m.locals.map Value.val).length
    rwa [List.length_map]
  have hmem : m₁.tick.mem = m.mem := congrArg View.mem hview
  have hlocals : m₁.tick.view.locals = m.view.locals.set (n + 1) p := congrArg View.locals hview
  match fs, hfew with
  | [], _ =>
    intro k f hk
    cases hk
  | [f₀], _ =>
    obtain ⟨m₂, hfirst, h⟩ := runOps_append h
    cases h
    obtain ⟨v, hv, hview'⟩ := fieldCode_runs hfirst
    have htaken : m₁.tick.view.locals.getD (n + 1) 0 = p := by
      rw [hlocals, List.getD_eq_getElem?_getD, List.getElem?_set_self htmp]
      rfl
    rw [hmem, htaken] at hv
    intro k f hk
    cases k with
    | zero =>
      cases hk
      refine ⟨v, ?_, hv⟩
      rw [hview', hlocals]
      refine List.getElem?_set_self ?_
      rw [List.length_set]
      exact Nat.lt_of_succ_lt htmp
    | succ k => cases hk
  | [f₀, f₁], _ =>
    obtain ⟨m₂, hfirst, h⟩ := runOps_append h
    obtain ⟨m₃, hsecond, h⟩ := runOps_append h
    cases h
    obtain ⟨v₀, hv₀, hview₀⟩ := fieldCode_runs hfirst
    obtain ⟨v₁, hv₁, hview₁⟩ := fieldCode_runs hsecond
    have htaken : m₁.tick.view.locals.getD (n + 1) 0 = p := by
      rw [hlocals, List.getD_eq_getElem?_getD, List.getElem?_set_self htmp]
      rfl
    have hlocals₂ : m₂.view.locals = (m.view.locals.set (n + 1) p).set n v₀ := by
      rw [hview₀, hlocals]
    have hmem₂ : m₂.mem = m.mem := (congrArg View.mem hview₀).trans hmem
    -- the slot of the first field is another one
    have htaken₂ : m₂.view.locals.getD (n + 1) 0 = p := by
      rw [hlocals₂, List.getD_eq_getElem?_getD, List.getElem?_set_ne (Nat.ne_of_lt (Nat.lt_succ_self n)),
        List.getElem?_set_self htmp]
      rfl
    rw [hmem, htaken] at hv₀
    rw [hmem₂, htaken₂] at hv₁
    have hend : m'.view.locals = ((m.view.locals.set (n + 1) p).set n v₀).set (n + 1) v₁ := by
      rw [hview₁, hlocals₂]
    intro k f hk
    match k with
    | 0 =>
      cases hk
      refine ⟨v₀, ?_, hv₀⟩
      show m'.view.locals[n]? = some v₀
      rw [hend, List.getElem?_set_ne (show n + 1 ≠ n by omega)]
      refine List.getElem?_set_self ?_
      rw [List.length_set]
      exact Nat.lt_of_succ_lt htmp
    | 1 =>
      cases hk
      refine ⟨v₁, ?_, hv₁⟩
      rw [hend]
      refine List.getElem?_set_self ?_
      rw [List.length_set, List.length_set]
      exact htmp
    | k + 2 => cases hk

end Running

/-! ## Binding by layout -/

/-- Lowering goes on: ranges and the epilogue are lowered, in whatever blocks, and what
encloses the pattern is closed.  Jumps go to blocks from number `nb` on. -/
inductive Rest (Γ : Env) (nb : Nat) : Gen → Gen → Prop
  | done {g : Gen} : Rest Γ nb g g
  | tokens {g t g' : Gen} {fuel n : Nat} {cur cur' : BlockId} {lex : Cursor} {allow : Bool}
      (h : compileTokens Γ (compileSpan Γ fuel) allow n cur lex g = .ok (cur', t))
      (rest : Rest Γ nb t g') : Rest Γ nb g g'
  | epilogue {g t g' : Gen} {fuel : Nat} {cur cur' : BlockId} {ensures : Option Range}
      (h : emitEpilogue Γ (compileSpan Γ fuel) cur ensures g = .ok (cur', t))
      (rest : Rest Γ nb t g') : Rest Γ nb g g'
  | step {g t g' : Gen} (h : Gen.CodeStep Γ nb g t) (rest : Rest Γ nb t g') : Rest Γ nb g g'

/-- The names of a pattern refer to the fields, as long as control does not go back over the
pattern, and share their slots with nothing. -/
structure BindsFields (Γ : Env) (cur : BlockId) (binds : List DestructBind) (g g' : Gen) :
    Prop where
  /-- what each name refers to, whatever is lowered later, all along a run from the pattern -/
  values : ∃ offs, patternOffsets Γ g = some offs ∧ offs.length = binds.length ∧
    ∀ (ops : List OpKind) (g'' : Gen), g'.opsAt cur = g.opsAt cur ++ ops →
      Rest Γ g'.word.blocks.len g' g'' →
      ∀ (W : World) (m m₁ : Machine) (p : Int) (below : List Int), m.values = p :: below →
        (∀ c s t, .localSet s t ∈ g''.opsAt c → s < m.locals.length) →
        runOps W ops m = .ok m₁ →
        ∀ c, CodeRun W g''.word ⟨cur, (g'.opsAt cur).length, m₁⟩ c →
          ∀ (k : Nat) (b : DestructBind) (off : Nat), binds[k]? = some b → offs[k]? = some off →
            ∃ i v, findLocal g'' b.name = some i ∧
              c.machine.view.locals[localSlot g'' i]? = some v ∧
              FieldValue W m.mem p b.borrow off v
  /-- after the first operation, which sets the temporary, no slot that is set is read -/
  here : ∀ ops, g'.opsAt cur = g.opsAt cur ++ ops →
    ∀ (A B : List OpKind) (s : Nat) (t t' : TypeId), A ≠ [] → ops = A ++ .localSet s t :: B →
      .localGet s t' ∉ B
  /-- later bindings and temporaries take other slots than the names bound by then -/
  later : ∀ g'', Rest Γ g'.word.blocks.len g' g'' →
    ∀ c added, g''.opsAt c = g'.opsAt c ++ added → ∀ s t, .localSet s t ∈ added →
      ∀ i < g'.locals.length, s ≠ localSlot g'' i
  /-- two names have two slots -/
  names : ∀ g'', Rest Γ g'.word.blocks.len g' g'' → ∀ i j, i < g''.locals.length →
    j < g''.locals.length → localSlot g'' i = localSlot g'' j → i = j

section Binding

variable {Γ : Env} {g g' g'' : Gen} {cur cur' : BlockId} {span : Span} {binds : List DestructBind}

theorem Rest.after (h : Rest Γ g.word.blocks.len g' g'') (hg : g.After g')
    (hnb : g.word.blocks.len ≤ g'.word.blocks.len) : g.After g'' := by
  induction h with
  | done => exact hg
  | tokens h _ ih =>
    have hleads : Gen.Leads Γ g.word.blocks.len _ _ := Along.run _ _ _ h
    exact ih (hg.steps (hleads hnb).2) (hleads hnb).1
  | epilogue h _ ih =>
    have hleads : Gen.Leads Γ g.word.blocks.len _ _ := Along.run _ _ _ h
    exact ih (hg.steps (hleads hnb).2) (hleads hnb).1
  | step h _ ih => exact ih (h.after hg) (hnb.trans h.blocks_le)

theorem mem_fieldCode_get {tmp slot s : Nat} {base t : TypeId} {f : BoundField}
    (h : OpKind.localGet s t ∈ fieldCode tmp base slot f) : s = tmp := by
  unfold fieldCode at h
  cases hborrow : f.borrow <;> simp_all

theorem fieldCode_set_last {tmp slot s : Nat} {base t : TypeId} {f : BoundField} {A B : List OpKind}
    (h : fieldCode tmp base slot f = A ++ .localSet s t :: B) : s = slot ∧ B = [] := by
  unfold fieldCode at h
  cases hborrow : f.borrow with
  | true =>
    rw [hborrow] at h
    rcases A with _ | ⟨a, _ | ⟨b, _ | ⟨c, A⟩⟩⟩ <;> simp_all
  | false =>
    rw [hborrow] at h
    rcases A with _ | ⟨a, _ | ⟨b, _ | ⟨c, _ | ⟨d, A⟩⟩⟩⟩ <;> simp_all

theorem few_fields_apart {n s : Nat} {base t t' : TypeId} {fs : List BoundField}
    {A B : List OpKind} (hfew : fs.length ≤ 2)
    (h : fieldsCode (n + 1) base n fs = A ++ .localSet s t :: B) : .localGet s t' ∉ B := by
  match fs, hfew with
  | [], _ => cases A <;> cases h
  | [f₀], _ =>
    have h : fieldCode (n + 1) base n f₀ = A ++ .localSet s t :: B := by
      rw [← h, fieldsCode, fieldsCode, List.append_nil]
    rw [(fieldCode_set_last h).2]
    exact List.not_mem_nil
  | [f₀, f₁], _ =>
    have h : fieldCode (n + 1) base n f₀ ++ fieldCode (n + 1) base (n + 1) f₁ =
        A ++ .localSet s t :: B := by
      rw [← h, fieldsCode, fieldsCode, fieldsCode, List.append_nil]
    obtain ⟨C, rfl, hC⟩ | ⟨C, hC, hB⟩ := List.append_eq_append_iff.mp h
    · rw [(fieldCode_set_last hC).2]
      exact List.not_mem_nil
    · cases C with
      | nil =>
        have hB : fieldCode (n + 1) base (n + 1) f₁ = [] ++ .localSet s t :: B := hB.symm
        rw [(fieldCode_set_last hB).2]
        exact List.not_mem_nil
      | cons kind C =>
        obtain ⟨rfl, rfl⟩ := List.cons.inj hB
        obtain ⟨rfl, rfl⟩ := fieldCode_set_last hC
        intro hmem
        exact absurd (mem_fieldCode_get hmem) (Nat.ne_of_lt (Nat.lt_succ_self s))

/-- A pattern of three fields or more reads the temporary after the second name has taken its
slot. -/
theorem BindsFields.few (h : BindsFields Γ cur binds g g')
    (hrun : compileDestruct Γ cur binds span g = .ok (cur', g')) : binds.length ≤ 2 := by
  by_contra hmany
  obtain ⟨base, fs, ls, hborrow, -, hops, -⟩ := compileDestruct_code hrun
  have hlen : fs.length = binds.length := by
    have := congrArg List.length hborrow
    rwa [List.length_map, List.length_map] at this
  obtain ⟨f₀, f₁, f₂, more, rfl⟩ : ∃ f₀ f₁ f₂ more, fs = f₀ :: f₁ :: f₂ :: more := by
    match fs, hlen with
    | [], hlen | [_], hlen | [_, _], hlen => simp at hlen; omega
    | f₀ :: f₁ :: f₂ :: more, _ => exact ⟨f₀, f₁, f₂, more, rfl⟩
  have hsplit : ∀ (tmp slot : Nat) (f : BoundField), ∃ A, fieldCode tmp base slot f =
      A ++ [.localSet slot f.tid] := by
    intro tmp slot f
    exact ⟨.localGet tmp base :: .ptrAddConst base f.off :: (if f.borrow then [] else [.load f.tid]),
      rfl⟩
  obtain ⟨A, hA⟩ := hsplit (g.namesEnd + 1) (g.namesEnd + 1) f₁
  refine h.here _ hops
    (.localSet (g.namesEnd + 1) base :: (fieldCode (g.namesEnd + 1) base g.namesEnd f₀ ++ A))
    (fieldCode (g.namesEnd + 1) base (g.namesEnd + 1 + 1) f₂ ++
      fieldsCode (g.namesEnd + 1) base (g.namesEnd + 1 + 1 + 1) more)
    (g.namesEnd + 1) f₁.tid base (List.cons_ne_nil _ _) ?_ ?_
  · show _ :: (fieldCode _ _ _ f₀ ++ (fieldCode _ _ _ f₁ ++ (fieldCode _ _ _ f₂ ++ _))) = _
    rw [hA]
    simp only [List.append_assoc, List.cons_append, List.nil_append]
  · exact List.mem_append_left _ (List.mem_cons_self ..)

theorem bindsFields_of_few (hg : g.Numbered) (hfew : binds.length ≤ 2)
    (hrun : compileDestruct Γ cur binds span g = .ok (cur', g')) : BindsFields Γ cur binds g g' := by
  obtain ⟨base, fs, ls, hborrow, hoffs, hops, hlocals, hcount, hsig, hroom, hnumbered, hne, hfound⟩ :=
    compileDestruct_code hrun
  have hlen : fs.length = binds.length := by
    have := congrArg List.length hborrow
    rwa [List.length_map, List.length_map] at this
  have hnames : g'.namesEnd = g.namesEnd + binds.length := by
    unfold Gen.namesEnd
    rw [hsig, hlocals, List.length_append, hcount, Nat.add_assoc]
  have hrest : ∀ {g''}, Rest Γ g'.word.blocks.len g' g'' → g'.After g'' :=
    fun h => h.after (.refl hroom) (Nat.le_refl _)
  refine ⟨⟨_, hoffs, by rw [List.length_map, hlen], ?_⟩, ?_, ?_, ?_⟩
  · intro ops g'' hops' hr W m m₁ p below hm hslots hrunOps c hcode k b off hb hoff
    obtain rfl := List.append_cancel_left (hops'.symm.trans hops)
    have hafter := hrest hr
    have htmp : g.namesEnd + 1 < m.locals.length := by
      obtain ⟨added, hadded, -⟩ := hafter.code cur
      refine hslots cur _ base ?_
      rw [hadded, hops]
      exact List.mem_append_left _ (List.mem_append_right _ (List.mem_cons_self ..))
    rw [List.getElem?_map] at hoff
    obtain ⟨f, hf, rfl⟩ := Option.map_eq_some_iff.mp hoff
    obtain ⟨v, hv, hvalue⟩ := few_fields_run (hlen ▸ hfew) hm htmp hrunOps k f hf
    have hklt : k < binds.length := (List.getElem?_eq_some_iff.mp hb).1
    have hbf : f.borrow = b.borrow := by
      have := congrArg (fun xs => xs[k]?) hborrow
      simp only [List.getElem?_map, hf, hb] at this
      exact Option.some.inj this
    have hi := hfound k b hb
    have hslot : localSlot g'' (g.locals.length + k) = g.namesEnd + k := by
      have hle : g.locals.length + k ≤ 64 := by
        rw [hlocals, List.length_append, hcount] at hroom
        omega
      rw [localSlot_eq g'' hle, hafter.sig, hsig, Gen.namesEnd, Nat.add_assoc]
    refine ⟨_, v, hafter.findLocal hi, ?_, hbf ▸ hvalue⟩
    have hkeeps := (hafter.run_keeps (hnumbered hg) (.inl ⟨rfl, Nat.le_refl _⟩) hcode).2
    rw [hslot, hkeeps _ ?_ ?_]
    · exact hv
    · rw [hsig, Gen.namesEnd]
      omega
    · rw [hnames]
      omega
  · intro ops hops' A B s t t' hA hsplit hmem
    obtain rfl := List.append_cancel_left (hops'.symm.trans hops)
    cases A with
    | nil => exact hA rfl
    | cons kind A => exact few_fields_apart (hlen ▸ hfew) (List.cons.inj hsplit).2 hmem
  · intro g'' hr c added hadded s t hmem i hi heq
    have hafter := hrest hr
    obtain ⟨added', hadded', hspares⟩ := hafter.code c
    obtain rfl := List.append_cancel_left (hadded.symm.trans hadded')
    have hslot := (hspares _ hmem).slot s t rfl
    rw [localSlot_eq g'' (by omega), hafter.sig] at heq
    unfold Gen.namesEnd at hslot
    omega
  · intro g'' hr i j hi hj heq
    have hafter := hrest hr
    have hroom' := hafter.room
    rw [localSlot_eq g'' (by omega), localSlot_eq g'' (by omega)] at heq
    omega

end Binding

def AT_POINT : TypeAtom := ⟨"Point", by decide⟩

def AT_X : Atom := ⟨"x", by decide⟩
def AT_Y : Atom := ⟨"y", by decide⟩
def AT_Z : Atom := ⟨"z", by decide⟩

def pointEnv (names : List Atom) : Env where
  src := ⟨[]⟩
  words := []
  subtypes := []
  descriptor := none
  resources := []
  nominals := ⟨[⟨AT_POINT, names.map fun name => ⟨name, AT_I64⟩⟩], []⟩
  iso := []
  allowRawCasts := false
  wordBits := 64
  digest _ := ""
  rangeReason _ _ _ _ := ""
  resolveMmioPlace _ := .ok none
  parseTypeExpr _ := none
  parseWordSig _ := none

def pointGen (names : List Atom) : Gen :=
  let g := Gen.blank (pointEnv names) (forecastSession .off) 0 ⟨.new, .new⟩ AT_EMPTY
  { g with
    stack := [.plain AT_POINT]
    word := { g.word with blocks := ⟨[⟨⟨0⟩, .new, .new⟩], one_entry⟩ } }

theorem pointGen_numbered (names : List Atom) : (pointGen names).Numbered := by
  intro i b hb
  cases i with
  | zero =>
    cases hb
    rfl
  | succ i => cases hb

/-- `=> \x7b x y … \x7d` -/
def pointBinds (names : List Atom) : List DestructBind := names.map fun name => ⟨name, false, false⟩

def pointMachine : Machine where
  stack := ⟨[⟨⟨1000, none⟩, TY_PTR⟩], by decide⟩
  locals := List.replicate 8 ⟨0, none⟩
  mem := ⟨[(1000, 7), (1008, 8), (1016, 9)], 0, 0⟩
  clock := 0

def pointCode : List OpKind :=
  .localSet 1 TY_PTR ::
    fieldsCode 1 TY_PTR 0 [⟨false, 0, TY_I64⟩, ⟨false, 8, TY_I64⟩, ⟨false, 16, TY_I64⟩]

end Tyu.Irgen

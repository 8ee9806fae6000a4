import Tyu.Frontend.Parser
import Tyu.Lower.Inside

/-! # Enum constants -/

namespace Tyu.Irgen

open Lib Frontend

inductive NominalError where
  | structNameInvalid | structFieldNameInvalid | structFieldDuplicate | structFieldTypeInvalid
  | structDbCapacity
  | enumNameInvalid | enumBaseTypeInvalid | enumVariantNameInvalid | enumVariantDuplicate
  | enumVariantCapacityExceeded
deriving DecidableEq

section Tables

-- how a span is read as a name and as a type
variable (atom typeAtom : Frontend.Range → Option Atom)

def addField (fields : List StructFieldInfo) (f : StructFieldAst) :
    Except NominalError (List StructFieldInfo) := do
  let name ← expect (atom f.name) .structFieldNameInvalid
  require (∀ existing ∈ fields, existing.name ≠ name) .structFieldDuplicate
  let ty ← expect (typeAtom f.ty) .structFieldTypeInvalid
  require (fields.length < 64) .structDbCapacity
  pure (fields ++ [⟨name, ty⟩])

def addStruct (structs : List StructInfo) (s : StructDeclAst) :
    Except NominalError (List StructInfo) := do
  let name ← expect (atom s.name) .structNameInvalid
  let fields ← s.fields.items.foldlM (addField atom typeAtom) []
  require (structs.length < 64) .structDbCapacity
  pure (structs ++ [⟨name, fields⟩])

def addVariant (variants : List EnumVariantInfo) (v : EnumVariantAst) :
    Except NominalError (List EnumVariantInfo) := do
  let name ← expect (atom v.name) .enumVariantNameInvalid
  require (∀ existing ∈ variants, existing.name ≠ name) .enumVariantDuplicate
  require (variants.length < 64) .enumVariantCapacityExceeded
  pure (variants ++ [⟨name, 0⟩])

def enumBase (e : EnumDeclAst) : Except NominalError TypeAtom :=
  match e.base with
  | some r => expect (typeAtom r) .enumBaseTypeInvalid
  | none => pure AT_EMPTY

def addEnum (enums : List EnumInfo) (e : EnumDeclAst) : Except NominalError (List EnumInfo) := do
  let name ← expect (atom e.name) .enumNameInvalid
  let base ← enumBase typeAtom e
  let variants ← e.variants.items.foldlM (addVariant atom) []
  require (enums.length < 64) .enumVariantCapacityExceeded
  pure (enums ++ [⟨name, base, variants⟩])

def buildNominalDb (ast : Frontend.ModuleAst) : Except NominalError NominalDb := do
  let structs ← ast.structs.items.foldlM (addStruct atom typeAtom) []
  let enums ← ast.enums.items.foldlM (addEnum atom typeAtom) []
  pure ⟨structs, enums⟩

def declaredValue (ast : Frontend.ModuleAst) (enumTy var : Atom) : Option Int := do
  let e ← ast.enums.items.find? fun e => atom e.name == some enumTy
  let v ← e.variants.items.find? fun v => atom v.name == some var
  pure v.value

def Leaves (ops : List OpKind) (d : Int) : Prop :=
  ∀ W m m', runOps W ops m = .ok m' → m'.values = d :: m.values

/-- Wherever a qualified variant is lowered, the new code leaves the declared value. -/
def UsesExact (ast : Frontend.ModuleAst) (db : NominalDb) : Prop :=
  ∀ (Γ : Env) (cur : BlockId) (span : Span) (enumTy var : Atom) (g g' : Gen), Γ.nominals = db →
    compileEnumVariant Γ cur span enumTy var g = .ok (true, g') →
    ∃ d, declaredValue atom ast enumTy var = some d ∧
      ∃ ops, g'.opsAt cur = g.opsAt cur ++ ops ∧ Leaves ops d

end Tables

/-! ## What the tables keep -/

section Kept

variable {atom typeAtom : Frontend.Range → Option Atom}

theorem foldlM_entries {α β ε : Type} {R : α → β → Prop} {step : List β → α → Except ε (List β)}
    (hstep : ∀ acc a acc', step acc a = .ok acc' → ∃ b, acc' = acc ++ [b] ∧ R a b) {l : List α}
    {acc acc' : List β} (h : l.foldlM step acc = .ok acc') :
    ∃ bs, acc' = acc ++ bs ∧ List.Forall₂ R l bs := by
  induction l generalizing acc with
  | nil =>
    cases h
    exact ⟨[], (List.append_nil _).symm, .nil⟩
  | cons a l ih =>
    rw [List.foldlM_cons] at h
    obtain ⟨mid, hfirst, hrest⟩ := bind_eq_ok.mp h
    obtain ⟨b, rfl, hb⟩ := hstep _ _ _ hfirst
    obtain ⟨bs, rfl, hbs⟩ := ih hrest
    exact ⟨b :: bs, List.append_assoc .., .cons hb hbs⟩

theorem find?_entries {α β : Type} {R : α → β → Prop} {p : α → Bool} {q : β → Bool} {l : List α}
    {bs : List β} (hpq : ∀ a b, R a b → p a = q b) (h : List.Forall₂ R l bs) :
    (l.find? p = none ∧ bs.find? q = none) ∨
      ∃ a b, l.find? p = some a ∧ bs.find? q = some b ∧ R a b := by
  induction h with
  | nil => exact .inl ⟨rfl, rfl⟩
  | @cons a b l bs hab _ ih =>
    rw [List.find?_cons, List.find?_cons, hpq a b hab]
    cases q b with
    | true => exact .inr ⟨a, b, rfl, rfl, hab⟩
    | false => exact ih

def VariantEntry (atom : Frontend.Range → Option Atom) (v : EnumVariantAst)
    (info : EnumVariantInfo) : Prop := atom v.name = some info.name ∧ info.value = 0

def EnumEntry (atom : Frontend.Range → Option Atom) (e : EnumDeclAst) (info : EnumInfo) : Prop :=
  atom e.name = some info.name ∧
    List.Forall₂ (VariantEntry atom) e.variants.items info.variants

theorem addVariant_entry {acc acc' : List EnumVariantInfo} {v : EnumVariantAst}
    (h : addVariant atom acc v = .ok acc') :
    ∃ info, acc' = acc ++ [info] ∧ VariantEntry atom v info := by
  obtain ⟨name, hname, h⟩ := bind_eq_ok.mp h
  obtain ⟨_, -, h⟩ := bind_eq_ok.mp h
  obtain ⟨_, -, h⟩ := bind_eq_ok.mp h
  cases h
  exact ⟨_, rfl, expect_eq_ok.mp hname, rfl⟩

theorem addEnum_entry {acc acc' : List EnumInfo} {e : EnumDeclAst}
    (h : addEnum atom typeAtom acc e = .ok acc') :
    ∃ info, acc' = acc ++ [info] ∧ EnumEntry atom e info := by
  obtain ⟨name, hname, h⟩ := bind_eq_ok.mp h
  obtain ⟨base, -, h⟩ := bind_eq_ok.mp h
  obtain ⟨variants, hvariants, h⟩ := bind_eq_ok.mp h
  obtain ⟨_, -, h⟩ := bind_eq_ok.mp h
  cases h
  obtain ⟨_, rfl, hall⟩ := foldlM_entries (fun _ _ _ h => addVariant_entry h) hvariants
  exact ⟨_, rfl, expect_eq_ok.mp hname, hall⟩

theorem enumVariantValue_eq {ast : Frontend.ModuleAst} {db : NominalDb}
    (hdb : buildNominalDb atom typeAtom ast = .ok db) (enumTy var : Atom) :
    enumVariantValue db enumTy var = (declaredValue atom ast enumTy var).map fun _ => 0 := by
  obtain ⟨structs, -, h⟩ := bind_eq_ok.mp hdb
  obtain ⟨enums, henums, h⟩ := bind_eq_ok.mp h
  cases h
  obtain ⟨_, rfl, hall⟩ := foldlM_entries (fun _ _ _ h => addEnum_entry h) henums
  have hname : ∀ (n : Frontend.Range) (name : Atom), atom n = some name →
      ∀ x, (atom n == some x) = (name == x) := by
    intro n name hn x
    rw [hn]
    rfl
  unfold enumVariantValue NominalDb.enum declaredValue
  rcases find?_entries (p := fun e => atom e.name == some enumTy)
    (q := fun info => info.name == enumTy) (fun _ _ h => hname _ _ h.1 enumTy) hall with
    ⟨he, hinfo⟩ | ⟨e, info, he, hinfo, hentry⟩
  · rw [he, hinfo]
    rfl
  · rw [he, hinfo]
    show (info.variants.find? _).bind _ = ((e.variants.items.find? _).bind _).map _
    rcases find?_entries (p := fun v => atom v.name == some var)
      (q := fun info => info.name == var) (fun _ _ h => hname _ _ h.1 var) hentry.2 with
      ⟨hv, hw⟩ | ⟨v, w, hv, hw, hvariant⟩
    · rw [hv, hw]
      rfl
    · rw [hv, hw]
      exact congrArg some hvariant.2

end Kept

/-! ## The lowering of a variant -/

theorem compileEnumVariant_run {Γ : Env} {cur : BlockId} {span : Span} {enumTy var : Atom}
    {g g' : Gen} (h : compileEnumVariant Γ cur span enumTy var g = .ok (true, g')) :
    ∃ v tid, enumVariantValue Γ.nominals enumTy var = some v ∧
      g'.opsAt cur = g.opsAt cur ++ [.constI64 v, .cast TY_I64 tid] := by
  unfold compileEnumVariant at h
  cases hv : enumVariantValue Γ.nominals enumTy var with
  | none =>
    rw [hv] at h
    obtain ⟨_, h⟩ := check_seq h
    cases h
  | some v =>
    rw [hv] at h
    obtain ⟨_, t₁, hconst, h⟩ := bind_run h
    obtain ⟨_, t₂, hpush, h⟩ := bind_run h
    obtain ⟨tid, t₃, htid, h⟩ := bind_run h
    obtain ⟨_, t₄, hcast, h⟩ := bind_run h
    obtain ⟨_, t₅, hdiscard, h⟩ := bind_run h
    obtain ⟨_, t₆, hpush', h⟩ := bind_run h
    cases h
    refine ⟨v, tid, rfl, ?_⟩
    cases push_run hpush'
    cases discard_run hdiscard
    show t₄.opsAt cur = _
    rw [(emitOp_run hcast).1, (tyIdOfType_run cur htid).1, push_run hpush]
    show t₁.opsAt cur ++ _ = _
    rw [(emitOp_run hconst).1, List.append_assoc]
    rfl

theorem internType_accepts (db : NominalDb) (ty : Atom) (types : FixedVec Atom 64)
    (sizes : FixedVec Nat 64) (htypes : types.items.length < 64) (hsizes : sizes.items.length < 64) :
    ∃ r, internType db types sizes ty = .ok r := by
  unfold internType
  cases types.items.findIdx? fun a => a == ty with
  | some i => exact ⟨_, rfl⟩
  | none =>
    have hroom : types.len ≤ 255 := by
      show types.items.length ≤ 255
      omega
    dsimp only
    unfold FixedVec.push
    rw [dif_pos htypes, dif_pos hsizes, require, if_pos hroom]
    exact ⟨_, rfl⟩

theorem runs_bind {α β : Type} {m : GenM α} {f : α → GenM β} {g t g' : Gen} {a : α} {b : β}
    (h : m g = .ok (a, t)) (h' : f a t = .ok (b, g')) : (m >>= f) g = .ok (b, g') :=
  bind_eq_ok.mpr ⟨(a, t), h, h'⟩

theorem compileEnumVariant_accepts {Γ : Env} {enumTy var : Atom} {v : Int}
    (h : enumVariantValue Γ.nominals enumTy var = some v) :
    ∃ g', compileEnumVariant Γ ⟨0⟩ .UNKNOWN enumTy var arrayGen = .ok (true, g') := by
  obtain ⟨r, hr⟩ := internType_accepts Γ.nominals enumTy arrayGen.word.types
    arrayGen.word.typeSizes (by decide) (by decide)
  have hty : ∀ g : Gen, g.word.types = arrayGen.word.types →
      g.word.typeSizes = arrayGen.word.typeSizes → tyIdOfType Γ enumTy g =
        .ok (r.1, { g with word := { g.word with types := r.2.1, typeSizes := r.2.2 } }) := by
    intro g htypes hsizes
    unfold tyIdOfType
    rw [htypes, hsizes, hr]
    rfl
  unfold compileEnumVariant
  rw [h]
  exact ⟨_, runs_bind rfl (runs_bind rfl (runs_bind (hty _ rfl rfl)
    (runs_bind rfl (runs_bind rfl (runs_bind rfl rfl)))))⟩

theorem leaves_const (v : Int) (src tgt : TypeId) : Leaves [.constI64 v, .cast src tgt] v := by
  intro W m m' h
  obtain ⟨m₁, _, hconst, h⟩ := runOps_cons h
  obtain ⟨m₂, _, hcast, h⟩ := runOps_cons h
  cases h
  obtain ⟨⟨c, m₃⟩, hpop, hcast⟩ := bind_eq_ok.mp hcast
  obtain ⟨m₄, hpush, hcast⟩ := bind_eq_ok.mp hcast
  cases hcast
  have hstack : ⟨⟨v, none⟩, TY_I64⟩ :: m.stack.items = c :: m₃.stack.items :=
    (of_pushVal hconst).1.symm.trans (Machine.of_pop hpop).1
  obtain ⟨rfl, hrest⟩ := List.cons.inj hstack
  show (m₂.stack.items.map Cell.val) = v :: m.stack.items.map Cell.val
  rw [(Machine.of_push hpush).1, hrest]
  rfl

theorem UsesExact.zero {atom typeAtom : Frontend.Range → Option Atom} {ast : Frontend.ModuleAst}
    {db : NominalDb} {enumTy var : Atom} {d : Int} (h : UsesExact atom ast db)
    (hdb : buildNominalDb atom typeAtom ast = .ok db)
    (hd : declaredValue atom ast enumTy var = some d) : d = 0 := by
  have hvalue : enumVariantValue db enumTy var = some 0 := by
    rw [enumVariantValue_eq hdb, hd]
    rfl
  obtain ⟨g', hrun⟩ := compileEnumVariant_accepts (Γ := { arrayEnv with nominals := db }) hvalue
  obtain ⟨d', hd', ops, hops, hleaves⟩ := h _ _ _ _ _ _ _ rfl hrun
  cases hd.symm.trans hd'
  obtain ⟨v, tid, hv, hcode⟩ := compileEnumVariant_run hrun
  cases hvalue.symm.trans hv
  cases List.append_cancel_left (hcode.symm.trans hops)
  have hzero := hleaves .reference ⟨⟨[], Nat.zero_le _⟩, [], ⟨[], 0, 0⟩, 0⟩ _ rfl
  exact (List.cons.inj hzero).1.symm

/-- The lowered variants of a module have their declared values exactly where all of these are
zero. -/
theorem enum_constants_exact_iff {atom typeAtom : Frontend.Range → Option Atom}
    {ast : Frontend.ModuleAst} {db : NominalDb} (hdb : buildNominalDb atom typeAtom ast = .ok db) :
    UsesExact atom ast db ↔
      ∀ enumTy var d, declaredValue atom ast enumTy var = some d → d = 0 := by
  constructor
  · exact fun h _ _ _ hd => h.zero hdb hd
  · intro h Γ cur span enumTy var g g' hΓ hrun
    obtain ⟨v, tid, hv, hops⟩ := compileEnumVariant_run hrun
    rw [hΓ, enumVariantValue_eq hdb] at hv
    obtain ⟨d, hd, rfl⟩ := Option.map_eq_some_iff.mp hv
    refine ⟨d, hd, _, hops, ?_⟩
    rw [h _ _ _ hd]
    exact leaves_const 0 _ _

def AT_COLOR : Atom := ⟨"Color", by decide⟩

def AT_RED : Atom := ⟨"Red", by decide⟩

def AT_GREEN : Atom := ⟨"Green", by decide⟩

def colorAtom (r : Frontend.Range) : Option Atom := [AT_COLOR, AT_RED, AT_GREEN][r.start]?

def colorAst : Frontend.ModuleAst :=
  { Frontend.ModuleAst.named ⟨0, 0⟩ with
    enums := ⟨[⟨⟨0, 1⟩, none, ⟨[⟨⟨1, 2⟩, 1⟩, ⟨⟨2, 3⟩, 2⟩], by decide⟩⟩], by decide⟩ }

def colorDb : NominalDb := ⟨[], [⟨AT_COLOR, AT_EMPTY, [⟨AT_RED, 0⟩, ⟨AT_GREEN, 0⟩]⟩]⟩

theorem colorDb_built : buildNominalDb colorAtom colorAtom colorAst = .ok colorDb := by
  decide

theorem enum_constants_colors : UsesExact colorAtom colorAst colorDb ↔
    ∀ enumTy var d, declaredValue colorAtom colorAst enumTy var = some d → d = 0 :=
  enum_constants_exact_iff colorDb_built

/-- Variants with different values become the same constant. -/
theorem colors_collapse : declaredValue colorAtom colorAst AT_COLOR AT_RED = some 1 ∧
    declaredValue colorAtom colorAst AT_COLOR AT_GREEN = some 2 ∧
    enumVariantValue colorDb AT_COLOR AT_RED = enumVariantValue colorDb AT_COLOR AT_GREEN ∧
    ¬ UsesExact colorAtom colorAst colorDb := by
  have hred : declaredValue colorAtom colorAst AT_COLOR AT_RED = some 1 := by decide
  refine ⟨hred, by decide, by decide, fun h => ?_⟩
  cases h.zero colorDb_built hred

end Tyu.Irgen

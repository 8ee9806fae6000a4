import Tyu.Lib.Layout
import Tyu.Lower.CompileMemory

/-! # The true sizes of types -/

namespace Tyu.Irgen

open Lib

/-- A field of `k` bytes as an item to place. -/
def fieldItem (k : Nat) : Item := ⟨k, fieldAlign k⟩

def fieldItems (sz : TypeAtom → Nat) (fields : List StructFieldInfo) : List Item :=
  fields.map fun f => fieldItem (sz f.ty)

def maxAlign (items : List Item) : Nat := items.foldl (fun a i => max a i.align) 1

def structExtent (sz : TypeAtom → Nat) (fields : List StructFieldInfo) : Nat :=
  Item.extent (fieldItems sz fields) (maxAlign (fieldItems sz fields))

inductive TypeSize (db : NominalDb) : TypeAtom → Nat → Prop
  | builtin {ty : TypeAtom} {n : Nat} (h : primSizeBytes ty.text = some n) : TypeSize db ty n
  | array {ty elem : TypeAtom} {len k : Nat} (he : arrayElemType ty = some elem)
      (hl : arrayLen ty = some len) (hk : TypeSize db elem k) : TypeSize db ty (len * k)
  | struct {ty : TypeAtom} {s : StructInfo} (sz : TypeAtom → Nat)
      (hp : primSizeBytes ty.text = none) (ha : arrayParts ty = none)
      (hs : db.struct ty = some s) (hf : ∀ f ∈ s.fields, TypeSize db f.ty (sz f.ty)) :
      TypeSize db ty (structExtent sz s.fields)
  | enum {ty : TypeAtom} {e : EnumInfo} {n : Nat} (hp : primSizeBytes ty.text = none)
      (ha : arrayParts ty = none) (hs : db.struct ty = none) (he : db.enum ty = some e)
      (hn : TypeSize db e.base n) : TypeSize db ty n

/-- The size of a struct by the placement of its fields, whatever its name. -/
def StructSize (db : NominalDb) (s : StructInfo) (n : Nat) : Prop :=
  ∃ sz : TypeAtom → Nat, (∀ f ∈ s.fields, TypeSize db f.ty (sz f.ty)) ∧
    n = structExtent sz s.fields

/-- The names of structs and enums are identifiers: no parenthesis is in them. -/
structure PlainNames (db : NominalDb) : Prop where
  structs : ∀ s ∈ db.structs, '(' ∉ s.name.text.toList
  enums : ∀ e ∈ db.enums, '(' ∉ e.name.text.toList

def IsAlign (a : Nat) : Prop := a = 1 ∨ a = 2 ∨ a = 4 ∨ a = 8

variable {a n off al : Nat} {sz : TypeAtom → Nat} {p : Nat × Nat} {db : NominalDb}

theorem IsAlign.pos (h : IsAlign a) : 0 < a := by
  rcases h with rfl | rfl | rfl | rfl <;> omega

theorem fieldAlign_isAlign (k : Nat) : IsAlign (fieldAlign k) := by
  unfold fieldAlign IsAlign
  split
  · omega
  · split
    · omega
    · split <;> omega

theorem IsAlign.max {b : Nat} (ha : IsAlign a) (hb : IsAlign b) : IsAlign (max a b) := by
  rcases Nat.le_total a b with h | h
  · rw [Nat.max_eq_right h]
    exact hb
  · rw [Nat.max_eq_left h]
    exact ha

theorem fieldItems_pos (sz : TypeAtom → Nat) (fields : List StructFieldInfo) :
    ∀ i ∈ fieldItems sz fields, 0 < i.align := by
  intro i hi
  obtain ⟨f, -, rfl⟩ := List.mem_map.mp hi
  exact (fieldAlign_isAlign _).pos

theorem foldl_max_isAlign {fields : List StructFieldInfo} (ha : IsAlign a) :
    IsAlign ((fieldItems sz fields).foldl (fun a i => Nat.max a i.align) a) := by
  induction fields generalizing a with
  | nil => exact ha
  | cons f rest ih => exact ih (ha.max (fieldAlign_isAlign _))

theorem maxAlign_isAlign {fields : List StructFieldInfo} :
    IsAlign (maxAlign (fieldItems sz fields)) := foldl_max_isAlign (.inl rfl)

theorem alignUp_eq_roundUp {v : Nat} (ha : IsAlign a) (h : roundUp a v < 2 ^ 32) :
    alignUp v a = roundUp a v := by
  unfold alignUp
  rw [if_neg (Nat.ne_of_gt ha.pos)]
  unfold roundUp at h ⊢
  rcases ha with rfl | rfl | rfl | rfl <;> dsimp only <;> omega

theorem alignUp_lt {v : Nat} (ha : a ≠ 0) : alignUp v a < 2 ^ 32 := by
  unfold alignUp
  rw [if_neg ha]
  have := Nat.mod_lt (v + (a - 1)) (show 0 < 2 ^ 32 by omega)
  dsimp only
  omega

theorem mem_of_startsWith {text : String} {head : String} (h : startsWith text head = true)
    {c : Char} (hc : c ∈ head.toList) : c ∈ text.toList := by
  have hp : head.toList <+: text.toList := List.isPrefixOf_iff_prefix.mp h
  exact hp.subset hc

theorem arrayParts_startsWith {ty : TypeAtom} {p : List Char × List Char}
    (h : arrayParts ty = some p) : startsWith ty.text "Array(" = true := by
  unfold arrayParts insideOf at h
  split at h
  · next hc => exact hc.1
  · cases h

theorem arrayParts_of_elem {ty elem : TypeAtom} (h : arrayElemType ty = some elem) :
    ∃ p, arrayParts ty = some p := by
  unfold arrayElemType at h
  obtain ⟨p, hp, -⟩ := Option.bind_eq_some_iff.mp h
  exact ⟨p, hp⟩

theorem prim_of_array {ty : TypeAtom} (h : startsWith ty.text "Array(" = true) :
    primSizeBytes ty.text = none := by
  have hp : "Array(".toList <+: ty.text.toList := List.isPrefixOf_iff_prefix.mp h
  obtain ⟨rest, hrest⟩ := hp
  have hhead : ty.text.toList.head? = some 'A' := by
    rw [← hrest]
    rfl
  have hother : ∀ head : String, head.toList.head? ≠ some 'A' → head.toList ≠ [] →
      startsWith ty.text head = false := by
    intro head hne hnil
    by_contra hs
    rw [Bool.not_eq_false] at hs
    have hs : head.toList <+: ty.text.toList := List.isPrefixOf_iff_prefix.mp hs
    obtain ⟨tail, htail⟩ := hs
    cases hl : head.toList with
    | nil => exact hnil hl
    | cons c cs =>
      rw [hl] at htail hne
      rw [← htail] at hhead
      exact hne hhead
  unfold primSizeBytes
  split
  all_goals first
    | (next heq => rw [heq] at hhead; exact absurd hhead (by decide))
    | skip
  rw [hother "Chan(" (by decide) (by decide), hother "Slice(" (by decide) (by decide),
    hother "SliceMut(" (by decide) (by decide)]
  rfl

theorem PlainNames.of_array (hdb : PlainNames db) {ty : TypeAtom} {p : List Char × List Char}
    (h : arrayParts ty = some p) : db.struct ty = none ∧ db.enum ty = none := by
  have hparen : '(' ∈ ty.text.toList := mem_of_startsWith (arrayParts_startsWith h) (by decide)
  constructor
  · unfold NominalDb.struct
    rw [List.find?_eq_none]
    intro s hs heq
    rw [beq_iff_eq] at heq
    exact hdb.structs s hs (heq ▸ hparen)
  · unfold NominalDb.enum
    rw [List.find?_eq_none]
    intro e he heq
    rw [beq_iff_eq] at heq
    exact hdb.enums e he (heq ▸ hparen)

/-! ## The computed size -/

theorem checkedAddU32_eq_some {b : Nat} :
    checkedAddU32 a b = some n ↔ n = a + b ∧ a + b < 2 ^ 32 := by
  unfold checkedAddU32
  split
  · next h =>
    rw [Option.some.injEq]
    exact ⟨fun heq => ⟨heq.symm, h⟩, fun heq => heq.1.symm⟩
  · next h =>
    constructor
    · intro heq
      cases heq
    · intro heq
      exact absurd heq.2 h

theorem layoutFields_cons {size : TypeAtom → Option Nat} {f : StructFieldInfo}
    {rest : List StructFieldInfo} (h : layoutFields size (f :: rest) (off, al) = some p) :
    ∃ k, size f.ty = some k ∧ alignUp off (fieldAlign k) + k < 2 ^ 32 ∧
      layoutFields size rest (alignUp off (fieldAlign k) + k, max al (fieldAlign k)) = some p := by
  unfold layoutFields at h
  obtain ⟨k, hk, h⟩ := Option.bind_eq_some_iff.mp h
  obtain ⟨next, hnext, h⟩ := Option.bind_eq_some_iff.mp h
  obtain ⟨rfl, hlt⟩ := checkedAddU32_eq_some.mp hnext
  exact ⟨k, hk, hlt, h⟩

/-- The layout that the size is computed from is the placement of the fields, as long as
that one ends below 2^32. -/
theorem layoutFields_exact {size : TypeAtom → Option Nat} {fields : List StructFieldInfo}
    (hsz : ∀ f ∈ fields, ∀ k, size f.ty = some k → k = sz f.ty)
    (hfit : Item.finish (fieldItems sz fields) off < 2 ^ 32)
    (h : layoutFields size fields (off, al) = some p) :
    p = (Item.finish (fieldItems sz fields) off,
      (fieldItems sz fields).foldl (fun a i => max a i.align) al) := by
  induction fields generalizing off al with
  | nil =>
    cases h
    rfl
  | cons f rest ih =>
    obtain ⟨k, hk, hlt, h⟩ := layoutFields_cons h
    obtain rfl := hsz f (List.mem_cons_self ..) k hk
    have hle := Item.le_finish (fieldItems_pos sz rest)
      (roundUp (fieldAlign (sz f.ty)) off + sz f.ty)
    have hfit : Item.finish (fieldItems sz rest)
        (roundUp (fieldAlign (sz f.ty)) off + sz f.ty) < 2 ^ 32 := hfit
    rw [alignUp_eq_roundUp (fieldAlign_isAlign _) (by omega)] at h
    exact ih (fun g hg => hsz g (List.mem_cons_of_mem _ hg)) hfit h

theorem le_layoutFields {size : TypeAtom → Option Nat} {fields : List StructFieldInfo}
    (h : layoutFields size fields (off, al) = some p) : al ≤ p.2 := by
  induction fields generalizing off al with
  | nil =>
    cases h
    exact Nat.le_refl _
  | cons f rest ih =>
    obtain ⟨k, -, -, h⟩ := layoutFields_cons h
    exact Nat.le_trans (Nat.le_max_left ..) (ih h)

theorem primSizeBytes_le {name : String} (h : primSizeBytes name = some n) : n ≤ 16 := by
  unfold primSizeBytes at h
  split at h
  all_goals first
    | (cases h; omega)
    | skip
  split at h
  · cases h
    omega
  · split at h
    · cases h
      omega
    · cases h

def arraySize (db : NominalDb) (depth : Nat) (ty : TypeAtom) : Option Nat := do
  let elem ← arrayElemType ty
  let len ← arrayLen ty
  let size ← typeSizeBytesRec db depth elem
  if len * size < 2 ^ 32 then some (len * size) else none

theorem arraySize_eq_some {depth : Nat} {ty : TypeAtom} :
    arraySize db depth ty = some n ↔ ∃ elem len k, arrayElemType ty = some elem ∧
      arrayLen ty = some len ∧ typeSizeBytesRec db depth elem = some k ∧ len * k < 2 ^ 32 ∧
      n = len * k := by
  unfold arraySize
  constructor
  · intro h
    obtain ⟨elem, he, h⟩ := Option.bind_eq_some_iff.mp h
    obtain ⟨len, hl, h⟩ := Option.bind_eq_some_iff.mp h
    obtain ⟨k, hk, h⟩ := Option.bind_eq_some_iff.mp h
    split at h
    · next hlt =>
      cases h
      exact ⟨elem, len, k, he, hl, hk, hlt, rfl⟩
    · cases h
  · rintro ⟨elem, len, k, he, hl, hk, hlt, rfl⟩
    rw [he, hl]
    show (typeSizeBytesRec db depth elem).bind _ = _
    rw [hk]
    show (if len * k < 2 ^ 32 then some (len * k) else none) = _
    rw [if_pos hlt]

theorem typeSizeBytesRec_cases {depth : Nat} {ty : TypeAtom}
    (h : typeSizeBytesRec db (depth + 1) ty = some n) :
    primSizeBytes ty.text = some n ∨
    (primSizeBytes ty.text = none ∧
      (arraySize db depth ty = some n ∨
      (∃ s p, db.struct ty = some s ∧
        layoutFields (typeSizeBytesRec db depth) s.fields (0, 1) = some p ∧ n = alignUp p.1 p.2) ∨
      (db.struct ty = none ∧ ∃ e, db.enum ty = some e ∧
        typeSizeBytesRec db depth e.base = some n))) := by
  unfold typeSizeBytesRec at h
  split at h
  · next k hk =>
    cases h
    exact .inl hk
  · next hprim =>
    refine .inr ⟨hprim, ?_⟩
    cases harray : arraySize db depth ty with
    | some k =>
      unfold arraySize at harray
      simp only [harray] at h
      cases h
      exact .inl rfl
    | none =>
      unfold arraySize at harray
      simp only [harray] at h
      split at h
      · next s hs =>
        obtain ⟨p, hp, hpn⟩ := Option.map_eq_some_iff.mp h
        exact .inr (.inl ⟨s, p, hs, hp, hpn.symm⟩)
      · next hs =>
        split at h
        · next e he => exact .inr (.inr ⟨hs, e, he, h⟩)
        · cases h

theorem typeSizeBytesRec_lt {depth : Nat} {ty : TypeAtom}
    (h : typeSizeBytesRec db depth ty = some n) : n < 2 ^ 32 := by
  induction depth generalizing ty n with
  | zero => cases h
  | succ depth ih =>
    rcases typeSizeBytesRec_cases h with h | ⟨-, h | ⟨s, p, -, hp, rfl⟩ | ⟨-, e, -, h⟩⟩
    · have := primSizeBytes_le h
      omega
    · obtain ⟨elem, len, k, -, -, -, hlt, rfl⟩ := arraySize_eq_some.mp h
      exact hlt
    · have := le_layoutFields hp
      exact alignUp_lt (by omega)
    · exact ih h

theorem finish_le_structExtent (sz : TypeAtom → Nat) (fields : List StructFieldInfo) :
    Item.finish (fieldItems sz fields) 0 ≤ structExtent sz fields :=
  Item.finish_le_extent maxAlign_isAlign.pos

theorem size_le_structExtent {fields : List StructFieldInfo} {f : StructFieldInfo} (hf : f ∈ fields)
    :
    sz f.ty ≤ structExtent sz fields := by
  have hmem : fieldItem (sz f.ty) ∈ fieldItems sz fields := List.mem_map.mpr ⟨f, hf, rfl⟩
  exact Nat.le_trans (Item.size_le_finish (fieldItems_pos _ _) hmem 0) (finish_le_structExtent _ _)

theorem typeSizeBytesRec_exact (hdb : PlainNames db) {ty : TypeAtom} {m : Nat}
    (hm : TypeSize db ty m) : ∀ {depth n : Nat}, m < 2 ^ 32 →
      typeSizeBytesRec db depth ty = some n → n = m := by
  induction hm with
  | @builtin ty n hp =>
    intro depth n' _ h
    cases depth with
    | zero => cases h
    | succ depth =>
      rcases typeSizeBytesRec_cases h with h | ⟨hnone, -⟩
      · rw [hp] at h
        exact (Option.some.inj h).symm
      · rw [hp] at hnone
        cases hnone
  | @array ty elem len k he hl hk ih =>
    intro depth n hlt h
    obtain ⟨p, hp⟩ := arrayParts_of_elem he
    cases depth with
    | zero => cases h
    | succ depth =>
      rcases typeSizeBytesRec_cases h with h | ⟨-, h | ⟨s, q, hs, -, -⟩ | ⟨-, e, hen, -⟩⟩
      · rw [prim_of_array (arrayParts_startsWith hp)] at h
        cases h
      · obtain ⟨elem', len', k', he', hl', hk', -, rfl⟩ := arraySize_eq_some.mp h
        cases he.symm.trans he'
        cases hl.symm.trans hl'
        by_cases hzero : len = 0
        · rw [hzero, Nat.zero_mul, Nat.zero_mul]
        · have hle := Nat.le_mul_of_pos_left k (Nat.pos_of_ne_zero hzero)
          rw [ih (by omega) hk']
      · rw [(hdb.of_array hp).1] at hs
        cases hs
      · rw [(hdb.of_array hp).2] at hen
        cases hen
  | @struct ty s sz hp ha hs hf ih =>
    intro depth n hlt h
    cases depth with
    | zero => cases h
    | succ depth =>
      rcases typeSizeBytesRec_cases h with h | ⟨-, h | ⟨s', q, hs', hq, rfl⟩ | ⟨hs', -⟩⟩
      · rw [hp] at h
        cases h
      · obtain ⟨elem, len, k, he, -⟩ := arraySize_eq_some.mp h
        obtain ⟨p, hparts⟩ := arrayParts_of_elem he
        rw [ha] at hparts
        cases hparts
      · cases hs.symm.trans hs'
        have hend := finish_le_structExtent sz s.fields
        have hexact := layoutFields_exact (fun f hfm k hk =>
          ih f hfm (Nat.lt_of_le_of_lt (size_le_structExtent hfm) hlt) hk) (by omega) hq
        rw [hexact]
        exact alignUp_eq_roundUp maxAlign_isAlign hlt
      · rw [hs] at hs'
        cases hs'
  | @enum ty e n hp ha hs he hn ih =>
    intro depth n' hlt h
    cases depth with
    | zero => cases h
    | succ depth =>
      rcases typeSizeBytesRec_cases h with h | ⟨-, h | ⟨s, q, hs', -, -⟩ | ⟨-, e', he', h⟩⟩
      · rw [hp] at h
        cases h
      · obtain ⟨elem, len, k, hel, -⟩ := arraySize_eq_some.mp h
        obtain ⟨p, hparts⟩ := arrayParts_of_elem hel
        rw [ha] at hparts
        cases hparts
      · rw [hs] at hs'
        cases hs'
      · cases he.symm.trans he'
        exact ih hlt h

theorem typeSizeBytes_exact (hdb : PlainNames db) {ty : TypeAtom} {m : Nat} (hm : TypeSize db ty m)
    (hlt : m < 2 ^ 32) (h : typeSizeBytes db ty = some n) : n = m :=
  typeSizeBytesRec_exact hdb hm hlt h

theorem typeSizeBytes_lt {ty : TypeAtom} (h : typeSizeBytes db ty = some n) :
    n < 2 ^ 32 := typeSizeBytesRec_lt h

/-! ## The parts of a type -/

theorem TypeSize.of_builtin {ty : TypeAtom} {k : Nat} (h : TypeSize db ty n)
    (hp : primSizeBytes ty.text = some k) : n = k := by
  cases h with
  | builtin hb => exact Option.some.inj (hb.symm.trans hp)
  | array he =>
    obtain ⟨p, hparts⟩ := arrayParts_of_elem he
    rw [prim_of_array (arrayParts_startsWith hparts)] at hp
    cases hp
  | struct sz hnone => rw [hp] at hnone; cases hnone
  | enum hnone => rw [hp] at hnone; cases hnone

theorem TypeSize.of_array {ty elem : TypeAtom} (h : TypeSize db ty n)
    (he : arrayElemType ty = some elem) :
    ∃ len k, arrayLen ty = some len ∧ TypeSize db elem k ∧ n = len * k := by
  obtain ⟨p, hp⟩ := arrayParts_of_elem he
  cases h with
  | builtin hb =>
    rw [prim_of_array (arrayParts_startsWith hp)] at hb
    cases hb
  | array he' hl hk =>
    cases he.symm.trans he'
    exact ⟨_, _, hl, hk, rfl⟩
  | struct sz _ ha => rw [hp] at ha; cases ha
  | enum _ ha => rw [hp] at ha; cases ha

theorem TypeSize.of_struct (hdb : PlainNames db) {ty : TypeAtom} {s : StructInfo}
    (h : TypeSize db ty n) (hs : db.struct ty = some s) (hp : primSizeBytes ty.text = none) :
    StructSize db s n := by
  cases h with
  | builtin hb => rw [hp] at hb; cases hb
  | array he =>
    obtain ⟨p, hparts⟩ := arrayParts_of_elem he
    rw [(hdb.of_array hparts).1] at hs
    cases hs
  | struct sz _ _ hs' hf =>
    cases hs.symm.trans hs'
    exact ⟨sz, hf, rfl⟩
  | enum _ _ hs' => rw [hs] at hs'; cases hs'

theorem fieldAt_exact {name : Atom} {fields : List StructFieldInfo} {start : Nat} {ty : TypeAtom}
    (hsz : ∀ f ∈ fields, ∀ k, typeSizeBytes db f.ty = some k → k = sz f.ty)
    (hfit : Item.finish (fieldItems sz fields) off < 2 ^ 32)
    (h : fieldAt db name fields off = .ok (start, ty)) :
    ∃ f, (f, start) ∈ fields.zip (Item.starts (fieldItems sz fields) off) ∧ f.ty = ty ∧
      fields.find? (fun f => f.name == name) = some f := by
  induction fields generalizing off with
  | nil => cases h
  | cons f rest ih =>
    unfold fieldAt at h
    obtain ⟨k, hk, h⟩ := bind_eq_ok.mp h
    rw [expect_eq_ok] at hk
    obtain rfl := hsz f (List.mem_cons_self ..) k hk
    have hle := Item.le_finish (fieldItems_pos sz rest)
      (roundUp (fieldAlign (sz f.ty)) off + sz f.ty)
    have hfit : Item.finish (fieldItems sz rest)
        (roundUp (fieldAlign (sz f.ty)) off + sz f.ty) < 2 ^ 32 := hfit
    dsimp only at h
    rw [alignUp_eq_roundUp (fieldAlign_isAlign _) (by omega)] at h
    split at h
    · next hname =>
      cases h
      refine ⟨f, List.mem_cons_self .., rfl, ?_⟩
      have hb : (f.name == name) = true := beq_iff_eq.mpr hname
      simp only [List.find?_cons, hb]
    · next hname =>
      obtain ⟨next, hnext, h⟩ := bind_eq_ok.mp h
      rw [expect_eq_ok, checkedAddU32_eq_some] at hnext
      obtain ⟨rfl, -⟩ := hnext
      obtain ⟨g, hg, hty, hfind⟩ := ih (fun g hg => hsz g (List.mem_cons_of_mem _ hg)) hfit h
      refine ⟨g, List.mem_cons_of_mem _ hg, hty, ?_⟩
      have hb : (f.name == name) = false := beq_eq_false_iff_ne.mpr hname
      simp only [List.find?_cons, hb]
      exact hfind

theorem fieldAt_find {name : Atom} {fields : List StructFieldInfo} {start : Nat} {ty : TypeAtom}
    (h : fieldAt db name fields off = .ok (start, ty)) :
    ∃ f k, fields.find? (fun f => f.name == name) = some f ∧ f.ty = ty ∧
      typeSizeBytes db ty = some k := by
  induction fields generalizing off with
  | nil => cases h
  | cons f rest ih =>
    unfold fieldAt at h
    obtain ⟨k, hk, h⟩ := bind_eq_ok.mp h
    rw [expect_eq_ok] at hk
    dsimp only at h
    split at h
    · next hname =>
      cases h
      have hb : (f.name == name) = true := beq_iff_eq.mpr hname
      refine ⟨f, k, ?_, rfl, hk⟩
      simp only [List.find?_cons, hb]
    · next hname =>
      obtain ⟨next, -, h⟩ := bind_eq_ok.mp h
      have hb : (f.name == name) = false := beq_eq_false_iff_ne.mpr hname
      simp only [List.find?_cons, hb]
      exact ih h

end Tyu.Irgen

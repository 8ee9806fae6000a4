import Tyu.Ir.MmioBounds
import Tyu.Lower.HopRuns

/-!
# Projections stay inside their object

A chain of projections that starts at an object of a sized type stays inside it exactly when every
index computed at run time is in range, the sizes fit in 32 bits, a struct that has the name of a
built-in type also has its size, and at most one step is made from a value.
-/

namespace Tyu.Irgen

open Lib

structure Spot where
  value : Value
  /-- the address of the object -/
  target : Int
  /-- the word that stands for the object -/
  word : Int

def Spot.start (v : Value) (base : Int) : Spot := ⟨v, base, base⟩

def Projects (Γ : Env) (W : World) (s : Spot) (hop : Hop) (s' : Spot) : Prop :=
  ∃ ops, Lowers Γ hop s.value ops s'.value ∧ HopRuns W hop ops s.word s'.target s'.word

inductive Path (Γ : Env) (W : World) : Spot → List Hop → Spot → Prop
  | nil {s : Spot} : Path Γ W s [] s
  | cons {s s₁ s' : Spot} {hop : Hop} {hops : List Hop} (h : Projects Γ W s hop s₁)
      (rest : Path Γ W s₁ hops s') : Path Γ W s (hop :: hops) s'

inductive Accepted (Γ : Env) : Value → List Hop → Prop
  | nil {v : Value} : Accepted Γ v []
  | cons {v v' : Value} {hop : Hop} {hops : List Hop} {ops : List OpKind}
      (h : Lowers Γ hop v ops v') (rest : Accepted Γ v' hops) : Accepted Γ v (hop :: hops)

/-- The bytes of the object at `s'` are bytes of the object at `s`. -/
def Inside (db : NominalDb) (s s' : Spot) : Prop :=
  ∃ t t' n n', s.value.objectTy = some t ∧ s'.value.objectTy = some t' ∧
    typeSizeBytes db t = some n ∧ typeSizeBytes db t' = some n' ∧
    (s'.target - s.target) % 2 ^ 64 + n' ≤ n

def placements (sz : TypeAtom → Nat) (fields : List StructFieldInfo) :
    List (StructFieldInfo × Nat) :=
  fields.zip (Item.starts (fieldItems sz fields) 0)

/-- The size, field access and destructuring of a struct type of `n` bytes use one layout:
its fields are aligned, inside the struct and disjoint. -/
structure OneLayout (Γ : Env) (t : TypeAtom) (s : StructInfo) (sz : TypeAtom → Nat) (n : Nat) :
    Prop where
  sizes : ∀ f ∈ s.fields, TypeSize Γ.nominals f.ty (sz f.ty)
  extent : n = structExtent sz s.fields
  aligned : ∀ p ∈ placements sz s.fields, fieldAlign (sz p.1.ty) ∣ p.2
  within : ∀ p ∈ placements sz s.fields, p.2 + sz p.1.ty ≤ n
  disjoint : (placements sz s.fields).Pairwise fun p q => p.2 + sz p.1.ty ≤ q.2
  access : ∀ name off ty, fieldAt Γ.nominals name s.fields 0 = .ok (off, ty) →
    ∃ f, (f, off) ∈ placements sz s.fields ∧ f.ty = ty ∧
      s.fields.find? (fun f => f.name == name) = some f
  destruct : ∀ (binds : List DestructBind) (v : Value) (g g' : Gen) (cur cur' : BlockId)
    (span : Span), g.stack.head? = some v → v.objectTy = some t →
    compileDestruct Γ cur binds span g = .ok (cur', g') →
    g'.offsetsAt cur = g.offsetsAt cur ++ (placements sz s.fields).map Prod.snd

/-- The true displacement of a hop, from an object of `n` bytes to one of `n'`. -/
def Hop.displaces (Γ : Env) (t : TypeAtom) (n n' : Nat) (d : Int) : Hop → Prop
  | .field name => ∃ s sz f start, Γ.nominals.struct t = some s ∧ OneLayout Γ t s sz n ∧
      (f, start) ∈ placements sz s.fields ∧
      s.fields.find? (fun f => f.name == name) = some f ∧ d = start
  | .index i => d = i * n'
  | .dynamic i => d = i * n'

def ExactHop (Γ : Env) (hop : Hop) (s s' : Spot) : Prop :=
  ∃ t t' n n' d, s.value.objectTy = some t ∧ s'.value.objectTy = some t' ∧
    typeSizeBytes Γ.nominals t = some n ∧ TypeSize Γ.nominals t n ∧
    typeSizeBytes Γ.nominals t' = some n' ∧ TypeSize Γ.nominals t' n' ∧
    hop.displaces Γ t n n' d ∧ -2 ^ 63 ≤ d ∧ d < 2 ^ 63 ∧ s'.target = wrapI64 (s.target + d)

/-- Every stretch of the chain stays inside the object it starts from, whatever the
surroundings answer, and nothing wraps on the way. -/
structure StaysInside (Γ : Env) (v : Value) (t : TypeAtom) (hops : List Hop) : Prop where
  size : ∃ n, typeSizeBytes Γ.nominals t = some n ∧ TypeSize Γ.nominals t n
  inside : ∀ (W : World) (base : Int) (before stretch after : List Hop) (s s' : Spot),
    hops = before ++ (stretch ++ after) → Path Γ W (.start v base) before s →
    Path Γ W s stretch s' → Inside Γ.nominals s s'
  exact : ∀ (W : World) (base : Int) (before : List Hop) (hop : Hop) (after : List Hop)
    (s s' : Spot), hops = before ++ hop :: after → Path Γ W (.start v base) before s →
    Projects Γ W s hop s' → ExactHop Γ hop s s'

/-- The step is safe on an object of type `t`. -/
def Hop.Safe (db : NominalDb) (t : TypeAtom) : Hop → Prop
  | .field _ => ∀ s k, db.struct t = some s → primSizeBytes t.text = some k → StructSize db s k
  | .index _ => True
  | .dynamic i => (∃ len : Nat, arrayLen t = some len ∧ 0 ≤ i ∧ i < len) ∨
      ∃ elem, arrayElemType t = some elem ∧ TypeSize db elem 0

def SafeFrom (db : NominalDb) : TypeAtom → List Hop → Prop
  | _, [] => True
  | t, hop :: rest => hop.Safe db t ∧ ∀ t', hop.ty db t = some t' → SafeFrom db t' rest

structure SafeChain (db : NominalDb) (v : Value) (t : TypeAtom) (hops : List Hop) : Prop where
  fits : ∃ n, n < 2 ^ 32 ∧ TypeSize db t n
  steps : SafeFrom db t hops
  once : v.byRef = false → hops.length ≤ 1

/-! ## One step -/

section Step

variable {Γ : Env} {W : World} {hop : Hop} {t t' : TypeAtom} {move : OpKind} {s s' : Spot}
  {n : Nat}

theorem Moves.ty {db : NominalDb} (h : Moves db hop t move t') : hop.ty db t = some t' := by
  cases h with
  | field hs hf =>
    obtain ⟨f, k, hfind, hty, -⟩ := fieldAt_find hf
    unfold Hop.ty structFieldTy
    rw [hs]
    show (List.find? _ _).bind _ = _
    rw [hfind]
    exact congrArg some hty
  | index he hl hn hk => exact he
  | dynamic he hl hk => exact he

theorem Projects.cases (h : Projects Γ W s hop s') (ht : s.value.objectTy = some t) :
    ∃ t' move, s'.value.objectTy = some t' ∧ s'.value.byRef = s.value.byRef ∧
      Moves Γ.nominals hop t move t' ∧ s'.target = wrapI64 (s.word + shift hop move) ∧
      (s.value.byRef = true → s'.word = s'.target) := by
  obtain ⟨ops, hlowers, hruns⟩ := h
  obtain ⟨t', move, hcode⟩ := hlowers.code ht
  obtain ⟨htarget, hword⟩ := hcode.runs hruns
  refine ⟨t', move, hcode.ty, hcode.byRef, hcode.moves, htarget, fun hby => ?_⟩
  rw [if_pos hby] at hword
  exact hword

theorem structSize_of_safe {db : NominalDb} (hdb : PlainNames db) {name : Atom} {s : StructInfo}
    (ht : TypeSize db t n) (hs : db.struct t = some s) (hsafe : (Hop.field name).Safe db t) :
    StructSize db s n := by
  cases hprim : primSizeBytes t.text with
  | none => exact ht.of_struct hdb hs hprim
  | some k =>
    obtain rfl := ht.of_builtin hprim
    exact hsafe s n hs hprim

theorem oneLayout {Γ : Env} (hdb : PlainNames Γ.nominals) {s : StructInfo} (hlt : n < 2 ^ 32)
    (hs : Γ.nominals.struct t = some s) (hsize : StructSize Γ.nominals s n) :
    ∃ sz, OneLayout Γ t s sz n := by
  obtain ⟨sz, hsz, hn⟩ := hsize
  subst hn
  have hfinish := finish_le_structExtent sz s.fields
  have hexact : ∀ f ∈ s.fields, ∀ k, typeSizeBytes Γ.nominals f.ty = some k → k = sz f.ty :=
    fun f hf k hk => typeSizeBytes_exact hdb (hsz f hf)
      (Nat.lt_of_le_of_lt (size_le_structExtent hf) hlt) hk
  have hplaced : ∀ p ∈ placements sz s.fields,
      (fieldItem (sz p.1.ty), p.2) ∈
        (fieldItems sz s.fields).zip (Item.starts (fieldItems sz s.fields) 0) := by
    intro p hp
    rw [fieldItems, List.zip_map_left]
    exact List.mem_map.mpr ⟨p, hp, rfl⟩
  refine ⟨sz, hsz, rfl, fun p hp => ?_, fun p hp => ?_, ?_, fun name off ty h => ?_,
    fun binds v g g' cur cur' span hv hty h => ?_⟩
  · exact (Item.placed (fieldItems_pos sz s.fields) (hplaced p hp)).1
  · have := (Item.placed (fieldItems_pos sz s.fields) (hplaced p hp)).2.2
    exact Nat.le_trans this hfinish
  · have hpair := Item.disjoint (fieldItems_pos sz s.fields) 0
    have hzip : (fieldItems sz s.fields).zip (Item.starts (fieldItems sz s.fields) 0) =
        (placements sz s.fields).map fun p => (fieldItem (sz p.1.ty), p.2) := by
      rw [placements, fieldItems, List.zip_map_left]
      rfl
    rw [hzip, List.pairwise_map] at hpair
    exact hpair
  · exact fieldAt_exact hexact (by omega) h
  · rw [compileDestruct_run hexact (by omega) hv hty hs h]
    congr 1
    rw [placements, List.map_snd_zip]
    rw [Item.length_starts, fieldItems, List.length_map]

/-- A safe step from an object of a true size below 2^32 leads into it, by its true
displacement. -/
theorem Moves.inside {Γ : Env} (hdb : PlainNames Γ.nominals) (h : Moves Γ.nominals hop t move t')
    (ht : TypeSize Γ.nominals t n) (hlt : n < 2 ^ 32) (hsafe : hop.Safe Γ.nominals t) :
    ∃ n' d : Nat, typeSizeBytes Γ.nominals t' = some n' ∧ TypeSize Γ.nominals t' n' ∧
      shift hop move = d ∧ hop.displaces Γ t n n' d ∧ d + n' ≤ n := by
  cases h with
  | @field name _ _ tid off s hs hf =>
    obtain ⟨sz, hlayout⟩ := oneLayout hdb hlt hs (structSize_of_safe hdb ht hs hsafe)
    obtain ⟨f, hmem, rfl, hfind⟩ := hlayout.access name off _ hf
    obtain ⟨-, k, -, -, hk⟩ := fieldAt_find hf
    have hsize := hlayout.sizes f (List.mem_of_find?_eq_some hfind)
    have hend := hlayout.within _ hmem
    obtain rfl := typeSizeBytes_exact hdb hsize (by dsimp only at hend; omega) hk
    exact ⟨_, off, hk, hsize, rfl, ⟨s, sz, f, off, hs, hlayout, hmem, hfind, rfl⟩, hend⟩
  | @index i len k _ _ tid he hl hi hk =>
    obtain ⟨len', k', hl', hsize, rfl⟩ := ht.of_array he
    cases hl.symm.trans hl'
    have hle := Nat.mul_le_mul_right k' (show i + 1 ≤ len from hi)
    rw [Nat.succ_mul] at hle
    obtain rfl := typeSizeBytes_exact hdb hsize (by omega) hk
    have hmul : saturatingMulU32 i k = i * k := Nat.min_eq_left (by omega)
    refine ⟨k, i * k, hk, hsize, ?_, ?_, hle⟩
    · show ((saturatingMulU32 i k : Nat) : Int) = _
      rw [hmul]
    · exact Int.natCast_mul i k
  | @dynamic i len k _ _ tid he hl hk =>
    obtain ⟨len', k', hl', hsize, rfl⟩ := ht.of_array he
    cases hl.symm.trans hl'
    rcases hsafe with ⟨len', hlen, hnonneg, hi⟩ | ⟨elem, helem, hzero⟩
    · cases hl.symm.trans hlen
      obtain ⟨i, rfl⟩ := Int.eq_ofNat_of_zero_le hnonneg
      have hle := Nat.mul_le_mul_right k' (show i + 1 ≤ len by omega)
      rw [Nat.succ_mul] at hle
      obtain rfl := typeSizeBytes_exact hdb hsize (by omega) hk
      exact ⟨k, i * k, hk, hsize, (Int.natCast_mul i k).symm, Int.natCast_mul i k, hle⟩
    · cases he.symm.trans helem
      obtain rfl := typeSizeBytes_exact hdb hzero (by omega) hk
      refine ⟨0, 0, hk, hzero, ?_, ?_, Nat.zero_le _⟩
      · show i * ((0 : Nat) : Int) = _
        rw [Int.natCast_zero, Int.mul_zero]
      · show ((0 : Nat) : Int) = i * ((0 : Nat) : Int)
        rw [Int.natCast_zero, Int.mul_zero]

end Step

/-! ## Whole chains -/

/-- Either nothing follows, or the word is the address of the object, and stays so or only
one step follows. -/
def Steady (s : Spot) (hops : List Hop) : Prop :=
  hops = [] ∨ (s.word = s.target ∧ (s.value.byRef = true ∨ hops.length ≤ 1))

structure Sized (db : NominalDb) (s : Spot) (t : TypeAtom) (n : Nat) : Prop where
  ty : s.value.objectTy = some t
  size : typeSizeBytes db t = some n
  true_size : TypeSize db t n

section Chains

variable {Γ : Env} {W : World} {t : TypeAtom} {s s' : Spot} {n : Nat}

theorem Projects.inside (hdb : PlainNames Γ.nominals) {hop : Hop}
    (h : Projects Γ W s hop s') (hs : Sized Γ.nominals s t n) (hword : s.word = s.target)
    (hsafe : hop.Safe Γ.nominals t) :
    ∃ t' n' : _, ∃ d : Nat, Sized Γ.nominals s' t' n' ∧ hop.ty Γ.nominals t = some t' ∧
      hop.displaces Γ t n n' d ∧ d + n' ≤ n ∧ s'.target = wrapI64 (s.target + d) ∧
      s'.value.byRef = s.value.byRef ∧ (s.value.byRef = true → s'.word = s'.target) := by
  obtain ⟨t', move, hty, hby, hmove, htarget, hword'⟩ := h.cases hs.ty
  obtain ⟨n', d, hk, hsize, hshift, hdisp, hle⟩ :=
    hmove.inside hdb hs.true_size (typeSizeBytes_lt hs.size) hsafe
  rw [hword, hshift] at htarget
  exact ⟨t', n', d, ⟨hty, hk, hsize⟩, hmove.ty, hdisp, hle, htarget, hby, hword'⟩

theorem emod_wrapI64_sub (x y : Int) : (wrapI64 x - y) % 2 ^ 64 = (x - y) % 2 ^ 64 :=
  (wrapI64_modEq x).sub_right y

/-- A safe run of a chain leads into the object it starts from, and what follows is safe from
there. -/
theorem Path.inside (hdb : PlainNames Γ.nominals) {hops after : List Hop}
    (h : Path Γ W s hops s') (hs : Sized Γ.nominals s t n)
    (hsafe : SafeFrom Γ.nominals t (hops ++ after)) (hsteady : Steady s (hops ++ after)) :
    ∃ t' n', Sized Γ.nominals s' t' n' ∧ SafeFrom Γ.nominals t' after ∧ Steady s' after ∧
      (s'.target - s.target) % 2 ^ 64 + n' ≤ n := by
  induction h generalizing t n with
  | nil =>
    refine ⟨t, n, hs, hsafe, hsteady, ?_⟩
    rw [Int.sub_self]
    omega
  | @cons s s₁ s' hop hops h rest ih =>
    obtain ⟨hop_safe, hrest⟩ := hsafe
    rcases hsteady with hnil | ⟨hword, hsteady⟩
    · cases hnil
    · obtain ⟨t₁, n₁, d, hs₁, hty, -, hle, htarget, hby, hword₁⟩ :=
        h.inside hdb hs hword hop_safe
      have hsteady₁ : Steady s₁ (hops ++ after) := by
        rcases hsteady with href | hlen
        · exact .inr ⟨hword₁ href, .inl (hby.trans href)⟩
        · refine .inl (List.length_eq_zero_iff.mp ?_)
          rw [List.cons_append, List.length_cons] at hlen
          omega
      obtain ⟨t', n', hs', hsafe', hsteady', hin⟩ := ih hs₁ (hrest t₁ hty) hsteady₁
      refine ⟨t', n', hs', hsafe', hsteady', ?_⟩
      have hmod := emod_wrapI64_sub (s.target + d) s'.target
      rw [← htarget] at hmod
      have hlt := typeSizeBytes_lt hs.size
      omega

theorem SafeChain.staysInside (hdb : PlainNames Γ.nominals) {v : Value} {hops : List Hop}
    (hv : v.objectTy = some t) (hn : typeSizeBytes Γ.nominals t = some n)
    (h : SafeChain Γ.nominals v t hops) : StaysInside Γ v t hops := by
  obtain ⟨m, hlt, hm⟩ := h.fits
  obtain rfl := typeSizeBytes_exact hdb hm hlt hn
  have hstart : ∀ base, Sized Γ.nominals (.start v base) t n := fun base => ⟨hv, hn, hm⟩
  have hsteady : ∀ base, Steady (.start v base) hops := by
    intro base
    refine .inr ⟨rfl, ?_⟩
    cases hby : v.byRef with
    | true => exact .inl hby
    | false => exact .inr (h.once hby)
  refine ⟨⟨n, hn, hm⟩, ?_, ?_⟩
  · intro W base before stretch after s s' hops_eq hbefore hstretch
    subst hops_eq
    obtain ⟨t₁, n₁, hs, hsafe, hst, -⟩ := hbefore.inside hdb (hstart base) h.steps (hsteady base)
    obtain ⟨t₂, n₂, hs', -, -, hin⟩ := hstretch.inside hdb hs hsafe hst
    exact ⟨t₁, t₂, n₁, n₂, hs.ty, hs'.ty, hs.size, hs'.size, hin⟩
  · intro W base before hop after s s' hops_eq hbefore hproj
    subst hops_eq
    obtain ⟨t₁, n₁, hs, hsafe, hst, -⟩ := hbefore.inside hdb (hstart base) h.steps (hsteady base)
    rcases hst with hnil | ⟨hword, -⟩
    · cases hnil
    · obtain ⟨t₂, n₂, d, hs', -, hdisp, hle, htarget, -, -⟩ := hproj.inside hdb hs hword hsafe.1
      have hlt := typeSizeBytes_lt hs.size
      exact ⟨t₁, t₂, n₁, n₂, d, hs.ty, hs'.ty, hs.size, hs.true_size, hs'.size, hs'.true_size,
        hdisp, by omega, by omega, htarget⟩

end Chains

/-! ## The condition is needed -/

section Needed

variable {Γ : Env} {W : World} {t : TypeAtom} {s s' : Spot} {n : Nat}

theorem index_in_range {i : Int} {k len : Nat} (hk : 0 < k) (hlt : len * k < 2 ^ 32)
    (hlo : -2 ^ 63 ≤ i * k) (hhi : i * k < 2 ^ 63) (hin : i * k % 2 ^ 64 + k ≤ len * k) :
    0 ≤ i ∧ i < len := by
  have hlt' : (len : Int) * k < 2 ^ 32 := by exact_mod_cast hlt
  have hnonneg : 0 ≤ i * k := by omega
  have hpos : (0 : Int) < k := by omega
  have hi : 0 ≤ i := by
    by_contra hneg
    have := Int.mul_lt_mul_of_pos_right (show i < 0 by omega) hpos
    omega
  refine ⟨hi, ?_⟩
  by_contra hge
  have := Int.mul_le_mul_of_nonneg_right (show (len : Int) ≤ i by omega) (Int.le_of_lt hpos)
  omega

theorem ExactHop.safe {hop : Hop} {t' : TypeAtom} (hdb : PlainNames Γ.nominals)
    (h : ExactHop Γ hop s s') (hin : Inside Γ.nominals s s') (ht : s.value.objectTy = some t)
    (ht' : s'.value.objectTy = some t') (hty : hop.ty Γ.nominals t = some t') :
    hop.Safe Γ.nominals t := by
  obtain ⟨t₁, t₂, n, n', d, ht₁, ht₂, hn, hsize, hn', hsize', hdisp, hlo, hhi, htarget⟩ := h
  cases ht.symm.trans ht₁
  cases ht'.symm.trans ht₂
  cases hop with
  | field name =>
    obtain ⟨s₀, sz, f, start, hs, hlayout, -⟩ := hdisp
    intro s₁ k hs₁ hprim
    cases hs.symm.trans hs₁
    exact ⟨sz, hlayout.sizes, (hsize.of_builtin hprim).symm.trans hlayout.extent⟩
  | index i => trivial
  | dynamic i =>
    obtain ⟨t₁, t₂, m, m', ht₁, ht₂, hm, hm', hle⟩ := hin
    cases ht.symm.trans ht₁
    cases ht'.symm.trans ht₂
    cases hn.symm.trans hm
    cases hn'.symm.trans hm'
    by_cases hzero : n' = 0
    · rw [hzero] at hsize'
      exact .inr ⟨t', hty, hsize'⟩
    · obtain ⟨len, k, hlen, hk, rfl⟩ := hsize.of_array hty
      have hlt := typeSizeBytes_lt hn
      have hlen0 : 0 < len := by
        by_contra h0
        obtain rfl : len = 0 := by omega
        rw [Nat.zero_mul] at hle
        omega
      have hkle := Nat.le_mul_of_pos_left k hlen0
      obtain rfl := typeSizeBytes_exact hdb hk (by omega) hn'
      have hd : d = i * n' := hdisp
      have hmod := emod_wrapI64_sub (s.target + d) s.target
      rw [← htarget, Int.add_comm s.target d, Int.add_sub_cancel] at hmod
      rw [hmod, hd] at hle
      rw [hd] at hlo hhi
      exact .inl ⟨len, hlen, index_in_range (Nat.pos_of_ne_zero hzero) hlt hlo hhi
        (by push_cast at hle; exact hle)⟩

theorem safeFrom_of_exact (hdb : PlainNames Γ.nominals) {v : Value} {hops : List Hop}
    (h : Accepted Γ v hops) (hv : v.objectTy = some t) (hs : s.value = v)
    (hexact : ∀ (before : List Hop) (hop : Hop) (after : List Hop) (s₁ s₂ : Spot),
      hops = before ++ hop :: after → Path Γ W s before s₁ → Projects Γ W s₁ hop s₂ →
      ExactHop Γ hop s₁ s₂ ∧ Inside Γ.nominals s₁ s₂) : SafeFrom Γ.nominals t hops := by
  induction h generalizing t s with
  | nil => trivial
  | @cons v v' hop hops ops h rest ih =>
    subst hs
    obtain ⟨t₁, move, hcode⟩ := h.code hv
    obtain ⟨s', hs', hproj⟩ : ∃ s' : Spot, s'.value = v' ∧ Projects Γ W s hop s' :=
      ⟨⟨v', _, _⟩, rfl, ops, h, hcode.run W s.word⟩
    obtain ⟨hex, hin⟩ := hexact [] hop hops s s' rfl .nil hproj
    have hty : s'.value.objectTy = some t₁ := by
      rw [hs']
      exact hcode.ty
    refine ⟨hex.safe hdb hin hv hty hcode.moves.ty, fun t' ht' => ?_⟩
    cases hcode.moves.ty.symm.trans ht'
    refine ih hcode.ty hs' fun before hop' after s₁ s₂ heq hpath hstep => ?_
    refine hexact (hop :: before) hop' after s₁ s₂ ?_ (.cons hproj hpath) hstep
    rw [heq, List.cons_append]

/-- The surroundings in which every load answers `x`. -/
def loadsOf (x : Int) : World := { World.reference with load := fun _ _ _ => x }

theorem second_step_outside {v v' v'' : Value} {hop hop' : Hop} {ops ops' : List OpKind}
    (h : Lowers Γ hop v ops v') (h' : Lowers Γ hop' v' ops' v'') (hv : v.objectTy = some t)
    (hby : v.byRef = false) : ∃ (W : World) (s s' : Spot), Projects Γ W (.start v 0) hop s ∧
      Projects Γ W s hop' s' ∧ ¬ Inside Γ.nominals s s' := by
  obtain ⟨t₁, move, hcode⟩ := h.code hv
  obtain ⟨t₂, move', hcode'⟩ := h'.code hcode.ty
  let target := wrapI64 (0 + shift hop move)
  let W := loadsOf (target - 1 - shift hop' move')
  have hrun := hcode.run W 0
  have hrun' := hcode'.run W (target - 1 - shift hop' move')
  rw [hby, if_neg Bool.false_ne_true] at hrun
  refine ⟨W, ⟨v', target, _⟩, ⟨v'', wrapI64 (target - 1 - shift hop' move' + shift hop' move'), _⟩,
    ⟨ops, h, hrun⟩, ⟨ops', h', hrun'⟩, ?_⟩
  rintro ⟨t, t', n, n', -, -, hn, -, hle⟩
  have hlt := typeSizeBytes_lt hn
  have hmod := emod_wrapI64_sub (target - 1 - shift hop' move' + shift hop' move') target
  dsimp only at hle
  omega

theorem StaysInside.safe (hdb : PlainNames Γ.nominals) {v : Value} {hops : List Hop}
    (hv : v.objectTy = some t) (haccepted : Accepted Γ v hops) (h : StaysInside Γ v t hops) :
    SafeChain Γ.nominals v t hops := by
  obtain ⟨n, hn, hsize⟩ := h.size
  refine ⟨⟨n, typeSizeBytes_lt hn, hsize⟩, ?_, fun hby => ?_⟩
  · refine safeFrom_of_exact (s := .start v 0) (W := .reference) hdb haccepted hv rfl ?_
    intro before hop after s₁ s₂ heq hpath hstep
    refine ⟨h.exact _ 0 before hop after s₁ s₂ heq hpath hstep, ?_⟩
    refine h.inside _ 0 before [hop] after s₁ s₂ ?_ hpath (.cons hstep .nil)
    rw [heq, List.singleton_append]
  · by_contra hlen
    cases haccepted with
    | nil => exact hlen (Nat.zero_le _)
    | @cons _ v' hop hops ops h₁ rest =>
      cases rest with
      | nil => exact hlen (Nat.le_refl _)
      | @cons _ v'' hop' hops ops' h₂ rest =>
        obtain ⟨W, s, s', hstep, hstep', hout⟩ := second_step_outside h₁ h₂ hv hby
        exact hout (h.inside W 0 [hop] [hop'] hops s s' rfl (.cons hstep .nil) (.cons hstep' .nil))

end Needed

/-- A chain of projections that the lowering accepts stays inside the object it starts from,
by one layout and without wrapping, exactly when it is safe; and the reference to a place adds
no offset of its own. -/
theorem projections_inside_iff {Γ : Env} (hdb : PlainNames Γ.nominals) {v : Value}
    {t : TypeAtom} {hops : List Hop} (hv : v.objectTy = some t)
    (hsized : (typeSizeBytes Γ.nominals t).isSome) (haccepted : Accepted Γ v hops) :
    (StaysInside Γ v t hops ↔ SafeChain Γ.nominals v t hops) ∧
    ∀ (g g' : Gen) (cur cur' : BlockId) (lex lex' : Cursor) (isMut : Bool) (span : Span),
      compileAddrOf Γ cur lex isMut span g = .ok ((cur', lex'), g') →
      ∃ path place base, parsePlacePath Γ.src lex = .ok (path, lex') ∧
        Atom.new path.full = some place ∧
        g'.opsAt cur = g.opsAt cur ++ [.addrOf place isMut base] ∧
        (Γ.resolveMmioPlace path = .ok none → base = .runtime ∧
          ∃ ty id, resolvePlacePointeeTy Γ g path = .ok (some ty) ∧
            g'.stack = .ptr ty isMut id :: g.stack) := by
  obtain ⟨n, hn⟩ := Option.isSome_iff_exists.mp hsized
  refine ⟨⟨fun h => h.safe hdb hv haccepted, fun h => h.staysInside hdb hv hn⟩, ?_⟩
  intro g g' cur cur' lex lex' isMut span h
  exact compileAddrOf_run h

def arrayEnv : Env where
  src := ⟨[]⟩
  words := []
  subtypes := []
  descriptor := none
  resources := []
  nominals := ⟨[], []⟩
  iso := []
  allowRawCasts := false
  wordBits := 64
  digest _ := ""
  rangeReason _ _ _ _ := ""
  resolveMmioPlace _ := .ok none
  parseTypeExpr _ := none
  parseWordSig _ := none

theorem arrayEnv_plain : PlainNames arrayEnv.nominals := ⟨nofun, nofun⟩

def AT_ARRAY : TypeAtom := ⟨"Array(u32,3)", by decide⟩

def AT_U32 : TypeAtom := ⟨"u32", u32_fits⟩

/-- A reference to an array, and an index above it, in the first block of a word. -/
def arrayGen : Gen :=
  let g := Gen.blank arrayEnv (forecastSession .off) 0 ⟨.new, .new⟩ AT_EMPTY
  { g with
    stack := [.plain AT_I64, .ptr AT_ARRAY true 0]
    word := { g.word with blocks := ⟨[⟨⟨0⟩, .new, .new⟩], by decide⟩ } }

theorem array_lowered (i : Int) : Lowers arrayEnv (.dynamic i) (.ptr AT_ARRAY true 0)
    [.ptrAddIndex TY_PTR_MUT 4] (.ptr AT_U32 true 0) := by
  have hrun : ((compileDynamicIndex arrayEnv ⟨0⟩ .UNKNOWN arrayGen).toOption.map fun p =>
      (p.2.stack, p.2.opsAt ⟨0⟩)) =
      some ([.ptr AT_U32 true 0], [.ptrAddIndex TY_PTR_MUT 4]) := by decide
  cases hlower : compileDynamicIndex arrayEnv ⟨0⟩ .UNKNOWN arrayGen with
  | error e =>
    rw [hlower] at hrun
    cases hrun
  | ok p =>
    rw [hlower] at hrun
    obtain ⟨hstack, hops⟩ := Prod.mk.inj (Option.some.inj hrun)
    exact ⟨arrayGen, p.2, ⟨0⟩, p.1, .UNKNOWN, [], rfl, hlower, hstack, hops⟩

theorem array_size : TypeSize arrayEnv.nominals AT_ARRAY (3 * 4) :=
  have helem : arrayElemType AT_ARRAY = some AT_U32 := by decide
  .array helem (by decide) (.builtin (by decide))

/-- The last element is inside the array. -/
theorem last_element_inside : StaysInside arrayEnv (.ptr AT_ARRAY true 0) AT_ARRAY [.dynamic 2] :=
  (projections_inside_iff arrayEnv_plain rfl (by decide)
    (.cons (array_lowered 2) .nil)).1.mpr
    ⟨⟨_, by decide, array_size⟩,
      ⟨.inl ⟨3, by decide, by decide, by decide⟩, fun _ _ => trivial⟩, nofun⟩

/-- The element behind the last one is accepted as well: an array of three at address 1000 is
accessed at address 1012, where it ends. -/
theorem element_behind_outside : Accepted arrayEnv (.ptr AT_ARRAY true 0) [.dynamic 3] ∧
    ∃ s, Path arrayEnv .reference (.start (.ptr AT_ARRAY true 0) 1000) [.dynamic 3] s ∧
      s.target = 1012 ∧ ¬ Inside arrayEnv.nominals (.start (.ptr AT_ARRAY true 0) 1000) s := by
  refine ⟨.cons (array_lowered 3) .nil, ?_⟩
  obtain ⟨t', move, hcode⟩ := (array_lowered 3).code rfl
  obtain rfl : OpKind.ptrAddIndex TY_PTR_MUT 4 = move := (List.cons.inj hcode.code).1
  have hrun := hcode.run .reference 1000
  have htarget : wrapI64 (1000 + shift (.dynamic 3) (.ptrAddIndex TY_PTR_MUT 4)) = 1012 := by
    decide
  rw [htarget] at hrun
  have hproj : Projects arrayEnv .reference (.start (.ptr AT_ARRAY true 0) 1000) (.dynamic 3)
      ⟨.ptr AT_U32 true 0, 1012, _⟩ := ⟨_, array_lowered 3, hrun⟩
  refine ⟨_, .cons hproj .nil, rfl, ?_⟩
  rintro ⟨t, t₁, n, n', ht, ht₁, hn, hn', hle⟩
  cases ht
  have hsize : typeSizeBytes arrayEnv.nominals AT_ARRAY = some 12 := by decide
  cases hsize.symm.trans hn
  have hrel : ((1012 : Int) - 1000) % 2 ^ 64 = 12 := by decide
  have hle : ((1012 : Int) - 1000) % 2 ^ 64 + n' ≤ 12 := hle
  rw [hrel] at hle
  have hzero : n' = 0 := by omega
  cases ht₁
  have hsize' : typeSizeBytes arrayEnv.nominals AT_U32 = some 4 := by decide
  rw [hzero] at hn'
  cases hsize'.symm.trans hn'

end Tyu.Irgen

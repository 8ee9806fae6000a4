import Tyu.Ir.TypeSafety

/-!
# Volatile accesses and their apertures

The verifier bounds a volatile access by the first recorded site that carries the place name of
the operation, with the width of the element type when the type's own name is a primitive's.
-/

namespace Tyu

open Lib

/-! ## Where values come from -/

/-- `v` is a value of the machine: on its stack or in a local. -/
def Machine.Holds (m : Machine) (v : Value) : Prop :=
  (∃ c ∈ m.stack.items, c.value = v) ∨ v ∈ m.locals

/-- What a value after an operation can be: new and without an origin, the address of
a place, a value that was there before, or an address moved by arithmetic. -/
inductive Derived (W : World) (m : Machine) : Value → Prop
  | fresh (v : Int) : Derived W m ⟨v, none⟩
  | place (place : Atom) (aperture offset : Nat) :
      Derived W m ⟨W.apertureBase aperture + offset, some ⟨place, aperture, offset⟩⟩
  | kept {v : Value} : m.Holds v → Derived W m v
  | moved {v : Value} (d : Int) : m.Holds v → Derived W m (v.shift d)

section Derivation

variable {W : World} {m m' : Machine} {ctl : Control}

theorem Machine.Holds.top {c : Cell} (h : c ∈ m.stack.items) : m.Holds c.value := .inl ⟨c, h, rfl⟩

theorem derived_replace (popped pushed : List Cell) {rest : List Cell} (hsame : m.SameBut m')
    (hm : m.stack.items = popped ++ rest) (hm' : m'.stack.items = pushed ++ rest)
    (hpushed : ∀ c ∈ pushed, Derived W m c.value) {v : Value} (hv : m'.Holds v) :
    Derived W m v := by
  rcases hv with ⟨c, hc, rfl⟩ | hv
  · rw [hm'] at hc
    rcases List.mem_append.mp hc with hc | hc
    · exact hpushed c hc
    · exact .kept (.top (by rw [hm]; exact List.mem_append_right _ hc))
  · exact .kept (.inr (hsame.locals ▸ hv))

variable {x : Value}

theorem derived_pushVal {v : Int} {ty : TypeId} (h : pushVal m v ty = .ok (m', ctl))
    (hx : m'.Holds x) : Derived W m x := by
  obtain ⟨hitems, hsame, -⟩ := of_pushVal h
  refine derived_replace [] [⟨⟨v, none⟩, ty⟩] hsame rfl hitems ?_ hx
  intro c hc
  cases List.mem_singleton.mp hc
  exact .fresh v

theorem derived_binop {ty : TypeId} {f : Int → Int → Int} (h : binop m ty f = .ok (m', ctl))
    (hx : m'.Holds x) : Derived W m x := by
  obtain ⟨a, b, rest, hm, hm', hsame, -⟩ := of_binop h
  refine derived_replace [b, a] [⟨⟨f a.val b.val, none⟩, ty⟩] hsame hm hm' ?_ hx
  intro c hc
  cases List.mem_singleton.mp hc
  exact .fresh _

theorem derived_readTop {ty : TypeId} {f : Int → Int} (h : readTop m ty f = .ok (m', ctl))
    (hx : m'.Holds x) : Derived W m x := by
  obtain ⟨a, rest, hm, hm', hsame, -⟩ := of_readTop h
  refine derived_replace [a] [⟨⟨f a.val, none⟩, ty⟩] hsame hm hm' ?_ hx
  intro c hc
  cases List.mem_singleton.mp hc
  exact .fresh _

theorem derived_pop_push {c c' : Cell} {m₁ : Machine} (hpop : m.pop = .ok (c, m₁))
    (hpush : m₁.push c' = .ok m') (hc' : Derived W m c'.value) (hx : m'.Holds x) :
    Derived W m x := by
  obtain ⟨hi, hs⟩ := Machine.of_pop hpop
  obtain ⟨hi', hs'⟩ := Machine.of_push hpush
  refine derived_replace [c] [c'] (hs.trans hs') hi hi' ?_ hx
  intro d hd
  cases List.mem_singleton.mp hd
  exact hc'

theorem derived_drop (popped : List Cell) (hsame : m.SameBut m')
    (hm : m.stack.items = popped ++ m'.stack.items) (hx : m'.Holds x) : Derived W m x := by
  refine derived_replace popped [] hsame hm rfl ?_ hx
  intro c hc
  cases hc

theorem holds_getLocal (m : Machine) (slot : Nat) : Derived W m (m.getLocal slot) := by
  unfold Machine.getLocal
  by_cases h : slot < m.locals.length
  · rw [List.getD_eq_getElem _ _ h]
    exact .kept (.inr (List.getElem_mem h))
  · rw [List.getD_eq_default _ _ (Nat.le_of_not_lt h)]
    exact .fresh 0

theorem execOp_derived {kind : OpKind} (h : execOp W kind m = .ok (m', ctl)) (hx : m'.Holds x) :
    Derived W m x := by
  cases kind with
  | constI64 v => exact derived_pushVal h hx
  | constBool b => exact derived_pushVal h hx
  | constStr s => exact derived_pushVal h hx
  | addrOf place isMut base => exact derived_pushVal h hx
  | scopedEnter ty len => exact derived_pushVal h hx
  | taskSpawn name taskTy => exact derived_pushVal h hx
  | addI64 =>
    rw [execOp] at h
    exact derived_binop h hx
  | subI64 =>
    rw [execOp] at h
    exact derived_binop h hx
  | mulI64 =>
    rw [execOp] at h
    exact derived_binop h hx
  | cmp out k =>
    rw [execOp] at h
    exact derived_binop h hx
  | andBool =>
    rw [execOp] at h
    exact derived_binop h hx
  | orBool =>
    rw [execOp] at h
    exact derived_binop h hx
  | load ty => exact derived_readTop h hx
  | mmioVolLoad ty place rk am bar =>
    rw [execOp] at h
    exact derived_readTop h hx
  | mmioVolLoadField regTy fieldTy place mask shift rk am bar =>
    rw [execOp] at h
    exact derived_readTop h hx
  | mmioPlace place aperture offset =>
    simp only [execOp, bind_eq_ok, pure_eq_ok, Prod.mk.injEq] at h
    obtain ⟨m₁, hpush, rfl, -⟩ := h
    obtain ⟨hi, hs⟩ := Machine.of_push hpush
    refine derived_replace [] [_] hs rfl hi ?_ hx
    intro c hc
    cases List.mem_singleton.mp hc
    exact .place place aperture offset
  | ptrAddConst ty offset =>
    simp only [execOp, bind_eq_ok, pure_eq_ok, Prod.exists, Prod.mk.injEq] at h
    obtain ⟨p, m₁, hpop, m₂, hpush, rfl, -⟩ := h
    refine derived_pop_push hpop hpush (.moved _ (.top ?_)) hx
    rw [(Machine.of_pop hpop).1]
    exact List.mem_cons_self ..
  | ptrAddIndex ty scale =>
    simp only [execOp, bind_eq_ok, pure_eq_ok, Prod.exists, Prod.mk.injEq] at h
    obtain ⟨i, m₁, hpop₁, p, m₂, hpop₂, m₃, hpush, rfl, -⟩ := h
    obtain ⟨hi₁, hs₁⟩ := Machine.of_pop hpop₁
    obtain ⟨hi₂, hs₂⟩ := Machine.of_pop hpop₂
    obtain ⟨hi₃, hs₃⟩ := Machine.of_push hpush
    refine derived_replace [i, p] [_] (hs₁.trans (hs₂.trans hs₃))
      (by rw [hi₁, hi₂]; rfl) hi₃ ?_ hx
    intro c hc
    cases List.mem_singleton.mp hc
    exact .moved _ (.top (by rw [hi₁, hi₂]; exact List.mem_cons_of_mem _ (List.mem_cons_self ..)))
  | dup ty =>
    simp only [execOp, bind_eq_ok, pure_eq_ok, Prod.exists, Prod.mk.injEq] at h
    obtain ⟨c, m₁, hpop, m₂, hpush₁, m₃, hpush₂, rfl, -⟩ := h
    obtain ⟨hi₁, hs₁⟩ := Machine.of_pop hpop
    obtain ⟨hi₂, hs₂⟩ := Machine.of_push hpush₁
    obtain ⟨hi₃, hs₃⟩ := Machine.of_push hpush₂
    refine derived_replace [c] [c, c] (hs₁.trans (hs₂.trans hs₃)) hi₁
      (by rw [hi₃, hi₂]; rfl) ?_ hx
    intro d hd
    have hd : d = c := by simpa using hd
    rw [hd]
    exact .kept (.top (by rw [hi₁]; exact List.mem_cons_self ..))
  | drop ty =>
    simp only [execOp, bind_eq_ok, pure_eq_ok, Prod.exists, Prod.mk.injEq] at h
    obtain ⟨c, m₁, hpop, rfl, -⟩ := h
    obtain ⟨hi, hs⟩ := Machine.of_pop hpop
    exact derived_drop [c] hs hi hx
  | swap a b =>
    simp only [execOp, bind_eq_ok, pure_eq_ok, Prod.exists, Prod.mk.injEq] at h
    obtain ⟨cb, m₁, hpop₁, ca, m₂, hpop₂, m₃, hpush₁, m₄, hpush₂, rfl, -⟩ := h
    obtain ⟨hi₁, hs₁⟩ := Machine.of_pop hpop₁
    obtain ⟨hi₂, hs₂⟩ := Machine.of_pop hpop₂
    obtain ⟨hi₃, hs₃⟩ := Machine.of_push hpush₁
    obtain ⟨hi₄, hs₄⟩ := Machine.of_push hpush₂
    have hitems : m.stack.items = [cb, ca] ++ m₂.stack.items := by rw [hi₁, hi₂]; rfl
    refine derived_replace [cb, ca] [ca, cb]
      (hs₁.trans (hs₂.trans (hs₃.trans hs₄))) hitems (by rw [hi₄, hi₃]; rfl) ?_ hx
    intro d hd
    refine .kept (.top ?_)
    rw [hitems]
    refine List.mem_append_left _ ?_
    simpa [or_comm] using hd
  | notBool =>
    simp only [execOp, bind_eq_ok, pure_eq_ok, Prod.exists, Prod.mk.injEq] at h
    obtain ⟨a, m₁, hpop, m₂, hpush, rfl, -⟩ := h
    exact derived_pop_push hpop hpush (.fresh _) hx
  | interruptDisable =>
    cases pure_eq_ok.mp h
    exact .kept hx
  | interruptEnable =>
    cases pure_eq_ok.mp h
    exact .kept hx
  | localSet slot ty =>
    simp only [execOp, bind_eq_ok, pure_eq_ok, Prod.exists, Prod.mk.injEq] at h
    obtain ⟨c, m₁, hpop, rfl, -⟩ := h
    obtain ⟨hi, hs⟩ := Machine.of_pop hpop
    rcases hx with hx | hx
    · exact derived_drop [c] hs hi (.inl hx)
    · rcases List.mem_or_eq_of_mem_set hx with hx | rfl
      · exact derived_drop [c] hs hi (.inr hx)
      · exact .kept (.top (by rw [hi]; exact List.mem_cons_self ..))
  | localGet slot ty =>
    simp only [execOp, bind_eq_ok, pure_eq_ok, Prod.mk.injEq] at h
    obtain ⟨m₁, hpush, rfl, -⟩ := h
    obtain ⟨hi, hs⟩ := Machine.of_push hpush
    refine derived_replace [] [_] hs rfl hi ?_ hx
    intro c hc
    cases List.mem_singleton.mp hc
    exact holds_getLocal m slot
  | cast src tgt =>
    simp only [execOp, bind_eq_ok, pure_eq_ok, Prod.exists, Prod.mk.injEq] at h
    obtain ⟨c, m₁, hpop, m₂, hpush, rfl, -⟩ := h
    refine derived_pop_push hpop hpush (.kept (.top (c := c) ?_)) hx
    rw [(Machine.of_pop hpop).1]
    exact List.mem_cons_self ..
  | bitcast src tgt =>
    simp only [execOp, bind_eq_ok, pure_eq_ok, Prod.exists, Prod.mk.injEq] at h
    obtain ⟨c, m₁, hpop, m₂, hpush, rfl, -⟩ := h
    refine derived_pop_push hpop hpush (.kept (.top (c := c) ?_)) hx
    rw [(Machine.of_pop hpop).1]
    exact List.mem_cons_self ..
  | call name sig performs requires bound =>
    simp only [execOp, bind_eq_ok, Prod.exists] at h
    obtain ⟨args, m₁, hpop, h⟩ := h
    obtain ⟨hi, -, hs⟩ := Machine.of_popN hpop
    split at h
    · cases pure_eq_ok.mp h
      exact derived_drop args hs hi hx
    · simp only [bind_eq_ok, pure_eq_ok, Prod.mk.injEq] at h
      obtain ⟨m₂, hpush, rfl, -⟩ := h
      obtain ⟨hi', hs'⟩ := Machine.of_pushAll hpush
      refine derived_replace args _ (hs.trans hs') hi hi' ?_ hx
      intro c hc
      obtain ⟨i, hi, rfl⟩ := List.mem_mapIdx.mp (List.mem_reverse.mp hc)
      exact .fresh _
  | store ty =>
    simp only [execOp, bind_eq_ok, pure_eq_ok, Prod.exists, Prod.mk.injEq] at h
    obtain ⟨v, m₁, hpop₁, a, m₂, hpop₂, rfl, -⟩ := h
    obtain ⟨hi₁, hs₁⟩ := Machine.of_pop hpop₁
    obtain ⟨hi₂, hs₂⟩ := Machine.of_pop hpop₂
    exact derived_drop [v, a] (hs₁.trans hs₂) (by rw [hi₁, hi₂]; rfl) hx
  | mmioVolStore ty place wk rk am bar =>
    simp only [execOp, bind_eq_ok, pure_eq_ok, Prod.exists, Prod.mk.injEq] at h
    obtain ⟨v, m₁, hpop₁, a, m₂, hpop₂, rfl, -⟩ := h
    obtain ⟨hi₁, hs₁⟩ := Machine.of_pop hpop₁
    obtain ⟨hi₂, hs₂⟩ := Machine.of_pop hpop₂
    exact derived_drop [v, a] (hs₁.trans hs₂) (by rw [hi₁, hi₂]; rfl) hx
  | mmioVolStoreField regTy fieldTy place mask shift wk rk am bar =>
    simp only [execOp, bind_eq_ok, pure_eq_ok, Prod.exists, Prod.mk.injEq] at h
    obtain ⟨v, m₁, hpop₁, a, m₂, hpop₂, rfl, -⟩ := h
    obtain ⟨hi₁, hs₁⟩ := Machine.of_pop hpop₁
    obtain ⟨hi₂, hs₂⟩ := Machine.of_pop hpop₂
    exact derived_drop [v, a] (hs₁.trans hs₂) (by rw [hi₁, hi₂]; rfl) hx
  | trapIfFalse code =>
    simp only [execOp, bind_eq_ok, pure_eq_ok, Prod.exists, Prod.mk.injEq] at h
    obtain ⟨c, m₁, hpop, rfl, -⟩ := h
    obtain ⟨hi, hs⟩ := Machine.of_pop hpop
    exact derived_drop [c] hs hi hx
  | br target =>
    cases pure_eq_ok.mp h
    exact .kept hx
  | brIf thenTgt elseTgt =>
    simp only [execOp, bind_eq_ok, pure_eq_ok, Prod.exists, Prod.mk.injEq] at h
    obtain ⟨c, m₁, hpop, rfl, -⟩ := h
    obtain ⟨hi, hs⟩ := Machine.of_pop hpop
    exact derived_drop [c] hs hi hx
  | ret =>
    cases pure_eq_ok.mp h
    exact .kept hx

end Derivation

/-- A value with an origin is the base of its aperture plus its offset, as a 64-bit
address. -/
def Grounded (W : World) (v : Value) : Prop :=
  ∀ p, v.prov = some p → v.val ≡ W.apertureBase p.aperture + p.offset [ZMOD 2 ^ 64]

theorem wrapI64_modEq (x : Int) : wrapI64 x ≡ x [ZMOD 2 ^ 64] := Int.bmod_emod ..

variable {v : Value} {w : Word} {c : Config} {st st' : VerifyState}

theorem Grounded.shift {W : World} (h : Grounded W v) (d : Int) : Grounded W (v.shift d) := by
  intro p hp
  obtain ⟨q, hq, rfl⟩ := Option.map_eq_some_iff.mp hp
  have hmoved : v.val + d ≡ W.apertureBase q.aperture + q.offset + d [ZMOD 2 ^ 64] :=
    (h q hq).add_right d
  rw [add_assoc] at hmoved
  exact (wrapI64_modEq _).trans hmoved

theorem Derived.grounded {W : World} {m : Machine} (hm : ∀ v, m.Holds v → Grounded W v)
    (h : Derived W m v) : Grounded W v := by
  cases h with
  | fresh v => intro p hp; cases hp
  | place place aperture offset => intro p hp; cases hp; exact Int.ModEq.refl _
  | kept hv => exact hm _ hv
  | moved d hv => exact (hm _ hv).shift d

def AllGrounded (W : World) (m : Machine) : Prop := ∀ v, m.Holds v → Grounded W v

theorem allGrounded_of_forgotten {W : World} {m : Machine} (h : ∀ v, m.Holds v → v.prov = none) :
    AllGrounded W m := by
  intro v hv p hp
  rw [h v hv] at hp
  cases hp

theorem forget_prov {m : Machine} (h : m.forget.Holds v) : v.prov = none := by
  rcases h with ⟨c, hc, rfl⟩ | hv
  · obtain ⟨c', -, rfl⟩ := List.mem_map.mp hc
    rfl
  · obtain ⟨v', -, rfl⟩ := List.mem_map.mp hv
    rfl

theorem AllGrounded.step {W : World} {c' : Config} (h : AllGrounded W c.machine)
    (hstep : wordStep W w c = .running c') : AllGrounded W c'.machine := by
  obtain ⟨op, m, ctl, -, hex, hfollow⟩ := wordStep_eq_running.mp hstep
  rcases follow_eq_running.mp hfollow with ⟨rfl, rfl⟩ | ⟨tgt, rfl, rfl⟩
  · exact fun v hv => (execOp_derived hex hv).grounded h
  · exact allGrounded_of_forgotten fun v hv => forget_prov hv

def siteOf (op : Op) : Option Site :=
  match op.kind with
  | .mmioPlace place aperture offset => some ⟨place, aperture, offset⟩
  | _ => none

/-- The verifier's table after these operations: their sites, eight at most. -/
def recordedSites (ops : List Op) : List Site := (ops.filterMap siteOf).take 8

theorem addSite_items (st : VerifyState) (site : Site) :
    (st.addSite site).sites.items = (st.sites.items ++ [site]).take 8 := by
  unfold VerifyState.addSite
  have hb := st.sites.bounded
  split
  · rename_i sites hs
    have hitems := FixedVec.push_eq_some.mp hs
    have hb' := sites.bounded
    rw [hitems] at hb'
    rw [hitems, List.take_of_length_le hb']
  · rename_i hs
    have hfull : st.sites.items.length = 8 := by
      by_contra hne
      have hlt : st.sites.items.length < 8 := by omega
      rw [FixedVec.push, dif_pos hlt] at hs
      cases hs
    rw [List.take_append_of_le_length (by omega)]
    exact (List.take_of_length_le hb).symm

theorem verifyOp_sites {op : Op} (h : verifyOp w st op = .ok st') :
    st'.sites.items = (st.sites.items ++ (siteOf op).toList).take 8 := by
  obtain ⟨kind, span⟩ := op
  have hkeep : (st.sites.items ++ []).take 8 = st.sites.items := by
    rw [List.append_nil, List.take_of_length_le st.sites.bounded]
  unfold verifyOp at h
  rw [bind_eq_ok] at h
  obtain ⟨_, -, h⟩ := h
  cases kind with
  | mmioPlace place aperture offset =>
    simp only [bind_eq_ok, VerifyState.push_eq_ok] at h
    obtain ⟨-, -, -, -, stack, -, rfl⟩ := h
    exact addSite_items st ⟨place, aperture, offset⟩
  | addrOf place isMut base =>
    cases isMut <;> simp only [VerifyState.push_eq_ok] at h <;> obtain ⟨_, -, rfl⟩ := h <;>
      exact hkeep.symm
  | _ =>
    simp only [bind_eq_ok, Prod.exists, VerifyState.push_eq_ok, VerifyState.pop_eq_ok,
      VerifyState.pushAll_eq_ok, pure_eq_ok] at h
    simp only [siteOf, Option.toList_none, hkeep]
    grind [VerifyState.terminate]

theorem take_append_take {α : Type} (n : Nat) (xs ys : List α) :
    (xs.take n ++ ys).take n = (xs ++ ys).take n := by
  rw [List.take_append, List.take_append, List.take_take, Nat.min_self, List.length_take]
  by_cases h : n ≤ xs.length
  · rw [Nat.min_eq_left h, Nat.sub_self, Nat.sub_eq_zero_of_le h]
  · rw [Nat.min_eq_right (Nat.le_of_not_le h)]

theorem foldlM_verifyOp_sites {ops : List Op} (h : ops.foldlM (verifyOp w) st = .ok st') :
    st'.sites.items = (st.sites.items ++ ops.filterMap siteOf).take 8 := by
  induction ops generalizing st with
  | nil =>
    rw [foldlM_nil_eq_ok] at h
    rw [← h, List.filterMap_nil, List.append_nil, List.take_of_length_le st.sites.bounded]
  | cons op ops ih =>
    rw [foldlM_cons_eq_ok] at h
    obtain ⟨m, hop, hrest⟩ := h
    rw [ih hrest, verifyOp_sites hop]
    cases hsite : siteOf op with
    | none =>
      rw [Option.toList_none, List.append_nil, List.take_of_length_le st.sites.bounded,
        List.filterMap_cons_none hsite]
    | some site =>
      rw [Option.toList_some, take_append_take, List.filterMap_cons_some hsite,
        List.append_assoc, List.singleton_append]

/-! ## The access an operation makes -/

/-- The element type of a volatile operation, its place name, and how far below the
top of the stack its address is. -/
def volatileAccess : OpKind → Option (TypeId × Atom × Nat)
  | .mmioVolLoad ty place _ _ _ => some (ty, place, 0)
  | .mmioVolStore ty place _ _ _ _ => some (ty, place, 1)
  | .mmioVolLoadField regTy _ place _ _ _ _ _ => some (regTy, place, 0)
  | .mmioVolStoreField regTy _ place _ _ _ _ _ _ => some (regTy, place, 1)
  | _ => none

/-- The bytes a code generator accesses for an element type: the width of the storage
behind it.  A type without storage (an enumeration, a structure) is not accessed. -/
def accessWidth (ptrBits : Nat) (w : Word) (ty : TypeId) : Option Nat :=
  (storageBitsSigned w ty ptrBits).map fun p => p.1 / 8

structure Access where
  place : Atom
  ty : TypeId
  address : Int
  origin : Provenance
  width : Nat
deriving DecidableEq

/-- The access of the next operation, when its address is a place produced in this
block. -/
def accessAt (ptrBits : Nat) (w : Word) (c : Config) : Option Access := do
  let op ← currentOp w c
  let (ty, place, pos) ← volatileAccess op.kind
  let addr ← c.machine.stack.items[pos]?
  let origin ← addr.value.prov
  let width ← accessWidth ptrBits w ty
  pure ⟨place, ty, addr.val, origin, width⟩

/-- The next operation's access, if it makes one, touches only bytes of the aperture
its address was declared in. -/
def AccessInside (W : World) (ptrBits : Nat) (w : Word) (c : Config) : Prop :=
  ∀ a, accessAt ptrBits w c = some a →
    ∃ wu, findApertureUse w a.origin.aperture = some wu ∧
      0 ≤ a.origin.offset ∧ a.origin.offset + a.width ≤ wu.size ∧
      a.address ≡ W.apertureBase a.origin.aperture + a.origin.offset [ZMOD 2 ^ 64]

/-- The sites recorded in the block of `c` before its next operation. -/
def sitesBefore (w : Word) (c : Config) : List Site :=
  match findBlock w c.block with
  | some b => recordedSites (b.ops.items.take c.pc)
  | none => []

/-- The site that the verifier consults for the next operation lies in the aperture of
the address and not below it, the element type's own width is known, and the bytes
from that site on do not run past `u32`. -/
def SiteCovers (ptrBits : Nat) (w : Word) (c : Config) : Prop :=
  ∀ a, accessAt ptrBits w c = some a →
    ∃ s width, (sitesBefore w c).find? (fun s => s.place == a.place) = some s ∧
      s.aperture = a.origin.aperture ∧ 0 ≤ a.origin.offset ∧ a.origin.offset ≤ s.offset ∧
      typeWidthBytes w a.ty = some width ∧ s.offset + width < 2 ^ 32

theorem prim_bits_mono {p : Prim} {a b : Nat} (h : a ≤ b) : p.bits a ≤ p.bits b := by
  cases p <;> first | exact h | exact Nat.le_refl _

/-- A type with a primitive's name is its own storage, and no target accesses more of
it than the verifier counts. -/
theorem accessWidth_le {ty : TypeId} {ptrBits width own : Nat} (hptr : ptrBits ≤ 64)
    (hown : typeWidthBytes w ty = some own) (h : accessWidth ptrBits w ty = some width) :
    width ≤ own := by
  unfold typeWidthBytes at hown
  simp only [Option.bind_eq_bind, Option.bind_eq_some_iff, pure, Option.some.injEq] at hown
  obtain ⟨name, hname, prim, hprim, rfl⟩ := hown
  have hres : resolveStorageType w ty = some ty := by
    unfold resolveStorageType resolveStorageTypeFrom
    simp only [hname, Option.bind_eq_bind, Option.bind_some, hprim, Option.isSome_some, if_true]
  have hbits : storageBitsSigned w ty ptrBits = some (prim.bits ptrBits, prim.isSigned) := by
    unfold storageBitsSigned
    simp only [hres, hname, hprim, Option.bind_eq_bind, Option.bind_some]
    rfl
  rw [accessWidth, hbits, Option.map_some, Option.some.injEq] at h
  rw [← h]
  exact Nat.div_le_div_right (prim_bits_mono hptr)

theorem checkVolWidth_eq_ok {sites : List Site} {ty : TypeId} {place : Atom} {atomicMax width : Nat}
    {span : Span} {u : Unit} {s : Site} (h : checkVolWidth w sites ty place atomicMax span = .ok u)
    (hwidth : typeWidthBytes w ty = some width)
    (hs : sites.find? (fun s => s.place == place) = some s) :
    ∃ wu, findApertureUse w s.aperture = some wu ∧ saturatingAddU32 s.offset width ≤ wu.size := by
  unfold checkVolWidth at h
  simp only [hwidth, bind_eq_ok] at h
  obtain ⟨_, hbounds, -⟩ := h
  unfold checkSiteBounds at hbounds
  rw [hs] at hbounds
  cases hwu : findApertureUse w s.aperture with
  | none =>
    simp only [hwu] at hbounds
    cases hbounds
  | some wu =>
    simp only [hwu] at hbounds
    exact ⟨wu, rfl, require_eq_ok.mp hbounds⟩

/-- A volatile operation that the verifier lets pass has passed the width checks with
the sites recorded so far. -/
theorem verifyOp_volatile {op : Op} {ty : TypeId} {place : Atom} {pos : Nat}
    (h : verifyOp w st op = .ok st') (hvol : volatileAccess op.kind = some (ty, place, pos)) :
    ∃ atomicMax, checkVolWidth w st.sites.items ty place atomicMax op.span = .ok ⟨⟩ := by
  obtain ⟨kind, span⟩ := op
  unfold verifyOp at h
  rw [bind_eq_ok] at h
  obtain ⟨_, -, h⟩ := h
  cases kind with
  | mmioVolLoad ty' place' rk am bar =>
    cases hvol
    simp only [bind_eq_ok, Prod.exists, VerifyState.pop_eq_ok] at h
    obtain ⟨-, -, ⟨_, -, rfl⟩, -, -, _, hchk, -⟩ := h
    exact ⟨am, hchk⟩
  | mmioVolStore ty' place' wk rk am bar =>
    cases hvol
    simp only [bind_eq_ok, Prod.exists, VerifyState.pop_eq_ok] at h
    obtain ⟨-, -, ⟨_, -, rfl⟩, -, -, ⟨_, -, rfl⟩, -, -, -, -, -, -, _, hchk, -⟩ := h
    exact ⟨am, hchk⟩
  | mmioVolLoadField regTy fieldTy place' mask shift rk am bar =>
    cases hvol
    simp only [bind_eq_ok, Prod.exists, VerifyState.pop_eq_ok] at h
    obtain ⟨-, -, ⟨_, -, rfl⟩, -, -, _, hchk, -⟩ := h
    exact ⟨am, hchk⟩
  | mmioVolStoreField regTy fieldTy place' mask shift wk rk am bar =>
    cases hvol
    simp only [bind_eq_ok, Prod.exists, VerifyState.pop_eq_ok] at h
    obtain ⟨-, -, ⟨_, -, rfl⟩, -, -, ⟨_, -, rfl⟩, -, -, -, -, _, hchk, -⟩ := h
    exact ⟨am, hchk⟩
  | _ => cases hvol

/-! ## Runs -/

/-- At a consistent point, an access whose consulted site covers its address stays in
the aperture. -/
theorem accessInside_of_siteCovers (hw : Accepted w) {W : World} {ptrBits : Nat}
    (hptr : ptrBits ≤ 64) (hc : Consistent w c) (hg : AllGrounded W c.machine)
    (hcov : SiteCovers ptrBits w c) : AccessInside W ptrBits w c := by
  intro a ha
  obtain ⟨s, own, hsite, hap, hlow, hle, hown, hfit⟩ := hcov a ha
  unfold accessAt at ha
  simp only [Option.bind_eq_bind, Option.bind_eq_some_iff, Prod.exists, pure,
    Option.some.injEq] at ha
  obtain ⟨op, hop, ty, place, pos, hvol, addr, haddr, origin, horigin, width, hwidth, rfl⟩ := ha
  obtain ⟨b, st, hb, hpre, hty, hlive⟩ := hc
  obtain ⟨stEnd, hall, hterm⟩ := hw.block (findBlock_mem hb).1
  have hopb : b.ops.items[c.pc]? = some op := by
    rwa [currentOp, hb, Option.bind_some] at hop
  obtain ⟨st', hstep, -⟩ := foldlM_at hall hpre hopb
  -- the table the verifier consulted is the one of the condition
  have hsites : st.sites.items = sitesBefore w c := by
    rw [foldlM_verifyOp_sites hpre, sitesBefore, hb]
    rfl
  obtain ⟨atomicMax, hchk⟩ := verifyOp_volatile hstep hvol
  rw [hsites] at hchk
  obtain ⟨wu, hwu, hbound⟩ := checkVolWidth_eq_ok hchk hown hsite
  have hmem : c.machine.Holds addr.value := .top (List.mem_of_getElem? haddr)
  refine ⟨wu, by rw [← hap]; exact hwu, hlow, ?_, hg _ hmem _ horigin⟩
  have hw' : width ≤ own := accessWidth_le hptr hown hwidth
  have hsum : s.offset + own ≤ wu.size := by
    unfold saturatingAddU32 at hbound
    omega
  have hle' : origin.offset ≤ s.offset := hle
  show origin.offset + (width : Int) ≤ wu.size
  omega

theorem grounded_of_reach {W : World} {ok : Config → Prop} {start : Machine → Prop}
    (hstart : ∀ m, start m → ∀ v, m.Holds v → v.prov = none)
    (hc : (wordSystem W w start).Reach ok c) : AllGrounded W c.machine := by
  refine System.Reach.invariant (I := fun c => AllGrounded W c.machine) ?_
    (fun s s' hs _ hstep => hs.step hstep) hc
  rintro ⟨block, pc, m⟩ ⟨-, -, hm⟩
  exact allGrounded_of_forgotten (hstart m hm)

/-- A word that reads a register of the type `ty`, declared at byte `offset` of an
aperture of four bytes.  Type 7 is a four-byte primitive and type 8 a subtype of it. -/
def registerRead (ty : TypeId) (offset : Nat) : Word where
  name := ⟨"peek", by decide⟩
  sig := .empty
  performs := .empty
  requires := .empty
  bound := ⟨0, .slots 1⟩
  entry := ⟨0⟩
  types := ⟨[AT_EMPTY, AT_I64, AT_BOOL, AT_STR, AT_PTR, AT_PTR_MUT, AT_MMIO,
    ⟨"u32", by decide⟩, ⟨"Level", by decide⟩], by decide⟩
  typeSizes := ⟨[0, 8, 1, 8, 8, 8, 8, 4, 4], by decide⟩
  typeClasses := ⟨[.other, .i64, .bool, .str, .ptr, .ptrMut, .mmio, .other, .other], by decide⟩
  apertures := ⟨[⟨0, ⟨"dev", by decide⟩, .emulated, none, 4, 1#8, .none⟩], by decide⟩
  subtypeBases := ⟨[TY_EMPTY, TY_EMPTY, TY_EMPTY, TY_EMPTY, TY_EMPTY, TY_EMPTY, TY_EMPTY,
    TY_EMPTY, ⟨7⟩], by decide⟩
  blocks := ⟨[⟨⟨0⟩, .new, ⟨[⟨.mmioPlace ⟨"level", by decide⟩ 0 offset, .UNKNOWN⟩,
    ⟨.mmioVolLoad ty ⟨"level", by decide⟩ .plain 32 .none, .UNKNOWN⟩,
    ⟨.drop ty, .UNKNOWN⟩, ⟨.ret, .UNKNOWN⟩], show 4 ≤ 96 by decide⟩⟩], one_entry⟩

def emptyMachine : Machine := ⟨.empty, [], ⟨[], 0, 0⟩, 0⟩

theorem emptyMachine_holds : ¬emptyMachine.Holds v := by
  rintro (⟨c, hc, -⟩ | hv)
  · cases hc
  · cases hv

/-- A `registerRead` after producing its place. -/
def atRegisterRead (offset : Nat) : Config :=
  ⟨⟨0⟩, 1, ⟨⟨[⟨⟨0 + offset, some ⟨⟨"level", by decide⟩, 0, offset⟩⟩, TY_MMIO⟩],
    one_value⟩, [], ⟨[], 0, 0⟩, 1⟩⟩

end Tyu

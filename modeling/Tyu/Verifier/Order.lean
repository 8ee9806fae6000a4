import Tyu.Verifier.InterpSound

/-! # The order of abstract states -/

namespace Tyu

open Lib

namespace Interval

theorem subsetOf_refl (a : Interval) : a.subsetOf a = true := by
  cases a <;> simp [subsetOf]

@[simp] theorem subsetOf_top (a : Interval) : a.subsetOf .top = true := by
  cases a <;> rfl

theorem subsetOf_trans {a b c : Interval} (hab : a.subsetOf b = true) (hbc : b.subsetOf c = true) :
    a.subsetOf c = true := by
  cases a <;> cases b <;> cases c <;> simp_all [subsetOf]
  omega

theorem subsetOf_join_left (a b : Interval) : a.subsetOf (a.join b) = true := by
  cases a <;> cases b <;> simp [subsetOf, join]

theorem subsetOf_join_right (a b : Interval) : b.subsetOf (a.join b) = true := by
  cases a <;> cases b <;> simp [subsetOf, join]

theorem join_top_left (b : Interval) : Interval.top.join b = .top := by
  cases b <;> rfl

end Interval

/-- Everything within `x` is within `y`. -/
def Slot.Admits (y x : Slot) : Prop := x.iv.subsetOf y.iv = true

/-- The stack of `s` is entry by entry within that of `s'`. -/
def Below (s s' : State) : Prop := List.Forall₂ Slot.Admits s'.stack s.stack

def OpenLocals (s : State) : Prop := s.locals.map Slot.iv = List.replicate 64 .top

theorem Below.refl (s : State) : Below s s :=
  List.forall₂_same.mpr fun x _ => Interval.subsetOf_refl x.iv

theorem Below.trans {a b c : State} (hab : Below a b) (hbc : Below b c) : Below a c := by
  obtain ⟨hbl, hb⟩ := List.forall₂_iff_get.mp hab
  obtain ⟨hcl, hc⟩ := List.forall₂_iff_get.mp hbc
  refine List.forall₂_iff_get.mpr ⟨hcl.trans hbl, ?_⟩
  intro i h₁ h₂
  exact Interval.subsetOf_trans (hb i (hcl ▸ h₁) h₂) (hc i h₁ (hcl ▸ h₁))

theorem Below.length_eq {a b : State} (h : Below a b) : b.stack.length = a.stack.length :=
  List.Forall₂.length_eq h

namespace OpenLocals

variable {s : State}

theorem length (h : OpenLocals s) : s.locals.length = 64 := by
  have := congrArg List.length h
  rwa [List.length_map, List.length_replicate] at this

theorem getD (h : OpenLocals s) (i : Nat) : (s.locals.getD i .top).iv = .top := by
  by_cases hi : i < s.locals.length
  · have hget := congrArg (·[i]?) h
    have hi64 : i < 64 := by
      rw [← h.length]
      exact hi
    simp only [List.getElem?_map, List.getElem?_eq_getElem hi, Option.map_some,
      List.getElem?_replicate, if_pos hi64, Option.some.injEq] at hget
    rw [List.getD_eq_getElem _ _ hi]
    exact hget
  · rw [List.getD_eq_default _ _ (Nat.le_of_not_lt hi)]
    rfl

theorem of_getD (hlen : s.locals.length = 64) (h : ∀ i, (s.locals.getD i .top).iv = .top) :
    OpenLocals s := by
  refine List.ext_getElem (by rw [List.length_map, List.length_replicate, hlen]) ?_
  intro i h₁ h₂
  have hi : i < s.locals.length := by rwa [List.length_map] at h₁
  have := h i
  rw [List.getD_eq_getElem _ _ hi] at this
  rw [List.getElem_map, List.getElem_replicate, this]

end OpenLocals

theorem openLocals_fresh : OpenLocals (.fresh 64) := rfl

theorem openLocals_calleeEntry (n : Nat) : OpenLocals (.calleeEntry n 64) := rfl

theorem Covers.mono {a b : State} {m : Machine} (h : Covers a m) (hab : Below a b)
    (hopen : OpenLocals b) (hlen : a.locals.length = 64) : Covers b m := by
  refine ⟨?_, ?_, ?_⟩
  · obtain ⟨hl, hsub⟩ := List.forall₂_iff_get.mp hab
    obtain ⟨hml, hdesc⟩ := List.forall₂_iff_get.mp h.stack
    refine List.forall₂_iff_get.mpr ⟨hl.trans hml, ?_⟩
    intro i h₁ h₂
    exact Interval.contains_of_subsetOf (hsub i h₁ (hl ▸ h₁)) (hdesc i (hl ▸ h₁) h₂)
  · rw [hopen.length, ← hlen]
    exact h.room
  · intro i
    unfold Slot.Describes
    rw [hopen.getD i]
    rfl

/-! ## The transfer table looks at intervals only -/

structure Alike (s s' : State) : Prop where
  stack : s.stack.map Slot.iv = s'.stack.map Slot.iv
  locals : s.locals.map Slot.iv = s'.locals.map Slot.iv

namespace Alike

variable {s s' : State}

theorem refl (s : State) : Alike s s := ⟨rfl, rfl⟩

theorem symm (h : Alike s s') : Alike s' s := ⟨h.stack.symm, h.locals.symm⟩

theorem trans {s'' : State} (h : Alike s s') (h' : Alike s' s'') : Alike s s'' :=
  ⟨h.stack.trans h'.stack, h.locals.trans h'.locals⟩

theorem length_eq (h : Alike s s') : s.stack.length = s'.stack.length := by
  have := congrArg List.length h.stack
  rwa [List.length_map, List.length_map] at this

theorem below (h : Alike s s') : Below s s' := by
  obtain ⟨hl, hget⟩ := List.forall₂_iff_get.mp (List.forall₂_eq_eq_eq ▸ h.stack)
  refine List.forall₂_iff_get.mpr ⟨h.length_eq.symm, ?_⟩
  intro i h₁ h₂
  have := hget i (by rwa [List.length_map]) (by rwa [List.length_map])
  simp only [List.get_eq_getElem, List.getElem_map] at this
  rw [List.get_eq_getElem, List.get_eq_getElem, Slot.Admits, this]
  exact Interval.subsetOf_refl _

theorem getLocal (h : Alike s s') (i : Nat) :
    (s.locals.getD i .top).iv = (s'.locals.getD i .top).iv := by
  have hget := congrArg (·[i]?) h.locals
  simp only [List.getElem?_map] at hget
  rw [List.getD_eq_getElem?_getD, List.getD_eq_getElem?_getD]
  cases hs : s.locals[i]? with
  | none =>
    rw [hs, Option.map_none] at hget
    rw [Option.map_eq_none_iff.mp hget.symm]
  | some x =>
    rw [hs, Option.map_some] at hget
    obtain ⟨y, hy, hxy⟩ := Option.map_eq_some_iff.mp hget.symm
    rw [hy]
    exact hxy.symm

theorem covers {m : Machine} (h : Alike s s') (hs : Covers s m) : Covers s' m := by
  have hlen := congrArg List.length h.locals
  rw [List.length_map, List.length_map] at hlen
  refine ⟨?_, ?_, ?_⟩
  · obtain ⟨hl, hsub⟩ := List.forall₂_iff_get.mp h.below
    obtain ⟨hml, hdesc⟩ := List.forall₂_iff_get.mp hs.stack
    refine List.forall₂_iff_get.mpr ⟨hl.trans hml, ?_⟩
    intro i h₁ h₂
    exact Interval.contains_of_subsetOf (hsub i h₁ (hl ▸ h₁)) (hdesc i (hl ▸ h₁) h₂)
  · rw [← hlen]
    exact hs.room
  · intro i
    unfold Slot.Describes
    rw [← h.getLocal i]
    exact hs.locals i

theorem push (h : Alike s s') {x y : Slot} (hxy : x.iv = y.iv) :
    Alike (s.push x) (s'.push y) := by
  have hlen := h.length_eq
  unfold State.push
  rw [hlen]
  split
  · exact ⟨by simp only [List.map_cons, List.map_drop, h.stack, hxy], h.locals⟩
  · exact ⟨by simp only [List.map_cons, h.stack, hxy], h.locals⟩

theorem popVal (h : Alike s s') :
    s.popVal.1.iv = s'.popVal.1.iv ∧ Alike s.popVal.2 s'.popVal.2 := by
  have hst := h.stack
  unfold State.popVal
  cases hs : s.stack with
  | nil =>
    rw [hs] at hst
    rw [List.map_eq_nil_iff.mp hst.symm]
    exact ⟨rfl, h⟩
  | cons x xs =>
    cases hs' : s'.stack with
    | nil =>
      rw [hs, hs'] at hst
      cases hst
    | cons y ys =>
      rw [hs, hs', List.map_cons, List.map_cons, List.cons.injEq] at hst
      exact ⟨hst.1, ⟨hst.2, h.locals⟩⟩

theorem popVals (h : Alike s s') (n : Nat) : Alike (s.popVals n).2 (s'.popVals n).2 := by
  induction n generalizing s s' with
  | zero => exact h
  | succ n ih => exact ih h.popVal.2

theorem pushVals (h : Alike s s') (slots : List Slot) :
    Alike (s.pushVals slots) (s'.pushVals slots) := by
  induction slots generalizing s s' with
  | nil => exact h
  | cons x xs ih => exact ih (h.push rfl)

theorem setLocal (h : Alike s s') {x y : Slot} (hxy : x.iv = y.iv) (i : Nat) :
    Alike { s with locals := s.locals.set i x } { s' with locals := s'.locals.set i y } :=
  ⟨h.stack, by simp only [List.map_set, h.locals, hxy]⟩

theorem binop (h : Alike s s') (f : Interval → Interval → Interval) :
    Alike (s.binop f) (s'.binop f) := by
  obtain ⟨hb, h₁⟩ := h.popVal
  obtain ⟨ha, h₂⟩ := h₁.popVal
  exact h₂.push (congrArg₂ f ha hb)

theorem pop2 (h : Alike s s') : Alike s.pop2Val.2.2 s'.pop2Val.2.2 := h.popVal.2.popVal.2

variable {M : Type} [MemModel M] [BlindMem M]

theorem step (h : Alike s s') (kind : OpKind) (sr : SubtypeRange) (wordBits : Nat) (mem mem' : M) :
    Alike (s.step kind sr wordBits mem).1 (s'.step kind sr wordBits mem').1 := by
  obtain ⟨hv, hpop⟩ := h.popVal
  cases kind with
  | constI64 v => exact h.push rfl
  | constBool b => exact h.push rfl
  | constStr span => exact h.push rfl
  | addrOf place isMut base => exact h.push rfl
  | mmioPlace place aperture offset => exact h.push rfl
  | scopedEnter ty len => exact h.push rfl
  | taskSpawn name taskTy => exact h.push rfl
  | ptrAddConst ty offset => exact hpop.push rfl
  | ptrAddIndex ty scale => exact h.pop2.push rfl
  | dup ty => exact (hpop.push hv).push hv
  | drop ty => exact hpop
  | swap a b =>
    obtain ⟨ha, hpop₂⟩ := hpop.popVal
    exact (hpop₂.push hv).push ha
  | addI64 => exact h.binop _
  | subI64 => exact h.binop _
  | mulI64 => exact h.binop _
  | cmp out k => exact h.binop fun a b => boolIv (triCmp a b k)
  | andBool => exact h.binop fun a b => boolIv (triAnd (triFromBoolIv a) (triFromBoolIv b))
  | orBool => exact h.binop fun a b => boolIv (triOr (triFromBoolIv a) (triFromBoolIv b))
  | notBool => exact hpop.push (congrArg (fun v => boolIv (triNot (triFromBoolIv v))) hv)
  | interruptDisable => exact h
  | interruptEnable => exact h
  | localSet slot ty => exact hpop.setLocal hv slot
  | localGet slot ty => exact h.push (h.getLocal slot)
  | cast src tgt =>
    refine hpop.push ?_
    cases sr tgt with
    | none => exact hv
    | some range => exact congrArg (fun v => Interval.castNarrow v range.1 range.2) hv
  | bitcast src tgt => exact hpop.push hv
  | call name sig performs requires bound => exact (h.popVals sig.inLen).pushVals _
  | load ty =>
    exact hpop.push ((BlindMem.load_top _ _ _).trans (BlindMem.load_top _ _ _).symm)
  | store ty => exact h.pop2
  | mmioVolLoad ty place rk am bar =>
    exact hpop.push ((BlindMem.read_top _ _ _).trans (BlindMem.read_top _ _ _).symm)
  | mmioVolLoadField regTy fieldTy place mask shift rk am bar =>
    exact hpop.push ((BlindMem.read_top _ _ _).trans (BlindMem.read_top _ _ _).symm)
  | mmioVolStore ty place wk rk am bar => exact h.pop2
  | mmioVolStoreField regTy fieldTy place mask shift wk rk am bar => exact h.pop2
  | trapIfFalse code => exact hpop
  | br target => exact h
  | brIf thenTgt elseTgt => exact hpop
  | ret => exact h

theorem steps (h : Alike s s') (ops : List Op) (sr : SubtypeRange) (wordBits : Nat)
    (mem mem' : M) : Alike (s.steps ops sr wordBits mem).1 (s'.steps ops sr wordBits mem').1 := by
  induction ops generalizing s s' mem mem' with
  | nil => exact h
  | cons op ops ih => exact ih (h.step op.kind sr wordBits mem mem') _ _

end Alike

/-! ## What an arrival leaves -/

def State.claims (s : State) : Nat := s.stack.countP fun x => x.iv ≠ .top

theorem Alike.claims_eq {s s' : State} (h : Alike s s') : s.claims = s'.claims := by
  have hcount : ∀ t : State, t.claims = (t.stack.map Slot.iv).countP (· ≠ .top) := by
    intro t
    rw [List.countP_map]
    rfl
  rw [hcount, hcount, h.stack]

theorem widenSlot_iv (x y : Slot) :
    (widenSlot x y).iv = if y.iv.subsetOf x.iv then x.iv else .top := rfl

theorem admits_widen_left {x c : Slot} (y : Slot) (h : x.Admits c) :
    (widenSlot x y).Admits c := by
  unfold Slot.Admits
  rw [widenSlot_iv]
  split
  · exact h
  · exact Interval.subsetOf_top _

theorem admits_widen_right (x : Slot) {y c : Slot} (h : y.Admits c) :
    (widenSlot x y).Admits c := by
  unfold Slot.Admits
  rw [widenSlot_iv]
  split
  · rename_i hsub
    exact Interval.subsetOf_trans h hsub
  · exact Interval.subsetOf_top _

theorem zipWith_widen_eq {a b : List Slot}
    (h : List.Forall₂ Slot.Admits a b) :
    (List.zipWith widenSlot a b).map Slot.iv = a.map Slot.iv := by
  induction h with
  | nil => rfl
  | cons hxy _ ih =>
    rw [List.zipWith_cons_cons, List.map_cons, List.map_cons, ih, widenSlot_iv]
    exact congrArg (· :: _) (if_pos hxy)

theorem zipWith_widen_claims {a b : List Slot} (hlen : a.length = b.length) :
    (List.zipWith widenSlot a b).map Slot.iv = a.map Slot.iv ∨
      (List.zipWith widenSlot a b).countP (fun x => x.iv ≠ .top) <
        a.countP fun x => x.iv ≠ .top := by
  induction a generalizing b with
  | nil => exact .inl rfl
  | cons x a ih =>
    cases b with
    | nil => cases hlen
    | cons y b =>
      have htail := ih (Nat.succ.inj hlen)
      have hhead : (widenSlot x y).iv = x.iv ∨ ((widenSlot x y).iv = .top ∧ x.iv ≠ .top) := by
        rw [widenSlot_iv]
        by_cases hsub : y.iv.subsetOf x.iv = true
        · rw [if_pos hsub]
          exact .inl rfl
        · rw [if_neg hsub]
          by_cases hx : x.iv = .top
          · exact .inl hx.symm
          · exact .inr ⟨rfl, hx⟩
      have hle : (List.zipWith widenSlot a b).countP (fun x => x.iv ≠ .top) ≤
          a.countP fun x => x.iv ≠ .top := by
        rcases htail with heq | hlt
        · have hc := congrArg (List.countP (· ≠ .top)) heq
          rw [List.countP_map, List.countP_map] at hc
          exact Nat.le_of_eq hc
        · omega
      rw [List.zipWith_cons_cons, List.countP_cons, List.countP_cons, List.map_cons, List.map_cons]
      rcases hhead with hx | ⟨hw, hx⟩
      · rcases htail with heq | hlt
        · exact .inl (by rw [hx, heq])
        · rw [hx]
          exact .inr (by omega)
      · rw [if_neg (show ¬ decide ((widenSlot x y).iv ≠ .top) = true by simp [hw]),
          if_pos (decide_eq_true hx)]
        exact .inr (by omega)

theorem openLocals_zipPad {f : Slot → Slot → Slot} (hf : ∀ x y, x.iv = .top → (f x y).iv = .top)
    {a b : State} (ha : OpenLocals a) (hb : b.locals.length = 64) (stack : List Slot) :
    OpenLocals ⟨stack, zipPad f .top a.locals b.locals⟩ := by
  have hlen : (zipPad f .top a.locals b.locals).length = 64 := by
    rw [zipPad_length, ha.length, hb, Nat.max_self]
  refine .of_getD hlen ?_
  intro i
  by_cases hi : i < max a.locals.length b.locals.length
  · rw [zipPad_getD hi]
    exact hf _ _ (ha.getD i)
  · rw [List.getD_eq_default _ _ (by rw [zipPad_length]; omega)]
    rfl

section Arrival

variable {a b : State} {n : Nat}

theorem widenState_open (ha : OpenLocals a) (hb : b.locals.length = 64) :
    OpenLocals (widenState a b n) := by
  refine openLocals_zipPad ?_ ha hb _
  intro x y hx
  rw [widenSlot_iv, hx, if_pos (Interval.subsetOf_top _)]

theorem mergeFirstVisit_open (ha : OpenLocals a) (hb : b.locals.length = 64) :
    OpenLocals (mergeFirstVisit a b) := by
  refine openLocals_zipPad ?_ ha hb _
  intro x y hx
  show x.iv.join y.iv = .top
  rw [hx, Interval.join_top_left]

theorem below_widenState_left (hlen : a.stack.length = b.stack.length) (hn : a.stack.length ≤ n) :
    Below a (widenState a b n) := by
  unfold Below widenState
  rw [zipBottom_eq hlen hn]
  exact forall₂_zipWith_left (fun x y c => admits_widen_left y) hlen (Below.refl a)

theorem below_widenState_right (hlen : a.stack.length = b.stack.length) (hn : a.stack.length ≤ n) :
    Below b (widenState a b n) := by
  unfold Below widenState
  rw [zipBottom_eq hlen hn]
  exact forall₂_zipWith_right (fun x y c => admits_widen_right x) hlen (Below.refl b)

theorem widenState_locals_alike (ha : OpenLocals a) (hb : b.locals.length = 64) :
    a.locals.map Slot.iv = (widenState a b n).locals.map Slot.iv :=
  Eq.trans ha (widenState_open ha hb).symm

theorem widenState_alike (hba : Below b a) (hn : a.stack.length ≤ n) (ha : OpenLocals a)
    (hb : b.locals.length = 64) : Alike a (widenState a b n) := by
  refine ⟨?_, widenState_locals_alike ha hb⟩
  unfold widenState
  rw [zipBottom_eq hba.length_eq hn]
  exact (zipWith_widen_eq hba).symm

theorem widenState_claims (hlen : a.stack.length = b.stack.length) (hn : a.stack.length ≤ n)
    (ha : OpenLocals a) (hb : b.locals.length = 64) :
    Alike a (widenState a b n) ∨ (widenState a b n).claims < a.claims := by
  have hstack : (widenState a b n).stack = List.zipWith widenSlot a.stack b.stack :=
    zipBottom_eq hlen hn
  rcases zipWith_widen_claims hlen with heq | hlt
  · exact .inl ⟨by rw [hstack, heq], widenState_locals_alike ha hb⟩
  · unfold State.claims
    rw [hstack]
    exact .inr hlt

theorem below_mergeFirstVisit_left (hlen : b.stack.length ≤ a.stack.length) :
    Below a (mergeFirstVisit a b) := by
  unfold Below mergeFirstVisit
  rw [← List.forall₂_reverse_iff, List.reverse_reverse]
  refine forall₂_zipPad_left (R := Slot.Admits) ?_ (by simpa using hlen) ?_
  · intro x y c h
    exact Interval.subsetOf_trans h (Interval.subsetOf_join_left _ _)
  · exact List.forall₂_reverse_iff.mpr (Below.refl a)

theorem below_mergeFirstVisit_right (hlen : a.stack.length ≤ b.stack.length) :
    Below b (mergeFirstVisit a b) := by
  unfold Below mergeFirstVisit
  rw [← List.forall₂_reverse_iff, List.reverse_reverse]
  refine forall₂_zipPad_right (R := Slot.Admits) ?_ (by simpa using hlen) ?_
  · intro x y c h
    exact Interval.subsetOf_trans h (Interval.subsetOf_join_right _ _)
  · exact List.forall₂_reverse_iff.mpr (Below.refl b)

end Arrival

end Tyu

import Tyu.Ir.Verify

/-! # The algebra of stack bounds -/

namespace Tyu

open Lib

structure StackBound.Valid (b : StackBound) : Prop where
  net : -(2 ^ 15) ≤ b.net ∧ b.net < 2 ^ 15
  high : ∀ n, b.high = .slots n → n < 2 ^ 32

def High.depth : High → WithTop Nat
  | .slots n => .some n
  | .top => ⊤

def StackBound.use (b : StackBound) : Use := ⟨b.net, b.high.depth⟩

def depthChanges (ops : List OpKind) : List Int := ops.flatMap fun k => [-(k.pops : Int), k.pushes]

def StackBound.Describes (b : StackBound) (ops : List OpKind) : Prop :=
  b.use.Bounds (depthChanges ops)

/-- What composing these two bounds is to say: the net is the sum, the code of one and then of
the other is described, and only an unbounded part makes the whole read as unbounded. -/
structure StackBound.Sound (a b : StackBound) : Prop where
  net : (a.compose b).net = a.net + b.net
  code : ∀ xs ys, a.Describes xs → b.Describes ys → (a.compose b).Describes (xs ++ ys)
  marked : (a.compose b).wireU32 = 0xFFFFFFFF → a.high = .top ∨ b.high = .top

/-- The laws of three bounds, and what composing them either way is to say. -/
structure StackBound.Lawful (a b c : StackBound) : Prop where
  assoc : (a.compose b).compose c = a.compose (b.compose c)
  joinComm : a.net = b.net → a.branchMax b = b.branchMax a
  joinAssoc : (a.branchMax b).branchMax c = a.branchMax (b.branchMax c)
  joinSelf : a.branchMax a = a
  branch : a.net = b.net → ∀ xs, a.Describes xs ∨ b.Describes xs → (a.branchMax b).Describes xs
  first : Sound a b
  second : Sound b c
  left : Sound (a.compose b) c
  right : Sound a (b.compose c)

/-- The second use fits behind the first one in the machine types: the net is an `i16`, a
finite peak lies below the greatest `u32`, and behind the lowest net no peak comes to light. -/
structure Composable (u v : Use) : Prop where
  net : -(2 ^ 15) ≤ u.net + v.net ∧ u.net + v.net < 2 ^ 15
  peak : ∀ n : Nat, (u.seq v).peak = .some n → n < 2 ^ 32 - 1
  lowest : u.net = -(2 ^ 15) → ∀ x h : Nat, u.peak = .some x → v.peak = .some h → h ≤ 2 ^ 15 + x

theorem negU32_of_lt {n : Int} (hlo : -(2 ^ 15) < n) (hhi : n < 0) : negU32 n = (-n).toNat := by
  have hmod : (-n).bmod (2 ^ 16) = -n := Int.bmod_eq_of_le (by omega) (by omega)
  rw [negU32, hmod]
  omega

theorem negU32_lowest : negU32 (-(2 ^ 15)) = 2 ^ 32 - 2 ^ 15 := by decide

theorem max_slots (x y : Nat) : High.max (.slots x) (.slots y) = .slots (max x y) := rfl

namespace StackBound

variable {a b c : StackBound} {x h : Nat}

/-! ## Composition in machine types -/

theorem net_compose (hlo : -(2 ^ 15) ≤ a.net + b.net) (hhi : a.net + b.net < 2 ^ 15) :
    (a.compose b).net = a.net + b.net :=
  Int.bmod_eq_of_le (by omega) (by omega)

theorem net_compose_range (a b : StackBound) :
    -(2 ^ 15) ≤ (a.compose b).net ∧ (a.compose b).net < 2 ^ 15 := by
  have hlo := Int.le_bmod (x := a.net + b.net) (m := 2 ^ 16) (by decide)
  have hhi := Int.bmod_lt (x := a.net + b.net) (m := 2 ^ 16) (by decide)
  show -(2 ^ 15) ≤ (a.net + b.net).bmod (2 ^ 16) ∧ (a.net + b.net).bmod (2 ^ 16) < 2 ^ 15
  omega

theorem high_compose (ha : a.high = .slots x) (hb : b.high = .slots h) (hx : x < 2 ^ 32)
    (hh : h < 2 ^ 32) (hnet : -(2 ^ 15) ≤ a.net)
    (hlowest : a.net = -(2 ^ 15) → h ≤ 2 ^ 15 + x) :
    (a.compose b).high = if max x (a.net + h).toNat < 2 ^ 32 then .slots (max x (a.net + h).toNat)
      else .top := by
  show High.max a.high (shiftHigh a.net b.high) = _
  rw [ha, hb, shiftHigh]
  by_cases hneg : a.net < 0
  · rw [if_pos hneg]
    have hmax : High.max (.slots x)
        (if h ≤ negU32 a.net then .slots 0 else .slots (h - negU32 a.net)) =
        .slots (max x (h - negU32 a.net)) := by
      split
      · rename_i hle
        rw [max_slots, Nat.sub_eq_zero_of_le hle]
      · rw [max_slots]
    rw [hmax]
    rcases Int.lt_or_eq_of_le hnet with hlt | heq
    · rw [negU32_of_lt hlt hneg, if_pos (by omega)]
      refine congrArg High.slots ?_
      omega
    · have hle := hlowest heq.symm
      rw [← heq, negU32_lowest, if_pos (by omega)]
      refine congrArg High.slots ?_
      omega
  · rw [if_neg hneg, checkedAddU32]
    have habs : a.net.natAbs = a.net.toNat := by omega
    rw [habs]
    by_cases hsum : h + a.net.toNat < 2 ^ 32
    · rw [if_pos hsum, if_pos (by omega)]
      dsimp only
      rw [max_slots]
      refine congrArg High.slots ?_
      omega
    · rw [if_neg hsum, if_neg (by omega)]
      rfl

theorem compose_valid (ha : a.Valid) (hb : b.Valid) : (a.compose b).Valid := by
  refine ⟨net_compose_range a b, fun n hn => ?_⟩
  have hhigh : High.max a.high (shiftHigh a.net b.high) = .slots n := hn
  cases hx : a.high with
  | top =>
    rw [hx] at hhigh
    cases hhigh
  | slots x =>
    cases hh : b.high with
    | top =>
      rw [hx, hh] at hhigh
      cases hhigh
    | slots h =>
      have hxlt := ha.high x hx
      have hhlt := hb.high h hh
      rw [hx, hh, shiftHigh] at hhigh
      split at hhigh
      · split at hhigh <;> rw [max_slots, High.slots.injEq] at hhigh <;> omega
      · unfold checkedAddU32 at hhigh
        split at hhigh
        · rename_i v hv
          split at hv
          · rw [max_slots, High.slots.injEq] at hhigh
            rw [Option.some.injEq] at hv
            omega
          · cases hv
        · cases hhigh

@[simp] theorem use_net (b : StackBound) : b.use.net = b.net := rfl

theorem use_peak_eq_coe {n : Nat} : b.use.peak = .some n ↔ b.high = .slots n := by
  show b.high.depth = _ ↔ _
  cases b.high with
  | slots m => simp [High.depth]
  | top => simp [High.depth]

theorem use_injective (h : a.use = b.use) : a = b := by
  obtain ⟨n, x⟩ := a
  obtain ⟨m, y⟩ := b
  have hnet : n = m := congrArg Use.net h
  have hpeak : x.depth = y.depth := congrArg Use.peak h
  cases x <;> cases y <;> simp_all [High.depth]

/-- **Composition is exact** where it fits the machine types. -/
theorem use_compose (ha : a.Valid) (hb : b.Valid) (h : Composable a.use b.use) :
    (a.compose b).use = a.use.seq b.use := by
  refine Use.ext (net_compose h.net.1 h.net.2) ?_
  show (a.compose b).high.depth = max a.high.depth (Use.shift a.net b.high.depth)
  cases hx : a.high with
  | top =>
    have htop : (a.compose b).high = .top := by
      show High.max a.high (shiftHigh a.net b.high) = _
      rw [hx]
      rfl
    rw [htop]
    simp [High.depth]
  | slots x =>
    cases hh : b.high with
    | top =>
      have htop : (a.compose b).high = .top := by
        show High.max a.high (shiftHigh a.net b.high) = _
        rw [hx, hh]
        rfl
      rw [htop]
      simp [High.depth]
    | slots y =>
      have hpeak : (a.use.seq b.use).peak = .some (max x (a.net + y).toNat) := by
        show max a.high.depth (Use.shift a.net b.high.depth) = _
        rw [hx, hh, WithTop.coe_max]
        rfl
      have hlt := h.peak _ hpeak
      have hhigh := high_compose hx hh (ha.high x hx) (hb.high y hh) ha.net.1
        (fun hnet => h.lowest hnet x y (use_peak_eq_coe.mpr hx) (use_peak_eq_coe.mpr hh))
      rw [hhigh, if_pos (by omega)]
      show WithTop.some (max x (a.net + y).toNat) = _
      rw [WithTop.coe_max]
      rfl

theorem depthChanges_append (xs ys : List OpKind) :
    depthChanges (xs ++ ys) = depthChanges xs ++ depthChanges ys := List.flatMap_append

def climb (x k : Nat) : List OpKind := List.replicate x (.constI64 0) ++ List.replicate k (.drop TY_I64)

theorem changes_drops (k : Nat) : (depthChanges (List.replicate k (.drop TY_I64))).sum = -(k : Int) ∧
    peak (depthChanges (List.replicate k (.drop TY_I64))) = 0 := by
  induction k with
  | zero => exact ⟨rfl, rfl⟩
  | succ k ih =>
    have hcons : depthChanges (List.replicate (k + 1) (.drop TY_I64)) =
        -1 :: 0 :: depthChanges (List.replicate k (.drop TY_I64)) := rfl
    rw [hcons, List.sum_cons, List.sum_cons, ih.1, peak, peak, ih.2]
    omega

theorem changes_climb (x k : Nat) : (depthChanges (climb x k)).sum = x - (k : Int) ∧
    peak (depthChanges (climb x k)) = x := by
  induction x with
  | zero =>
    have hdrops := changes_drops k
    rw [climb, List.replicate_zero, List.nil_append]
    omega
  | succ x ih =>
    have hcons : depthChanges (climb (x + 1) k) = 0 :: 1 :: depthChanges (climb x k) := rfl
    rw [hcons, List.sum_cons, List.sum_cons, ih.1, peak, peak, ih.2]
    omega

theorem describes_climb {x : Nat} (hx : b.high = .slots x) (hnet : b.net ≤ x) :
    b.Describes (climb x (x - b.net).toNat) := by
  have hclimb := changes_climb x (x - b.net).toNat
  refine ⟨?_, ?_⟩
  · rw [hclimb.1, use_net]
    omega
  · rw [hclimb.2, use_peak_eq_coe.mpr hx]

theorem wireU32_of_slots {n : Nat} (h : b.high = .slots n) : b.wireU32 = n := by
  rw [wireU32, h]

theorem sound_of_composable (ha : a.Valid) (hb : b.Valid) (h : Composable a.use b.use) :
    Sound a b := by
  have huse := use_compose ha hb h
  refine ⟨net_compose h.net.1 h.net.2, fun xs ys hxs hys => ?_, fun hwire => ?_⟩
  · rw [Describes, huse, depthChanges_append]
    exact Use.Bounds.seq hxs hys
  · cases hx : a.high with
    | top => exact .inl rfl
    | slots x =>
      cases hy : b.high with
      | top => exact .inr rfl
      | slots y =>
        have hpeak : (a.use.seq b.use).peak = .some (max x (a.net + y).toNat) := by
          show max a.high.depth (Use.shift a.net b.high.depth) = _
          rw [hx, hy, WithTop.coe_max]
          rfl
        have hlt := h.peak _ hpeak
        rw [← huse] at hpeak
        rw [wireU32_of_slots (use_peak_eq_coe.mp hpeak)] at hwire
        omega

theorem Sound.lowest (hb : b.Valid) (h : Sound a b) {x y : Nat}
    (hnet : a.net = -(2 ^ 15)) (hx : a.high = .slots x) (hy : b.high = .slots y) : y ≤ 2 ^ 15 + x := by
  by_contra hlt
  have hrange := net_compose_range a b
  rw [h.net] at hrange
  have hcode := (h.code _ _ (describes_climb hx (by omega)) (describes_climb hy (by
    have := hb.net
    omega))).2
  rw [depthChanges_append, peak_append, (changes_climb _ _).2, (changes_climb _ _).2,
    (changes_climb _ _).1] at hcode
  have hhigh : (a.compose b).high = .slots (max x (y - (2 ^ 32 - 2 ^ 15))) := by
    show High.max a.high (shiftHigh a.net b.high) = _
    rw [hx, hy, hnet, shiftHigh, if_pos (by omega), negU32_lowest]
    split
    · rename_i hle
      rw [max_slots, Nat.sub_eq_zero_of_le hle]
    · rw [max_slots]
  rw [use_peak_eq_coe.mpr hhigh, WithTop.coe_le_coe] at hcode
  have hylt := hb.high y hy
  omega

theorem Sound.peak (ha : a.Valid) (hb : b.Valid) (h : Sound a b) {n : Nat}
    (hn : (a.use.seq b.use).peak = .some n) : n < 2 ^ 32 - 1 := by
  have hn : max a.high.depth (Use.shift a.net b.high.depth) = .some n := hn
  cases hx : a.high with
  | top =>
    rw [hx] at hn
    simp [High.depth] at hn
  | slots x =>
    cases hy : b.high with
    | top =>
      rw [hx, hy] at hn
      simp [High.depth] at hn
    | slots y =>
      have hmax : max x (a.net + y).toNat = n := by
        rw [hx, hy] at hn
        simpa only [High.depth, Use.shift_coe, ← WithTop.coe_max, WithTop.coe_inj] using hn
      have hhigh := high_compose hx hy (ha.high x hx) (hb.high y hy) ha.net.1
        fun hnet => h.lowest hb hnet hx hy
      rw [hmax] at hhigh
      have hmarked : (a.compose b).wireU32 ≠ 0xFFFFFFFF := by
        intro hwire
        rcases h.marked hwire with htop | htop
        · rw [hx] at htop
          cases htop
        · rw [hy] at htop
          cases htop
      by_cases hlt : n < 2 ^ 32
      · rw [if_pos hlt] at hhigh
        rw [wireU32_of_slots hhigh] at hmarked
        omega
      · rw [if_neg hlt] at hhigh
        rw [wireU32, hhigh] at hmarked
        exact absurd rfl hmarked

/-- **Composition says what it is to say exactly where it fits the machine types.** -/
theorem sound_iff_composable (ha : a.Valid) (hb : b.Valid) :
    Sound a b ↔ Composable a.use b.use := by
  refine ⟨fun h => ⟨?_, fun n hn => h.peak ha hb hn, fun hnet x y hx hy => ?_⟩,
    sound_of_composable ha hb⟩
  · have hrange := net_compose_range a b
    rwa [h.net] at hrange
  · exact h.lowest hb hnet (use_peak_eq_coe.mp hx) (use_peak_eq_coe.mp hy)

/-! ## The laws -/

theorem use_branchMax (a b : StackBound) : (a.branchMax b).use = a.use.alt b.use := by
  refine Use.ext rfl ?_
  show (High.max a.high b.high).depth = max a.high.depth b.high.depth
  cases a.high with
  | top => simp [High.max, High.depth]
  | slots x =>
    cases b.high with
    | top => simp [High.max, High.depth]
    | slots y =>
      rw [max_slots]
      exact WithTop.coe_max x y

theorem branchMax_comm (h : a.net = b.net) : a.branchMax b = b.branchMax a := by
  apply use_injective
  rw [use_branchMax, use_branchMax, Use.alt_comm h]

theorem branchMax_assoc (a b c : StackBound) :
    (a.branchMax b).branchMax c = a.branchMax (b.branchMax c) := by
  apply use_injective
  rw [use_branchMax, use_branchMax, use_branchMax, use_branchMax, Use.alt_assoc]

theorem branchMax_self (a : StackBound) : a.branchMax a = a := by
  apply use_injective
  rw [use_branchMax, Use.alt_self]

theorem branchMax_describes (h : a.net = b.net) {xs : List OpKind}
    (hxs : a.Describes xs ∨ b.Describes xs) : (a.branchMax b).Describes xs := by
  rw [Describes, use_branchMax]
  rcases hxs with hxs | hxs
  · exact Use.Bounds.alt_left hxs b.use
  · exact Use.Bounds.alt_right hxs h

/-- **The algebra of stack bounds.**  Three bounds obey the laws, and composing them either way
says what it is to say, exactly when each composition fits the machine types. -/
theorem lawful_iff (ha : a.Valid) (hb : b.Valid) (hc : c.Valid) :
    Lawful a b c ↔ Composable a.use b.use ∧ Composable b.use c.use ∧
      Composable (a.use.seq b.use) c.use ∧ Composable a.use (b.use.seq c.use) := by
  have hab := compose_valid ha hb
  have hbc := compose_valid hb hc
  constructor
  · intro h
    have h₁ := (sound_iff_composable ha hb).mp h.first
    have h₂ := (sound_iff_composable hb hc).mp h.second
    have h₃ := (sound_iff_composable hab hc).mp h.left
    have h₄ := (sound_iff_composable ha hbc).mp h.right
    rw [use_compose ha hb h₁] at h₃
    rw [use_compose hb hc h₂] at h₄
    exact ⟨h₁, h₂, h₃, h₄⟩
  · rintro ⟨h₁, h₂, h₃, h₄⟩
    rw [← use_compose ha hb h₁] at h₃
    rw [← use_compose hb hc h₂] at h₄
    have hassoc : (a.compose b).compose c = a.compose (b.compose c) := by
      apply use_injective
      rw [use_compose hab hc h₃, use_compose ha hbc h₄, use_compose ha hb h₁,
        use_compose hb hc h₂, Use.seq_assoc]
    exact ⟨hassoc, branchMax_comm, branchMax_assoc a b c, branchMax_self a,
      fun hnet xs hxs => branchMax_describes hnet hxs, sound_of_composable ha hb h₁,
      sound_of_composable hb hc h₂, sound_of_composable hab hc h₃, sound_of_composable ha hbc h₄⟩

/-- Thirty thousand entries stay below a call that goes ten deep. -/
theorem deep_call_lawful :
    Lawful ⟨30000, .slots 30000⟩ ⟨0, .slots 10⟩ ⟨-30000, .slots 0⟩ := by
  have hvalid : ∀ (n : Int) (x : Nat), -(2 ^ 15) ≤ n → n < 2 ^ 15 → x < 2 ^ 32 →
      Valid ⟨n, .slots x⟩ := by
    intro n x hlo hhi hx
    refine ⟨⟨hlo, hhi⟩, fun m hm => ?_⟩
    rw [← High.slots.inj hm]
    exact hx
  have hfits : ∀ (u v : Use) (m : Nat), -(2 ^ 15) < u.net → -(2 ^ 15) ≤ u.net + v.net →
      u.net + v.net < 2 ^ 15 → (u.seq v).peak = .some m → m < 2 ^ 32 - 1 → Composable u v := by
    intro u v m hnet hlo hhi hm hlt
    refine ⟨⟨hlo, hhi⟩, fun k hk => ?_, fun hlow => ?_⟩
    · rw [WithTop.coe_inj.mp (hk.symm.trans hm)]
      exact hlt
    · omega
  refine (lawful_iff (hvalid _ _ (by decide) (by decide) (by decide))
    (hvalid _ _ (by decide) (by decide) (by decide))
    (hvalid _ _ (by decide) (by decide) (by decide))).mpr ⟨?_, ?_, ?_, ?_⟩
  · exact hfits _ _ 30010 (by decide) (by decide) (by decide) rfl (by decide)
  · exact hfits _ _ 10 (by decide) (by decide) (by decide) rfl (by decide)
  · exact hfits _ _ 30010 (by decide) (by decide) (by decide) rfl (by decide)
  · exact hfits _ _ 30010 (by decide) (by decide) (by decide) rfl (by decide)

/-- At the limits: the net wraps, a peak behind the lowest net is lost, and of two ways to
compose the same bounds only one is unbounded. -/
theorem compose_at_the_limits :
    ¬Lawful ⟨32767, .slots 32767⟩ ⟨1, .slots 1⟩ ID ∧
    compose ⟨32767, .slots 32767⟩ ⟨1, .slots 1⟩ = ⟨-32768, .slots 32768⟩ ∧
    compose ⟨-32768, .slots 0⟩ ⟨0, .slots 40000⟩ = ⟨-32768, .slots 0⟩ ∧
    (compose ⟨-1, .slots 0⟩ ⟨1, .slots 1⟩).compose ⟨0, .slots 0xFFFFFFFF⟩ =
      ⟨0, .slots 0xFFFFFFFF⟩ ∧
    compose ⟨-1, .slots 0⟩ (compose ⟨1, .slots 1⟩ ⟨0, .slots 0xFFFFFFFF⟩) = ⟨0, .top⟩ := by
  refine ⟨fun h => ?_, by decide, by decide, by decide, by decide⟩
  have hnet := h.first.net
  revert hnet
  decide

def FitsAll (u : Use) : List StackBound → Prop
  | [] => True
  | b :: bs => Composable u b.use ∧ FitsAll (u.seq b.use) bs

end StackBound

end Tyu

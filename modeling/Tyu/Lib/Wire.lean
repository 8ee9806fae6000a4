import Mathlib.Data.List.Basic
import Mathlib.Algebra.Order.Group.Nat

/-! # Byte strings with fields at offsets -/

namespace Lib.Wire

abbrev Bytes := List UInt8

/-- The `w` bytes of a number, least significant first. -/
def putLE : Nat → Nat → Bytes
  | 0, _ => []
  | w + 1, n => UInt8.ofNat n :: putLE w (n / 256)

def getLE : Bytes → Nat
  | [] => 0
  | b :: bs => b.toNat + 256 * getLE bs

@[simp] theorem length_putLE (w n : Nat) : (putLE w n).length = w := by
  induction w generalizing n with
  | zero => rfl
  | succ w ih => rw [putLE, List.length_cons, ih]

variable {n off i a : Nat} {bs xs ys : Bytes} {ps : List (Nat × Bytes)}

theorem getLE_putLE {w : Nat} (h : n < 256 ^ w) : getLE (putLE w n) = n := by
  induction w generalizing n with
  | zero =>
    rw [Nat.pow_zero] at h
    show 0 = n
    omega
  | succ w ih =>
    rw [Nat.pow_succ] at h
    rw [putLE, getLE, ih (by omega), UInt8.toNat_ofNat']
    omega

theorem getLE_lt (bs : Bytes) : getLE bs < 256 ^ bs.length := by
  induction bs with
  | nil => simp [getLE]
  | cons b bs ih =>
    have hb := b.toNat_lt
    rw [getLE, List.length_cons, Nat.pow_succ]
    omega

theorem putLE_getLE (bs : Bytes) : putLE bs.length (getLE bs) = bs := by
  induction bs with
  | nil => rfl
  | cons b bs ih =>
    have hb := b.toNat_lt
    rw [List.length_cons, getLE, putLE, show (b.toNat + 256 * getLE bs) / 256 = getLE bs by omega,
      ih]
    congr 1
    rw [← UInt8.toNat_inj, UInt8.toNat_ofNat']
    omega

/-! ## Subranges -/

/-- The bytes from `start` up to `stop`, when these lie in the string. -/
def slice (bs : Bytes) (start stop : Nat) : Option Bytes :=
  if start ≤ stop ∧ stop ≤ bs.length then some ((bs.take stop).drop start) else none

theorem slice_eq_some {start stop : Nat} (h : slice bs start stop = some xs) :
    start ≤ stop ∧ stop ≤ bs.length ∧ xs = (bs.take stop).drop start := by
  unfold slice at h
  split at h
  · rename_i hin
    exact ⟨hin.1, hin.2, (Option.some.inj h).symm⟩
  · cases h

theorem isSome_slice {start stop : Nat} :
    (slice bs start stop).isSome = true ↔ start ≤ stop ∧ stop ≤ bs.length := by
  unfold slice
  split <;> simp_all

theorem length_slice {start stop : Nat} (h : slice bs start stop = some xs) :
    xs.length = stop - start := by
  obtain ⟨-, hstop, rfl⟩ := slice_eq_some h
  rw [List.length_drop, List.length_take, Nat.min_eq_left hstop]

theorem slice_append_right {start stop : Nat} (h : xs.length ≤ start) (hle : start ≤ stop) :
    slice (xs ++ ys) start stop = slice ys (start - xs.length) (stop - xs.length) := by
  unfold slice
  by_cases hin : start ≤ stop ∧ stop ≤ (xs ++ ys).length
  · have hle := hin.2
    rw [List.length_append] at hle
    rw [if_pos hin, if_pos (by omega), List.take_append, List.drop_append,
      List.take_of_length_le (by omega), List.drop_of_length_le h]
    rfl
  · rw [if_neg hin, if_neg]
    intro hin'
    apply hin
    rw [List.length_append]
    omega

theorem slice_append_left (xs ys : Bytes) : slice (xs ++ ys) 0 xs.length = some xs := by
  unfold slice
  rw [if_pos ⟨Nat.zero_le _, by rw [List.length_append]; omega⟩, List.take_left, List.drop_zero]

theorem slice_middle (xs ys zs : Bytes) :
    slice (xs ++ (ys ++ zs)) xs.length (xs.length + ys.length) = some ys := by
  rw [slice_append_right (Nat.le_refl _) (by omega), Nat.sub_self, Nat.add_sub_cancel_left,
    slice_append_left]

theorem slice_within {k : Nat} (h : slice bs off (off + n) = some xs) (hik : i + k ≤ n) :
    slice bs (off + i) (off + (i + k)) = slice xs i (i + k) := by
  obtain ⟨-, hstop, rfl⟩ := slice_eq_some h
  have hlen : ((bs.take (off + n)).drop off).length = n := by
    rw [List.length_drop, List.length_take, Nat.min_eq_left hstop]
    omega
  unfold slice
  rw [if_pos ⟨by omega, by omega⟩, if_pos ⟨by omega, by omega⟩]
  congr 1
  apply List.ext_getElem?
  intro j
  rw [List.getElem?_drop, List.getElem?_drop, List.getElem?_take, List.getElem?_take,
    List.getElem?_drop, List.getElem?_take]
  by_cases hj : i + j < i + k
  · rw [if_pos (by omega), if_pos hj, if_pos (by omega), Nat.add_assoc]
  · rw [if_neg (by omega), if_neg hj]

theorem getElem?_slice (h : slice bs off (off + n) = some xs) (hi : i < n) :
    bs[off + i]? = xs[i]? := by
  obtain ⟨-, -, rfl⟩ := slice_eq_some h
  rw [List.getElem?_drop, List.getElem?_take, if_pos (by omega)]

theorem slice_concat {b c : Nat} (h : slice bs a b = some xs) (h' : slice bs b c = some ys) :
    slice bs a c = some (xs ++ ys) := by
  obtain ⟨hab, hb, rfl⟩ := slice_eq_some h
  obtain ⟨hbc, hc, rfl⟩ := slice_eq_some h'
  unfold slice
  rw [if_pos ⟨by omega, hc⟩]
  congr 1
  have htake : bs.take c = bs.take b ++ (bs.take c).drop b := by
    have hparts := List.take_append_drop b (bs.take c)
    rw [List.take_take, Nat.min_eq_left hbc] at hparts
    exact hparts.symm
  have hlen : a ≤ (bs.take b).length := by
    rw [List.length_take]
    omega
  rw [← List.drop_append_of_le_length hlen, ← htake]

theorem slice_split {c : Nat} (h : slice bs a c = some (xs ++ ys)) :
    slice bs a (a + xs.length) = some xs ∧ slice bs (a + xs.length) c = some ys := by
  have hlen := length_slice h
  obtain ⟨hac, hc, -⟩ := slice_eq_some h
  rw [List.length_append] at hlen
  obtain ⟨n, rfl⟩ : ∃ n, c = a + n := ⟨c - a, by omega⟩
  have hleft := slice_within (i := 0) (k := xs.length) h (by omega)
  have hright := slice_within (i := xs.length) (k := ys.length) h (by omega)
  rw [Nat.zero_add, Nat.add_zero, slice_append_left] at hleft
  rw [slice_append_right (Nat.le_refl _) (by omega), Nat.sub_self, Nat.add_sub_cancel_left,
    show a + (xs.length + ys.length) = a + n by omega] at hright
  have hall : slice ys 0 ys.length = some ys := by
    have hleft := slice_append_left ys []
    rw [List.append_nil] at hleft
    exact hleft
  exact ⟨hleft, hright.trans hall⟩

theorem slice_self (h : a ≤ bs.length) : slice bs a a = some [] := by
  unfold slice
  rw [if_pos ⟨Nat.le_refl _, h⟩]
  congr 1
  apply List.drop_of_length_le
  rw [List.length_take]
  omega

theorem slice_one {b : UInt8} (h : bs[i]? = some b) : slice bs i (i + 1) = some [b] := by
  obtain ⟨hi, rfl⟩ := List.getElem?_eq_some_iff.mp h
  unfold slice
  rw [if_pos ⟨by omega, hi⟩, List.drop_take, Nat.add_sub_cancel_left, List.drop_eq_getElem_cons hi]
  rfl

theorem getElem?_of_slice_one {b : UInt8} (h : slice bs i (i + 1) = some [b]) : bs[i]? = some b :=
  getElem?_slice (i := 0) h Nat.one_pos

theorem eq_append_of_slice (h : slice bs 0 n = some xs) : bs = xs ++ bs.drop n := by
  obtain ⟨-, -, rfl⟩ := slice_eq_some h
  rw [List.drop_zero, List.take_append_drop]

/-! ## Fields -/

def u16At (bs : Bytes) (off : Nat) : Option UInt16 :=
  (slice bs off (off + 2)).map fun xs => UInt16.ofNat (getLE xs)

def u32At (bs : Bytes) (off : Nat) : Option UInt32 :=
  (slice bs off (off + 4)).map fun xs => UInt32.ofNat (getLE xs)

def u64At (bs : Bytes) (off : Nat) : Option UInt64 :=
  (slice bs off (off + 8)).map fun xs => UInt64.ofNat (getLE xs)

def put16 (v : UInt16) : Bytes := putLE 2 v.toNat
def put32 (v : UInt32) : Bytes := putLE 4 v.toNat
def put64 (v : UInt64) : Bytes := putLE 8 v.toNat

@[simp] theorem length_put16 (v : UInt16) : (put16 v).length = 2 := length_putLE _ _
@[simp] theorem length_put32 (v : UInt32) : (put32 v).length = 4 := length_putLE _ _
@[simp] theorem length_put64 (v : UInt64) : (put64 v).length = 8 := length_putLE _ _

theorem u16At_skip (h : xs.length ≤ off) : u16At (xs ++ ys) off = u16At ys (off - xs.length) := by
  unfold u16At
  rw [slice_append_right h (by omega), show off + 2 - xs.length = off - xs.length + 2 by omega]

theorem u32At_skip (h : xs.length ≤ off) : u32At (xs ++ ys) off = u32At ys (off - xs.length) := by
  unfold u32At
  rw [slice_append_right h (by omega), show off + 4 - xs.length = off - xs.length + 4 by omega]

theorem u64At_skip (h : xs.length ≤ off) : u64At (xs ++ ys) off = u64At ys (off - xs.length) := by
  unfold u64At
  rw [slice_append_right h (by omega), show off + 8 - xs.length = off - xs.length + 8 by omega]

theorem u16At_put (v : UInt16) (ys : Bytes) : u16At (put16 v ++ ys) 0 = some v := by
  have hslice := slice_append_left (put16 v) ys
  rw [length_put16] at hslice
  unfold u16At
  rw [hslice, Option.map_some, put16, getLE_putLE (by have := v.toNat_lt; omega),
    UInt16.ofNat_toNat]

theorem u32At_put (v : UInt32) (ys : Bytes) : u32At (put32 v ++ ys) 0 = some v := by
  have hslice := slice_append_left (put32 v) ys
  rw [length_put32] at hslice
  unfold u32At
  rw [hslice, Option.map_some, put32, getLE_putLE (by have := v.toNat_lt; omega),
    UInt32.ofNat_toNat]

theorem u64At_put (v : UInt64) (ys : Bytes) : u64At (put64 v ++ ys) 0 = some v := by
  have hslice := slice_append_left (put64 v) ys
  rw [length_put64] at hslice
  unfold u64At
  rw [hslice, Option.map_some, put64, getLE_putLE (by have := v.toNat_lt; omega),
    UInt64.ofNat_toNat]

theorem isSome_u32At : (u32At bs off).isSome = true ↔ off + 4 ≤ bs.length := by
  unfold u32At
  rw [Option.isSome_map, isSome_slice]
  omega

theorem isSome_u64At : (u64At bs off).isSome = true ↔ off + 8 ≤ bs.length := by
  unfold u64At
  rw [Option.isSome_map, isSome_slice]
  omega

theorem u32At_within (h : slice bs off (off + n) = some xs) (hi : i + 4 ≤ n) :
    u32At bs (off + i) = u32At xs i := by
  unfold u32At
  rw [Nat.add_assoc, slice_within h hi]

theorem u64At_within (h : slice bs off (off + n) = some xs) (hi : i + 8 ≤ n) :
    u64At bs (off + i) = u64At xs i := by
  unfold u64At
  rw [Nat.add_assoc, slice_within h hi]

theorem u16At_eq_some {v : UInt16} :
    u16At bs off = some v ↔ slice bs off (off + 2) = some (put16 v) := by
  unfold u16At put16
  rw [Option.map_eq_some_iff]
  constructor
  · rintro ⟨xs, hxs, rfl⟩
    have hlen := length_slice hxs
    have hback := putLE_getLE xs
    have hlt := getLE_lt xs
    rw [show xs.length = 2 by omega] at hback hlt
    rw [hxs, UInt16.toNat_ofNat', Nat.mod_eq_of_lt (by omega), hback]
  · intro h
    refine ⟨_, h, ?_⟩
    rw [getLE_putLE (by have := v.toNat_lt; omega), UInt16.ofNat_toNat]

theorem u64At_eq_some {v : UInt64} :
    u64At bs off = some v ↔ slice bs off (off + 8) = some (put64 v) := by
  unfold u64At put64
  rw [Option.map_eq_some_iff]
  constructor
  · rintro ⟨xs, hxs, rfl⟩
    have hlen := length_slice hxs
    have hback := putLE_getLE xs
    have hlt := getLE_lt xs
    rw [show xs.length = 8 by omega] at hback hlt
    rw [hxs, UInt64.toNat_ofNat', Nat.mod_eq_of_lt (by omega), hback]
  · intro h
    refine ⟨_, h, ?_⟩
    rw [getLE_putLE (by have := v.toNat_lt; omega), UInt64.ofNat_toNat]

/-! ## Patches -/

/-- `xs` in place of the bytes from `off` on. -/
def patch (bs : Bytes) (off : Nat) (xs : Bytes) : Bytes :=
  bs.take off ++ xs ++ bs.drop (off + xs.length)

theorem length_patch (h : off + xs.length ≤ bs.length) : (patch bs off xs).length = bs.length := by
  unfold patch
  simp only [List.length_append, List.length_take, List.length_drop]
  omega

theorem slice_patch (h : off + xs.length ≤ bs.length) :
    slice (patch bs off xs) off (off + xs.length) = some xs := by
  have hlen : (bs.take off).length = off := by rw [List.length_take]; omega
  have hmid := slice_middle (bs.take off) xs (bs.drop (off + xs.length))
  rw [hlen] at hmid
  unfold patch
  rw [List.append_assoc]
  exact hmid

theorem getElem?_patch (h : off + xs.length ≤ bs.length) (hi : i < off ∨ off + xs.length ≤ i) :
    (patch bs off xs)[i]? = bs[i]? := by
  have hlen : (bs.take off).length = off := by rw [List.length_take]; omega
  unfold patch
  rcases hi with hi | hi
  · rw [List.append_assoc, List.getElem?_append_left (by omega), List.getElem?_take_of_lt hi]
  · rw [List.getElem?_append_right (by rw [List.length_append]; omega), List.getElem?_drop,
      List.length_append, hlen]
    congr 1
    omega

theorem patch_patch (h : off + xs.length ≤ bs.length) (hlen : ys.length = xs.length) :
    patch (patch bs off xs) off ys = patch bs off ys := by
  have hoff : (bs.take off).length = off := by rw [List.length_take]; omega
  unfold patch
  rw [List.append_assoc (bs.take off), List.take_left' hoff, hlen, ← List.drop_drop,
    List.drop_left' hoff, List.drop_left]

theorem patch_slice {start stop : Nat} (h : slice bs start stop = some xs) :
    patch bs start xs = bs := by
  have hlen := length_slice h
  obtain ⟨hle, hstop, rfl⟩ := slice_eq_some h
  unfold patch
  rw [hlen, show start + (stop - start) = stop by omega]
  conv_rhs => rw [← List.take_append_drop stop bs, ← List.take_append_drop start (bs.take stop)]
  rw [List.take_take, Nat.min_eq_left hle]

theorem slice_congr {cs : Bytes} {start stop : Nat} (hlen : bs.length = cs.length)
    (h : ∀ i, start ≤ i → i < stop → bs[i]? = cs[i]?) :
    slice bs start stop = slice cs start stop := by
  unfold slice
  rw [hlen]
  split
  · congr 1
    apply List.ext_getElem?
    intro i
    rw [List.getElem?_drop, List.getElem?_drop, List.getElem?_take, List.getElem?_take]
    split
    · exact h _ (by omega) (by omega)
    · rfl
  · rfl

def patchAll (bs : Bytes) (ps : List (Nat × Bytes)) : Bytes :=
  ps.foldl (fun bs p => patch bs p.1 p.2) bs

theorem length_patchAll (h : ∀ p ∈ ps, p.1 + p.2.length ≤ bs.length) :
    (patchAll bs ps).length = bs.length := by
  induction ps generalizing bs with
  | nil => rfl
  | cons p ps ih =>
    have hhead := length_patch (h p (by simp))
    have htail : (patchAll (patch bs p.1 p.2) ps).length = (patch bs p.1 p.2).length := by
      apply ih
      intro q hq
      rw [hhead]
      exact h q (by simp [hq])
    exact htail.trans hhead

theorem getElem?_patchAll (h : ∀ p ∈ ps, p.1 + p.2.length ≤ bs.length)
    (hi : ∀ p ∈ ps, i < p.1 ∨ p.1 + p.2.length ≤ i) : (patchAll bs ps)[i]? = bs[i]? := by
  induction ps generalizing bs with
  | nil => rfl
  | cons p ps ih =>
    have hhead := h p (by simp)
    have htail : (patchAll (patch bs p.1 p.2) ps)[i]? = (patch bs p.1 p.2)[i]? := by
      apply ih
      · intro q hq
        rw [length_patch hhead]
        exact h q (by simp [hq])
      · exact fun q hq => hi q (by simp [hq])
    exact htail.trans (getElem?_patch hhead (hi p (by simp)))

theorem slice_patchAll (h : ∀ p ∈ ps, p.1 + p.2.length ≤ bs.length)
    (hasc : ps.Pairwise fun p q => p.1 + p.2.length ≤ q.1) {p : Nat × Bytes} (hp : p ∈ ps) :
    slice (patchAll bs ps) p.1 (p.1 + p.2.length) = some p.2 := by
  induction ps generalizing bs with
  | nil => cases hp
  | cons q ps ih =>
    rw [List.pairwise_cons] at hasc
    have hhead := h q (by simp)
    have hlater : ∀ r ∈ ps, r.1 + r.2.length ≤ (patch bs q.1 q.2).length := by
      intro r hr
      rw [length_patch hhead]
      exact h r (by simp [hr])
    rcases List.mem_cons.mp hp with rfl | hp
    · rw [← slice_patch hhead]
      apply slice_congr (length_patchAll hlater)
      intro i hi hi'
      apply getElem?_patchAll hlater
      intro r hr
      have hafter := hasc.1 r hr
      omega
    · exact ih hlater hasc.2 hp

end Lib.Wire

import Tyu.Lib.Leb
import Tyu.Backend.Wasm.SpanTable

/-! # The integers of an emitted module -/

namespace Tyu.Wasm

open Lib Wire Leb

/-! ## Reading back -/

theorem toNat_group {k : Nat} (hk : k < 128) : (UInt8.ofNat k).toNat = k :=
  UInt8.toNat_ofNat_of_lt' (by show k < 256; omega)

theorem toNat_continued {k : Nat} (hk : k < 128) : (UInt8.ofNat (k + 128)).toNat = k + 2 ^ 7 :=
  UInt8.toNat_ofNat_of_lt' (by show k + 128 < 256; omega)

theorem readUnsigned_ulebGroups {n N v : Nat} {rest : Bytes} (hn : 0 < n) (hv : v < 128 ^ n)
    (hN : v < 2 ^ N) : readUnsigned N (ulebGroups n v ++ rest) = some (v, rest) := by
  induction n generalizing N v with
  | zero => omega
  | succ n ih =>
    have hlt : v % 128 < 128 := Nat.mod_lt v (by decide)
    unfold ulebGroups
    by_cases hstop : v / 128 = 0
    · have hsmall : v % 128 = v := by omega
      have hbyte := toNat_group hlt
      rw [if_pos hstop]
      rw [hsmall] at hbyte ⊢
      have hlast : readUnsigned N (UInt8.ofNat v :: rest) = some ((UInt8.ofNat v).toNat, rest) :=
        readUnsigned_last (by omega) (by omega)
      rw [hbyte] at hlast
      exact hlast
    · have hwide : 7 < N := by
        by_contra hN
        have := Nat.pow_le_pow_right (n := 2) (by decide) (show N ≤ 7 by omega)
        omega
      have hpow : 2 ^ N = 2 ^ (N - 7) * 2 ^ 7 := by rw [← Nat.pow_add]; congr 1; omega
      have hrest : v / 128 < 128 ^ n := Nat.div_lt_of_lt_mul (by rwa [Nat.mul_comm])
      have hmore : 0 < n := by
        by_contra hn
        rw [show n = 0 by omega] at hrest
        exact hstop (by omega)
      rw [if_neg hstop]
      exact readUnsigned_more hwide (toNat_continued hlt) (ih hmore hrest (by omega))

theorem readSigned_slebGroups {n N : Nat} {v : Int} {rest : Bytes} (hn : 0 < n)
    (hlow : -(128 ^ n) ≤ 2 * v) (hhigh : 2 * v < 128 ^ n) (hN : 0 < N)
    (hmin : -2 ^ (N - 1) ≤ v) (hmax : v < 2 ^ (N - 1)) :
    readSigned N (slebGroups n v ++ rest) = some (v, rest) := by
  induction n generalizing N v with
  | zero => omega
  | succ n ih =>
    have hlt : (v % 128).toNat < 128 := by omega
    unfold slebGroups
    dsimp only
    by_cases hstop : (v / 128 = 0 ∧ (v % 128).toNat < 64) ∨ (v / 128 = -1 ∧ 64 ≤ (v % 128).toNat)
    · have hbyte := toNat_group hlt
      rw [if_pos hstop]
      exact readSigned_last (by omega) (by omega) (by omega) hmin hmax
    · have hwide : 7 < N := by
        by_contra hN
        have hle : (2 : Int) ^ (N - 1) ≤ 2 ^ 6 := by
          exact_mod_cast Nat.pow_le_pow_right (n := 2) (by decide) (show N - 1 ≤ 6 by omega)
        omega
      have hpow : 2 ^ (N - 1) = 2 ^ (N - 7 - 1) * 2 ^ 7 := by rw [← Nat.pow_add]; congr 1; omega
      have hcast : (2 : Int) ^ (N - 1) = 2 ^ (N - 7 - 1) * 2 ^ 7 := by exact_mod_cast hpow
      have hgroups : (128 : Int) ^ (n + 1) = 128 ^ n * 128 := by
        exact_mod_cast Nat.pow_succ (n := 128) (m := n)
      have hmore : 0 < n := by
        by_contra hn
        rw [show n = 0 by omega] at hlow hhigh
        omega
      have hbyte := toNat_continued hlt
      rw [if_neg hstop]
      refine readSigned_more hwide (by omega) (ih hmore ?_ ?_ (by omega) (by omega) (by omega))
      all_goals
        obtain ⟨k, rfl⟩ : ∃ k, n = k + 1 := ⟨n - 1, by omega⟩
        have heven : (128 : Int) ^ (k + 1) = 128 ^ k * 128 := by
          exact_mod_cast Nat.pow_succ (n := 128) (m := k)
        omega

theorem readUnsigned_paddedUleb {N v width : Nat} {rest : Bytes} (hv : v < 2 ^ (7 * (width + 1)))
    (hN : v < 2 ^ N) (hwidth : 7 * width < N) :
    readUnsigned N (paddedUleb v (width + 1) ++ rest) = some (v, rest) := by
  induction width generalizing N v with
  | zero =>
    have hsmall : v % 128 = v := Nat.mod_eq_of_lt hv
    have hbyte := toNat_group (show v < 128 from hv)
    have hlast : readUnsigned N (UInt8.ofNat v :: rest) = some ((UInt8.ofNat v).toNat, rest) :=
      readUnsigned_last (by rwa [hbyte]) (by rwa [hbyte])
    rw [hbyte] at hlast
    unfold paddedUleb
    rw [hsmall]
    exact hlast
  | succ width ih =>
    have hpow : 2 ^ N = 2 ^ (N - 7) * 2 ^ 7 := by rw [← Nat.pow_add]; congr 1; omega
    have hgroups : 2 ^ (7 * (width + 1 + 1)) = 2 ^ (7 * (width + 1)) * 2 ^ 7 := by
      rw [← Nat.pow_add]
      congr 1
    unfold paddedUleb
    exact readUnsigned_more (by omega) (toNat_continued (Nat.mod_lt v (by decide)))
      (ih (by omega) (by omega) (by omega))

theorem patchCalls_outside {b : Backend} {f g : Func} (h : patchCalls b f = .ok g)
    (hinside : ∀ c ∈ f.calls, c.1 + CALL_LEB_WIDTH ≤ f.body.length) :
    g.body.length = f.body.length ∧
      ∀ i, (∀ c ∈ f.calls, i < c.1 ∨ c.1 + CALL_LEB_WIDTH ≤ i) → g.body[i]? = f.body[i]? := by
  unfold patchCalls at h
  obtain ⟨operands, hoperands, hg⟩ := bind_eq_ok.mp h
  cases hg
  have hfits : ∀ p ∈ operands, p.1 + p.2.length ≤ f.body.length := by
    intro p hp
    obtain ⟨c, hc, hoff, hlen⟩ := operands_place hoperands hp
    rw [hoff, hlen]
    exact hinside c hc
  refine ⟨length_patchAll hfits, fun i hi => getElem?_patchAll hfits fun p hp => ?_⟩
  obtain ⟨c, hc, hoff, hlen⟩ := operands_place hoperands hp
  rw [hoff, hlen]
  exact hi c hc

/-- **The integers of the encoder are faithful.**  What it writes for a `u64` or an `i64` is read
back by the rules of the format, up to the byte behind it.  A padded operand of five bytes keeps
every value of 35 bits and has its length whatever the value, so that patching the calls of a
body moves no byte and changes none outside the operands. -/
theorem leb_faithful :
    (∀ (v : UInt64) (rest : Bytes),
      readUnsigned 64 (uleb v.toNat ++ rest) = some (v.toNat, rest)) ∧
    (∀ (v : Int64) (rest : Bytes), readSigned 64 (sleb v.toInt ++ rest) = some (v.toInt, rest)) ∧
    (∀ (N v : Nat) (rest : Bytes), v < 2 ^ 35 → v < 2 ^ N → 28 < N →
      readUnsigned N (paddedUleb v CALL_LEB_WIDTH ++ rest) = some (v, rest)) ∧
    (∀ v width : Nat, (paddedUleb v width).length = width) ∧
    ∀ (b : Backend) (f g : Func), patchCalls b f = .ok g →
      (∀ c ∈ f.calls, c.1 + CALL_LEB_WIDTH ≤ f.body.length) →
      g.body.length = f.body.length ∧
        ∀ i, (∀ c ∈ f.calls, i < c.1 ∨ c.1 + CALL_LEB_WIDTH ≤ i) → g.body[i]? = f.body[i]? := by
  refine ⟨fun v rest => ?_, fun v rest => ?_, fun N v rest hv hN hwide =>
    readUnsigned_paddedUleb hv hN hwide, length_paddedUleb, fun _ _ _ h => patchCalls_outside h⟩
  · have hlt := v.toNat_lt
    exact readUnsigned_ulebGroups (by decide) (by omega) hlt
  · have hlow := v.le_toInt
    have hhigh := v.toInt_lt
    exact readSigned_slebGroups (by decide) (by omega) (by omega) (by decide) hlow hhigh

end Tyu.Wasm

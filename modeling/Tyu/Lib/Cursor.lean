import Tyu.Lib.Wire

/-! # Reading one field after the other -/

namespace Lib.Wire

/-- Behind the offset the string is `rest`. -/
def Behind (bs : Bytes) (off : Nat) (rest : Bytes) : Prop :=
  off ≤ bs.length ∧ bs.drop off = rest

theorem length_table {entries : List Bytes} {k : Nat} (hk : ∀ e ∈ entries, e.length = k) :
    entries.flatten.length = entries.length * k := by
  induction entries with
  | nil => rw [List.flatten_nil, List.length_nil, List.length_nil, Nat.zero_mul]
  | cons e entries ih =>
    rw [List.flatten_cons, List.length_append, hk e List.mem_cons_self,
      ih fun e' he' => hk e' (List.mem_cons_of_mem _ he'), List.length_cons, Nat.succ_mul,
      Nat.add_comm]

namespace Behind

variable {bs pre xs rest : Bytes} {off : Nat}

theorem start (bs : Bytes) : Behind bs 0 bs := ⟨Nat.zero_le _, rfl⟩

theorem append (pre rest : Bytes) : Behind (pre ++ rest) pre.length rest :=
  ⟨by rw [List.length_append]; omega, List.drop_left⟩

theorem length (h : Behind bs off rest) : bs.length = off + rest.length := by
  have hle := h.1
  rw [← h.2, List.length_drop]
  omega

theorem prepend (pre : Bytes) (h : Behind bs off rest) :
    Behind (pre ++ bs) (pre.length + off) rest := by
  refine ⟨?_, ?_⟩
  · have hle := h.1
    rw [List.length_append]
    omega
  · rw [← List.drop_drop, List.drop_left, h.2]

theorem skip (h : Behind bs off (xs ++ rest)) : Behind bs (off + xs.length) rest := by
  refine ⟨?_, ?_⟩
  · rw [h.length, List.length_append]
    omega
  · rw [← List.drop_drop, h.2, List.drop_left]

theorem eq_take (h : Behind bs off rest) : bs = bs.take off ++ rest := by
  rw [← h.2, List.take_append_drop]

theorem slice (h : Behind bs off (xs ++ rest)) : slice bs off (off + xs.length) = some xs := by
  have hlen : (bs.take off).length = off := List.length_take_of_le h.1
  have hmiddle := slice_middle (bs.take off) xs rest
  rwa [← h.eq_take, hlen] at hmiddle

theorem byte {b : UInt8} (h : Behind bs off (b :: rest)) : bs[off]? = some b := by
  have hget : (bs.drop off)[0]? = bs[off + 0]? := List.getElem?_drop
  rw [h.2] at hget
  exact hget.symm

theorem u16 {v : UInt16} (h : Behind bs off (put16 v ++ rest)) : u16At bs off = some v := by
  have hslice := h.slice
  rw [length_put16] at hslice
  exact u16At_eq_some.mpr hslice

theorem u32 {v : UInt32} (h : Behind bs off (put32 v ++ rest)) : u32At bs off = some v := by
  have hlen : (bs.take off).length = off := List.length_take_of_le h.1
  rw [h.eq_take, u32At_skip (Nat.le_of_eq hlen), hlen, Nat.sub_self, u32At_put]

theorem u64 {v : UInt64} (h : Behind bs off (put64 v ++ rest)) : u64At bs off = some v := by
  have hslice := h.slice
  rw [length_put64] at hslice
  exact u64At_eq_some.mpr hslice

theorem skip_byte {b : UInt8} (h : Behind bs off (b :: rest)) : Behind bs (off + 1) rest := by
  rw [← List.singleton_append] at h
  exact h.skip

theorem skip16 {v : UInt16} (h : Behind bs off (put16 v ++ rest)) : Behind bs (off + 2) rest := by
  have hskip := h.skip
  rwa [length_put16] at hskip

theorem skip32 {v : UInt32} (h : Behind bs off (put32 v ++ rest)) : Behind bs (off + 4) rest := by
  have hskip := h.skip
  rwa [length_put32] at hskip

theorem skip64 {v : UInt64} (h : Behind bs off (put64 v ++ rest)) : Behind bs (off + 8) rest := by
  have hskip := h.skip
  rwa [length_put64] at hskip

theorem entry {entries : List Bytes} {k i : Nat} {e : Bytes}
    (h : Behind bs off (entries.flatten ++ rest)) (hk : ∀ e ∈ entries, e.length = k)
    (hi : entries[i]? = some e) : ∃ rest', Behind bs (off + i * k) (e ++ rest') := by
  induction i generalizing entries off with
  | zero =>
    obtain ⟨tail, rfl⟩ := List.head?_eq_some_iff.mp (List.head?_eq_getElem?.trans hi)
    rw [List.flatten_cons, List.append_assoc] at h
    rw [Nat.zero_mul, Nat.add_zero]
    exact ⟨_, h⟩
  | succ i ih =>
    cases entries with
    | nil => cases hi
    | cons e₀ tail =>
      rw [List.flatten_cons, List.append_assoc] at h
      have hskip := h.skip
      rw [hk e₀ List.mem_cons_self] at hskip
      obtain ⟨rest', hrest'⟩ :=
        ih hskip (fun e' he' => hk e' (List.mem_cons_of_mem _ he')) hi
      refine ⟨rest', ?_⟩
      rwa [Nat.succ_mul, Nat.add_comm (i * k), ← Nat.add_assoc]

end Behind

end Lib.Wire

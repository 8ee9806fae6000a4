import Tyu.Repl.Heap
import Tyu.Lib.Runs
import Tyu.Lib.Checked

/-!
# What the heap keeps

`Rep` is the invariant of the arena, the region table and the live ranges.
-/

namespace Tyu.Repl

open Lib Lib.Wire

def LiveRange.Apart (r s : LiveRange) : Prop := r.stop ≤ s.start ∨ s.stop ≤ r.start

structure Rep (h : RegionHeap) : Prop where
  slots : h.regions.length = REGION_SLOTS
  bytes : h.bytes.length = h.cursor
  floor : NULL_PAGE_BYTES ≤ h.cursor
  ranges : ∀ r ∈ h.live, NULL_PAGE_BYTES ≤ r.start ∧ r.start < r.stop ∧ r.stop ≤ h.cursor
  apart : h.live.Pairwise LiveRange.Apart
  unused : ∀ r ∈ h.regions, r.alive = false → r = Region.unused
  owned : ∀ r ∈ h.regions, r.alive = true → r.range ∈ h.live
  distinct : h.regions.Pairwise fun r s => r.alive = true → s.alive = true → r.range ≠ s.range

variable {h h' k : RegionHeap}

theorem LiveRange.Apart.symm {r s : LiveRange} (a : r.Apart s) : s.Apart r := Or.symm a

namespace Rep

theorem nodup (hr : Rep h) : h.live.Nodup := by
  refine hr.apart.imp_of_mem ?_
  intro r s hrm _ hapart heq
  have hrange := hr.ranges r hrm
  subst heq
  rcases hapart with h1 | h1 <;> omega

theorem of_same (s : Same h k) (hr : Rep h) : Rep k where
  slots := by rw [← s.regions]; exact hr.slots
  bytes := by rw [← s.bytes, ← s.cursor]; exact hr.bytes
  floor := by rw [← s.cursor]; exact hr.floor
  ranges r hrm := by
    rw [← s.cursor]
    exact hr.ranges r (s.live.mem_iff.mpr hrm)
  apart := (s.live.pairwise_iff LiveRange.Apart.symm).mp hr.apart
  unused := by rw [← s.regions]; exact hr.unused
  owned r hrm halive := s.live.mem_iff.mp (hr.owned r (by rw [s.regions]; exact hrm) halive)
  distinct := by rw [← s.regions]; exact hr.distinct

theorem start_lt (hr : Rep h) {r : LiveRange} (hm : r ∈ h.live) : r.start < h.cursor := by
  have := hr.ranges r hm
  omega

theorem new : Rep RegionHeap.new where
  slots := List.length_replicate
  bytes := List.length_replicate
  floor := Nat.le_refl _
  ranges r hr := absurd hr (List.not_mem_nil)
  apart := .nil
  unused r hr _ := List.eq_of_mem_replicate hr
  owned r hr halive := by
    rw [List.eq_of_mem_replicate hr] at halive
    cases halive
  distinct := by
    refine List.pairwise_replicate.mpr (.inr ?_)
    intro halive
    cases halive

end Rep

/-! ## Rounding and reserving -/

theorem align8_of_fits {n : Nat} (hn : n + 7 < 2 ^ 64) : n ≤ align8 n ∧ align8 n < n + 8 := by
  unfold align8
  rw [Nat.mod_eq_of_lt hn]
  omega

theorem length_resize (bs : Bytes) {n : Nat} : (resize bs n).length = n := by
  unfold resize
  rw [List.length_append, List.length_take, List.length_replicate]
  omega

theorem take_resize {bs : Bytes} {n : Nat} (hn : bs.length ≤ n) :
    (resize bs n).take bs.length = bs := by
  unfold resize
  rw [List.take_of_length_le hn, List.take_left]

theorem reserve_eq_ok {n base : Nat} :
    h.reserve n = .ok (base, h') ↔ align8 n ≤ MAX_REGION_BYTES ∧
      h.cursor + align8 n ≤ MAX_HEAP_BYTES ∧ base = h.cursor ∧
      h' = { h with
        bytes := resize h.bytes (h.cursor + align8 n), cursor := h.cursor + align8 n } := by
  unfold RegionHeap.reserve
  by_cases h1 : MAX_REGION_BYTES < align8 n
  · rw [if_pos h1]
    constructor
    · intro h
      cases h
    · intro h
      omega
  · rw [if_neg h1]
    by_cases h2 : MAX_HEAP_BYTES < h.cursor + align8 n
    · rw [if_pos h2]
      constructor
      · intro h
        cases h
      · intro h
        omega
    · rw [if_neg h2]
      simp only [Except.ok.injEq, Prod.mk.injEq]
      constructor
      · intro ⟨hb, hh⟩
        exact ⟨by omega, by omega, hb.symm, hh.symm⟩
      · intro ⟨_, _, hb, hh⟩
        exact ⟨hb.symm, hh.symm⟩

/-! ## A block at the end of the arena

Descriptors, constants and regions are all a grown arena and one more live range. -/

/-- The arena grown by `n` bytes, with a live range of `len` of them. -/
structure Grown (h h' : RegionHeap) (n len : Nat) : Prop where
  positive : 0 < len
  within : len ≤ n
  bytes : h'.bytes.length = h.cursor + n
  kept : h'.bytes.take h.cursor = h.bytes
  cursor : h'.cursor = h.cursor + n
  live : h'.live = h.live ++ [⟨h.cursor, h.cursor + len⟩]

namespace Grown

variable {n len : Nat}

theorem ranges (g : Grown h h' n len) (hr : Rep h) :
    ∀ r ∈ h'.live, NULL_PAGE_BYTES ≤ r.start ∧ r.start < r.stop ∧ r.stop ≤ h'.cursor := by
  intro r hm
  have hpos := g.positive
  have hwithin := g.within
  have hfloor := hr.floor
  rw [g.live, List.mem_append, List.mem_singleton] at hm
  rw [g.cursor]
  rcases hm with hm | rfl
  · have := hr.ranges r hm
    omega
  · show NULL_PAGE_BYTES ≤ h.cursor ∧ h.cursor < h.cursor + len ∧ h.cursor + len ≤ h.cursor + n
    omega

theorem apart (g : Grown h h' n len) (hr : Rep h) : h'.live.Pairwise LiveRange.Apart := by
  rw [g.live, List.pairwise_append]
  refine ⟨hr.apart, List.pairwise_singleton _ _, ?_⟩
  intro r hm s hs
  rw [List.mem_singleton] at hs
  subst hs
  exact .inl (hr.ranges r hm).2.2

theorem fresh (g : Grown h h' n len) (hr : Rep h) : (⟨h.cursor, h.cursor + len⟩ : LiveRange) ∉ h.live := by
  intro hm
  have hpos := g.positive
  have : h.cursor < h.cursor := hr.start_lt hm
  omega

theorem rep (g : Grown h h' n len) (hr : Rep h) (hregions : h'.regions = h.regions) : Rep h' where
  slots := by rw [hregions]; exact hr.slots
  bytes := by rw [g.bytes, g.cursor]
  floor := by
    have hfloor := hr.floor
    rw [g.cursor]
    omega
  ranges := g.ranges hr
  apart := g.apart hr
  unused := by rw [hregions]; exact hr.unused
  owned r hm halive := by
    rw [hregions] at hm
    rw [g.live]
    exact List.mem_append_left _ (hr.owned r hm halive)
  distinct := by rw [hregions]; exact hr.distinct

theorem undone (g : Grown h h' n len) (hr : Rep h) {p : LiveRange → Bool}
    (hp : p ⟨h.cursor, h.cursor + len⟩ = false) (hold : ∀ r ∈ h.live, p r = true) :
    Same h (RegionHeap.reclaim
      { h' with live := h'.live.filter p, regions := h.regions } h.cursor) := by
  have hfilter : h'.live.filter p = h.live := by
    rw [g.live, List.filter_append, List.filter_eq_self.mpr hold, List.filter_cons_of_neg (by
      rw [hp]
      exact Bool.false_ne_true), List.filter_nil, List.append_nil]
  have hcond : NULL_PAGE_BYTES ≤ h.cursor ∧ h.cursor ≤ h'.cursor :=
    ⟨hr.floor, by rw [g.cursor]; omega⟩
  unfold RegionHeap.reclaim
  rw [if_pos hcond]
  exact ⟨g.kept.symm, rfl, rfl, by rw [hfilter]⟩

end Grown

theorem of_place {block : Bytes} {len addr old : Nat} (hr : Rep h) (hlen : 0 < len)
    (hwithin : len ≤ block.length) (hsmall : block.length + 7 < 2 ^ 64)
    (hp : h.place block len = .ok ((addr, old), h')) :
    Grown h h' (align8 block.length) len ∧ h'.regions = h.regions ∧ addr = h.cursor ∧
      old = h.cursor := by
  unfold RegionHeap.place at hp
  obtain ⟨⟨base, h₁⟩, hreserve, hp⟩ := bind_eq_ok.mp hp
  obtain ⟨hmax, hcap, rfl, rfl⟩ := reserve_eq_ok.mp hreserve
  cases hp
  obtain ⟨hle, hlt⟩ := align8_of_fits hsmall
  have hfit : h.cursor + block.length ≤ (resize h.bytes (h.cursor + align8 block.length)).length := by
    rw [length_resize]
    omega
  refine ⟨⟨hlen, by omega, ?_, ?_, rfl, rfl⟩, rfl, rfl, rfl⟩
  · rw [length_patch hfit, length_resize]
  · unfold patch
    rw [List.append_assoc, List.take_append_of_le_length (by
      rw [List.length_take, length_resize]; omega), List.take_take, Nat.min_self, ← hr.bytes]
    exact take_resize (by omega)

theorem of_scopedEnter {ptr len : UInt64} {addr old : Nat} (hr : Rep h)
    (hs : h.scopedEnter ptr len = .ok ((addr, old), h')) :
    Rep h' ∧ Same h (h'.compensateScoped addr old) := by
  obtain ⟨g, hregions, rfl, rfl⟩ := of_place hr (by omega) (by simp) (by simp) hs
  refine ⟨g.rep hr hregions, ?_⟩
  have hundone := g.undone hr (p := fun lr => decide (lr ≠ ⟨h.cursor, h.cursor + 16⟩))
    (by simp) (by
      intro r hm
      refine decide_eq_true ?_
      rintro rfl
      exact g.fresh hr hm)
  rw [← hregions] at hundone
  exact hundone

theorem of_intern {bytes : Bytes} {addr old : Nat} (hr : Rep h) (hsmall : bytes.length + 15 < 2 ^ 64)
    (hi : h.intern bytes = .ok ((addr, old), h')) :
    Rep h' ∧ Same h (h'.compensateIntern addr old) := by
  obtain ⟨g, hregions, rfl, rfl⟩ := of_place hr (by omega) (by simp) (by simp; omega) hi
  refine ⟨g.rep hr hregions, ?_⟩
  have hundone := g.undone hr (p := fun lr => decide (lr.start ≠ h.cursor))
    (by simp) (by
      intro r hm
      have := hr.start_lt hm
      refine decide_eq_true ?_
      omega)
  rw [← hregions] at hundone
  exact hundone

/-! ## Regions -/

/-- A create that finds room for a region and takes a slot that is in use: the table is
full and the counter is below the number of slots. -/
def TakesUsedSlot (h : RegionHeap) (size : UInt64) : Prop :=
  (∀ r ∈ h.regions, r.alive = true) ∧ h.next < REGION_SLOTS ∧ size ≠ 0 ∧
    align8 size.toNat ≤ MAX_REGION_BYTES ∧ h.cursor + align8 size.toNat ≤ MAX_HEAP_BYTES

instance (h : RegionHeap) (size : UInt64) : Decidable (TakesUsedSlot h size) :=
  inferInstanceAs (Decidable (_ ∧ _))

def Creatable (h : RegionHeap) (size : UInt64) : Prop :=
  size.toNat + 7 < 2 ^ 64 ∧ ¬ TakesUsedSlot h size

structure Created (h h' : RegionHeap) (slot n : Nat) : Prop where
  grown : Grown h h' n n
  free : h.regions[slot]? = some Region.unused
  regions : h'.regions = h.regions.set slot ⟨h.cursor, n, 0, true⟩

theorem align8_align8 {n : Nat} (hn : n + 7 < 2 ^ 64) : align8 (align8 n) = align8 n := by
  unfold align8
  rw [Nat.mod_eq_of_lt hn]
  omega

theorem created_of_ok {size : UInt64} {slot old : Nat} (hr : Rep h) (hc : Creatable h size)
    (h0 : h.regionCreate size = (.ok (slot, old), h')) :
    Created h h' slot (align8 size.toNat) ∧ old = h.cursor := by
  obtain ⟨hsmall, hused⟩ := hc
  unfold RegionHeap.regionCreate at h0
  by_cases hzero : size = 0
  · rw [if_pos hzero] at h0
    cases h0
  rw [if_neg hzero] at h0
  by_cases hmax : MAX_REGION_BYTES < align8 size.toNat
  · simp only [if_pos hmax] at h0
    cases h0
  simp only [if_neg hmax] at h0
  have hpos : 0 < align8 size.toNat := by
    have hne : size.toNat ≠ 0 := fun h => hzero (by rw [← UInt64.toNat_inj, h]; rfl)
    have := (align8_of_fits hsmall).1
    omega
  unfold RegionHeap.newSlot at h0
  cases hfind : h.regions.findIdx? fun r => !r.alive with
  | some i =>
    rw [hfind] at h0
    simp only at h0
    obtain ⟨hi, hdead, -⟩ := List.findIdx?_eq_some_iff_getElem.mp hfind
    have hunused : h.regions[i] = Region.unused :=
      hr.unused _ (List.getElem_mem hi) (by simpa using hdead)
    cases hreserve : h.reserve (align8 size.toNat) with
    | error f =>
      rw [hreserve] at h0
      cases h0
    | ok p =>
      obtain ⟨base, h₁⟩ := p
      rw [hreserve] at h0
      obtain ⟨-, -, rfl, rfl⟩ := reserve_eq_ok.mp hreserve
      rw [align8_align8 hsmall] at h0
      cases h0
      refine ⟨⟨⟨hpos, Nat.le_refl _, length_resize _, ?_, rfl, rfl⟩, ?_, rfl⟩, rfl⟩
      · rw [← hr.bytes]
        exact take_resize (by omega)
      · rw [List.getElem?_eq_getElem hi, hunused]
  | none =>
    rw [hfind] at h0
    simp only at h0
    have hall : ∀ r ∈ h.regions, r.alive = true := by
      intro r hm
      simpa using List.findIdx?_eq_none_iff.mp hfind r hm
    by_cases hnext : h.next < REGION_SLOTS
    · rw [if_pos hnext] at h0
      simp only at h0
      cases hreserve : RegionHeap.reserve { h with next := h.next + 1 } (align8 size.toNat) with
      | error f =>
        rw [hreserve] at h0
        cases h0
      | ok p =>
        obtain ⟨-, hcap, -⟩ := reserve_eq_ok.mp hreserve
        rw [align8_align8 hsmall] at hcap
        exact absurd ⟨hall, hnext, hzero, by omega, hcap⟩ hused
    · rw [if_neg hnext] at h0
      cases h0

theorem same_of_create_error {size : UInt64} {f : HeapFault}
    (h0 : h.regionCreate size = (.error f, h')) : Same h h' := by
  unfold RegionHeap.regionCreate RegionHeap.newSlot at h0
  split at h0
  · cases h0
    exact .refl h
  simp only at h0
  split at h0
  · cases h0
    exact .refl h
  split at h0
  · cases h0
    exact .refl h
  rename_i slot h₁ hslot
  have hsame : Same h h₁ := by
    split at hslot
    · cases hslot
      exact .refl h
    · split at hslot
      · cases hslot
        exact ⟨rfl, rfl, rfl, .refl _⟩
      · cases hslot
  split at h0
  · cases h0
    exact hsame
  · cases h0

namespace Created

variable {slot n : Nat}

theorem slot_lt (c : Created h h' slot n) : slot < h.regions.length :=
  (List.getElem?_eq_some_iff.mp c.free).1

theorem rep (c : Created h h' slot n) (hr : Rep h) : Rep h' where
  slots := by rw [c.regions, List.length_set]; exact hr.slots
  bytes := by rw [c.grown.bytes, c.grown.cursor]
  floor := by
    have hfloor := hr.floor
    rw [c.grown.cursor]
    omega
  ranges := c.grown.ranges hr
  apart := c.grown.apart hr
  unused r hm hdead := by
    rw [c.regions] at hm
    rcases List.mem_or_eq_of_mem_set hm with hm | rfl
    · exact hr.unused r hm hdead
    · cases hdead
  owned r hm halive := by
    rw [c.regions] at hm
    rw [c.grown.live]
    rcases List.mem_or_eq_of_mem_set hm with hm | rfl
    · exact List.mem_append_left _ (hr.owned r hm halive)
    · exact List.mem_append_right _ (List.mem_singleton.mpr rfl)
  distinct := by
    have hnew : ∀ r ∈ h.regions, r.alive = true → r.range ≠ ⟨h.cursor, h.cursor + n⟩ := by
      intro r hm halive heq
      exact c.grown.fresh hr (heq ▸ hr.owned r hm halive)
    rw [c.regions]
    rw [List.pairwise_iff_getElem] at *
    intro i j hi hj hij
    have hd := List.pairwise_iff_getElem.mp hr.distinct
    rw [List.length_set] at hi hj
    rw [List.getElem_set, List.getElem_set]
    by_cases hsi : slot = i
    · rw [if_pos hsi, if_neg (by omega)]
      intro _ halive
      exact (hnew _ (List.getElem_mem hj) halive).symm
    · rw [if_neg hsi]
      by_cases hsj : slot = j
      · rw [if_pos hsj]
        intro halive _
        exact hnew _ (List.getElem_mem hi) halive
      · rw [if_neg hsj]
        exact hd i j hi hj hij

theorem undone (c : Created h h' slot n) (hr : Rep h) :
    Same h (h'.compensateRegionCreate slot h.cursor) := by
  have hget : h'.regions[slot]? = some ⟨h.cursor, n, 0, true⟩ := by
    rw [c.regions, List.getElem?_set_self c.slot_lt]
  have hback : h'.regions.set slot Region.unused = h.regions := by
    obtain ⟨hlt, hfree⟩ := List.getElem?_eq_some_iff.mp c.free
    rw [c.regions, List.set_set, ← hfree, List.set_getElem_self]
  have hundone := c.grown.undone hr (p := fun lr => decide (lr ≠ ⟨h.cursor, h.cursor + n⟩))
    (by simp) (by
      intro r hm
      refine decide_eq_true ?_
      rintro rfl
      exact c.grown.fresh hr hm)
  unfold RegionHeap.compensateRegionCreate
  rw [hget]
  simp only [if_true]
  rw [hback]
  exact hundone

end Created

theorem slot_eq_ok {handle : UInt64} {i : Nat} {r : Region} (hs : h.slot handle = .ok (i, r)) :
    i = handle.toNat ∧ h.regions[i]? = some r ∧ r.alive = true := by
  unfold RegionHeap.slot at hs
  split at hs
  · cases hs
  split at hs
  · rename_i r' hget
    split at hs
    · cases hs
      exact ⟨rfl, hget, ‹_›⟩
    · cases hs
  · cases hs

theorem Rep.range_ne (hr : Rep h) {i j : Nat} {r s : Region} (hi : h.regions[i]? = some r)
    (hj : h.regions[j]? = some s) (hr' : r.alive = true) (hs' : s.alive = true) (hij : i ≠ j) :
    r.range ≠ s.range := by
  obtain ⟨hilt, rfl⟩ := List.getElem?_eq_some_iff.mp hi
  obtain ⟨hjlt, rfl⟩ := List.getElem?_eq_some_iff.mp hj
  have hd := List.pairwise_iff_getElem.mp hr.distinct
  rcases Nat.lt_or_gt_of_ne hij with hlt | hgt
  · exact hd i j hilt hjlt hlt hr' hs'
  · exact (hd j i hjlt hilt hgt hs' hr').symm

theorem mem_set_iff {α : Type} {xs : List α} {i : Nat} {x y : α} (hi : i < xs.length) :
    y ∈ xs.set i x ↔ y = x ∨ ∃ j, j ≠ i ∧ xs[j]? = some y := by
  rw [List.mem_iff_getElem?]
  constructor
  · intro ⟨j, hj⟩
    rw [List.getElem?_set] at hj
    by_cases hij : i = j
    · rw [if_pos hij, if_pos hi] at hj
      cases hj
      exact .inl rfl
    · rw [if_neg hij] at hj
      exact .inr ⟨j, Ne.symm hij, hj⟩
  · rintro (rfl | ⟨j, hj, hget⟩)
    · exact ⟨i, List.getElem?_set_self hi⟩
    · exact ⟨j, by rw [List.getElem?_set, if_neg (Ne.symm hj), hget]⟩

theorem pairwise_set {α : Type} {R : α → α → Prop} (hsymm : ∀ {x y}, R x y → R y x) {xs : List α}
    {i : Nat} {x : α} (hp : xs.Pairwise R) (hx : ∀ j y, j ≠ i → xs[j]? = some y → R x y) :
    (xs.set i x).Pairwise R := by
  rw [List.pairwise_iff_getElem] at hp ⊢
  intro j k hj hk hjk
  rw [List.length_set] at hj hk
  rw [List.getElem_set, List.getElem_set]
  by_cases hij : i = j
  · rw [if_pos hij, if_neg (by omega)]
    exact hx k _ (by omega) (List.getElem?_eq_getElem hk)
  · rw [if_neg hij]
    by_cases hik : i = k
    · rw [if_pos hik]
      exact hsymm (hx j _ (Ne.symm hij) (List.getElem?_eq_getElem hj))
    · rw [if_neg hik]
      exact hp j k hj hk hjk

structure Moved (h h' : RegionHeap) (slot : Nat) (r : Region) (off : Nat) : Prop where
  here : h.regions[slot]? = some r
  alive : r.alive = true
  after : h' = { h with regions := h.regions.set slot { r with off := off } }

theorem moved_of_alloc {handle size : UInt64} {ptr old : Nat}
    (ha : h.regionAlloc handle size = .ok ((ptr, old), h')) :
    ∃ r off, Moved h h' handle.toNat r off ∧ old = r.off := by
  unfold RegionHeap.regionAlloc at ha
  obtain ⟨⟨slot, r⟩, hslot, ha⟩ := bind_eq_ok.mp ha
  obtain ⟨rfl, hget, halive⟩ := slot_eq_ok hslot
  simp only at ha
  split at ha
  · cases ha
  split at ha
  · cases ha
  split at ha
  · cases ha
  cases ha
  exact ⟨r, _, ⟨hget, halive, rfl⟩, rfl⟩

theorem moved_of_reset {handle : UInt64} {old : Nat} (hreset : h.regionReset handle = .ok (old, h')) :
    ∃ r, Moved h h' handle.toNat r 0 ∧ old = r.off := by
  unfold RegionHeap.regionReset at hreset
  obtain ⟨⟨slot, r⟩, hslot, hreset⟩ := bind_eq_ok.mp hreset
  obtain ⟨rfl, hget, halive⟩ := slot_eq_ok hslot
  cases hreset
  exact ⟨r, ⟨hget, halive, rfl⟩, rfl⟩

namespace Moved

variable {slot off : Nat} {r : Region}

theorem rep (m : Moved h h' slot r off) (hr : Rep h) : Rep h' := by
  obtain ⟨hget, halive, rfl⟩ := m
  have hlt := (List.getElem?_eq_some_iff.mp hget).1
  have hmem := List.mem_of_getElem? hget
  refine { hr with slots := ?_, unused := ?_, owned := ?_, distinct := ?_ }
  · rw [List.length_set]
    exact hr.slots
  · intro s hs hdead
    rcases List.mem_or_eq_of_mem_set hs with hs | rfl
    · exact hr.unused s hs hdead
    · rw [halive] at hdead
      cases hdead
  · intro s hs hslive
    rcases List.mem_or_eq_of_mem_set hs with hs | rfl
    · exact hr.owned s hs hslive
    · exact hr.owned r hmem halive
  · refine pairwise_set (fun hxy hy hx => (hxy hx hy).symm) hr.distinct ?_
    intro j s hj hs _ hslive
    show r.range ≠ s.range
    exact hr.range_ne hget hs halive hslive (Ne.symm hj)

theorem undone (m : Moved h h' slot r off) : Same h (h'.compensateCursor slot r.off) := by
  obtain ⟨hget, -, rfl⟩ := m
  obtain ⟨hlt, hr⟩ := List.getElem?_eq_some_iff.mp hget
  unfold RegionHeap.compensateCursor
  rw [List.getElem?_set_self hlt]
  refine ⟨rfl, rfl, ?_, .refl _⟩
  show h.regions = (h.regions.set slot { r with off := off }).set slot r
  rw [List.set_set, ← hr, List.set_getElem_self]

end Moved

structure Destroyed (h h' : RegionHeap) (slot : Nat) (r : Region) : Prop where
  here : h.regions[slot]? = some r
  alive : r.alive = true
  after : h' = { h with
    live := h.live.filter fun lr => lr ≠ r.range
    regions := h.regions.set slot Region.unused }

theorem destroyed_of_ok {handle : UInt64} {saved : RegionSaved}
    (hd : h.regionDestroy handle = .ok (saved, h')) :
    ∃ r, Destroyed h h' handle.toNat r ∧ saved = ⟨r.base, r.size, r.off⟩ := by
  unfold RegionHeap.regionDestroy at hd
  obtain ⟨⟨slot, r⟩, hslot, hd⟩ := bind_eq_ok.mp hd
  obtain ⟨rfl, hget, halive⟩ := slot_eq_ok hslot
  cases hd
  exact ⟨r, ⟨hget, halive, rfl⟩, rfl⟩

namespace Destroyed

variable {slot : Nat} {r : Region}

theorem rep (d : Destroyed h h' slot r) (hr : Rep h) : Rep h' := by
  obtain ⟨hget, halive, rfl⟩ := d
  have hlt := (List.getElem?_eq_some_iff.mp hget).1
  refine { hr with slots := ?_, ranges := ?_, apart := ?_, unused := ?_, owned := ?_, distinct := ?_ }
  · rw [List.length_set]
    exact hr.slots
  · intro lr hm
    exact hr.ranges lr (List.mem_filter.mp hm).1
  · exact hr.apart.filter _
  · intro s hs hdead
    rcases List.mem_or_eq_of_mem_set hs with hs | rfl
    · exact hr.unused s hs hdead
    · rfl
  · intro s hs hslive
    rcases (mem_set_iff hlt).mp hs with rfl | ⟨j, hj, hsj⟩
    · cases hslive
    · refine List.mem_filter.mpr ⟨hr.owned s (List.mem_of_getElem? hsj) hslive, ?_⟩
      exact decide_eq_true (hr.range_ne hsj hget hslive halive hj)
  · refine pairwise_set (fun hxy hy hx => (hxy hx hy).symm) hr.distinct ?_
    intro j s _ _ hdead
    cases hdead

theorem size_pos (d : Destroyed h h' slot r) (hr : Rep h) : 0 < r.size := by
  have hrange := hr.ranges r.range (hr.owned r (List.mem_of_getElem? d.here) d.alive)
  have hlt : r.base < r.base + r.size := hrange.2.1
  omega

theorem undone (d : Destroyed h h' slot r) (hr : Rep h) :
    Same h (h'.compensateRegionDestroy slot ⟨r.base, r.size, r.off⟩) := by
  have hsize := d.size_pos hr
  have howned := hr.owned r (List.mem_of_getElem? d.here) d.alive
  obtain ⟨hget, halive, rfl⟩ := d
  obtain ⟨hlt, hrslot⟩ := List.getElem?_eq_some_iff.mp hget
  unfold RegionHeap.compensateRegionDestroy
  simp only [List.getElem?_set_self hlt, if_pos hsize, List.set_set]
  refine ⟨rfl, rfl, ?_, ?_⟩
  · show h.regions = h.regions.set slot ⟨r.base, r.size, r.off, true⟩
    rw [← halive, show (⟨r.base, r.size, r.off, r.alive⟩ : Region) = r from rfl, ← hrslot,
      List.set_getElem_self]
  · have herase : h.live.erase r.range = h.live.filter fun lr => lr ≠ r.range := by
      rw [hr.nodup.erase_eq_filter]
      refine List.filter_congr fun lr _ => ?_
      by_cases heq : lr = r.range <;> simp [heq]
    show h.live.Perm ((h.live.filter fun lr => lr ≠ r.range) ++ [r.range])
    rw [← herase]
    exact (List.perm_cons_erase howned).trans (List.perm_append_singleton _ _).symm

end Destroyed

theorem of_indexed {addr : UInt64} {width : Nat} {xs : Bytes} (hwidth : width < 256)
    (hx : h.indexed addr width = some xs) :
    slice h.bytes (address addr) (address addr + width) = some xs ∧
      address addr + width < 2 ^ 32 := by
  unfold RegionHeap.indexed at hx
  have hlt : address addr < 2 ^ 32 := Nat.mod_lt _ (by omega)
  have hle := (slice_eq_some hx).1
  have hfit : address addr + width < 2 ^ 32 := by
    by_cases hwrap : address addr + width < 2 ^ 32
    · exact hwrap
    · omega
  rw [Nat.mod_eq_of_lt hfit] at hx
  exact ⟨hx, hfit⟩

structure Stored (h h' : RegionHeap) (addr : UInt64) (width val old : Nat) : Prop where
  before : slice h.bytes (address addr) (address addr + width) = some (putLE width old)
  fits : address addr + width < 2 ^ 32
  after : h' = { h with bytes := patch h.bytes (address addr) (putLE width val) }

theorem stored_of_ok {addr : UInt64} {width val old : Nat} (hwidth : width < 256)
    (hs : h.store addr width val = .ok (old, h')) : Stored h h' addr width val old := by
  unfold RegionHeap.store at hs
  split at hs
  · cases hx : h.indexed addr width with
    | none =>
      rw [hx] at hs
      cases hs
    | some xs =>
      rw [hx] at hs
      cases hs
      obtain ⟨hslice, hfit⟩ := of_indexed hwidth hx
      have hlen : xs.length = width := by
        have := length_slice hslice
        omega
      refine ⟨?_, hfit, rfl⟩
      rw [← hlen, putLE_getLE, hlen]
      exact hslice
  · cases hs

namespace Stored

variable {addr : UInt64} {width val old : Nat}

theorem bound (s : Stored h h' addr width val old) : address addr + width ≤ h.bytes.length :=
  (slice_eq_some s.before).2.1

theorem rep (s : Stored h h' addr width val old) (hr : Rep h) : Rep h' := by
  have hbound := s.bound
  obtain ⟨-, -, rfl⟩ := s
  refine { hr with bytes := ?_ }
  show (patch h.bytes (address addr) (putLE width val)).length = h.cursor
  rw [length_patch (by rw [length_putLE]; exact hbound), hr.bytes]

theorem undone (s : Stored h h' addr width val old) :
    ∃ k, h'.compensateStore addr width old = some k ∧ Same h k := by
  have hbound := s.bound
  obtain ⟨hbefore, hfit, rfl⟩ := s
  have hindexed : RegionHeap.indexed
      { h with bytes := patch h.bytes (address addr) (putLE width val) } addr width =
      some (putLE width val) := by
    unfold RegionHeap.indexed
    rw [Nat.mod_eq_of_lt hfit]
    have hroom : address addr + (putLE width val).length ≤ h.bytes.length := by
      rw [length_putLE]
      exact hbound
    have hpatched := slice_patch hroom
    rw [length_putLE] at hpatched
    exact hpatched
  unfold RegionHeap.compensateStore
  rw [hindexed]
  refine ⟨_, rfl, ⟨?_, rfl, rfl, .refl _⟩⟩
  show h.bytes = patch (patch h.bytes (address addr) (putLE width val)) (address addr)
    (putLE width old)
  rw [patch_patch (by rw [length_putLE]; exact hbound) (by rw [length_putLE, length_putLE]),
    patch_slice hbefore]

end Stored

end Tyu.Repl

import Tyu.Repl.HeapRuns

/-!
# Accesses to the arena

The interpreter tests an access with the lower 32 bits of its address and an end that wraps, and
then indexes the arena with the address as the platform's `usize` has it.
-/

namespace Tyu.Repl

open Lib Lib.Wire

/-! ## The cap -/

structure Capped (h : RegionHeap) : Prop where
  bytes : h.bytes.length ≤ MAX_HEAP_BYTES
  live : ∀ r ∈ h.live, r.stop ≤ MAX_HEAP_BYTES
  regions : ∀ r ∈ h.regions, r.base + r.size ≤ MAX_HEAP_BYTES

def Effect.Capped : Effect → Prop
  | .store _ width _ => width < 256
  | .regionDestroy _ saved => saved.range.stop ≤ MAX_HEAP_BYTES
  | _ => True

variable {h h' : RegionHeap}

theorem capped_new : Capped RegionHeap.new where
  bytes := by
    show (List.replicate NULL_PAGE_BYTES (0 : UInt8)).length ≤ MAX_HEAP_BYTES
    rw [List.length_replicate]
    decide
  live r hr := absurd hr List.not_mem_nil
  regions r hr := by
    rw [List.eq_of_mem_replicate hr]
    decide

namespace Capped

theorem region (hc : Capped h) {i : Nat} {r : Region} (hget : h.regions[i]? = some r) :
    r.base + r.size ≤ MAX_HEAP_BYTES :=
  hc.regions r (List.mem_of_getElem? hget)

theorem regions_set (hc : Capped h) {i : Nat} {r : Region}
    (hr : r.base + r.size ≤ MAX_HEAP_BYTES) :
    ∀ s ∈ h.regions.set i r, s.base + s.size ≤ MAX_HEAP_BYTES := by
  intro s hs
  rcases List.mem_or_eq_of_mem_set hs with hs | rfl
  · exact hc.regions s hs
  · exact hr

theorem live_filter (hc : Capped h) {p : LiveRange → Bool} :
    ∀ r ∈ h.live.filter p, r.stop ≤ MAX_HEAP_BYTES :=
  fun r hr => hc.live r (List.mem_filter.mp hr).1

theorem live_append (hc : Capped h) {r : LiveRange} (hr : r.stop ≤ MAX_HEAP_BYTES) :
    ∀ s ∈ h.live ++ [r], s.stop ≤ MAX_HEAP_BYTES := by
  intro s hs
  rcases List.mem_append.mp hs with hs | hs
  · exact hc.live s hs
  · rw [List.mem_singleton.mp hs]
    exact hr

theorem reclaim (hc : Capped h) (oldCursor : Nat) : Capped (h.reclaim oldCursor) := by
  unfold RegionHeap.reclaim
  by_cases hin : NULL_PAGE_BYTES ≤ oldCursor ∧ oldCursor ≤ h.cursor
  · rw [if_pos hin]
    refine ⟨?_, hc.live, hc.regions⟩
    show (h.bytes.take oldCursor).length ≤ MAX_HEAP_BYTES
    have hbytes := hc.bytes
    rw [List.length_take]
    omega
  · rw [if_neg hin]
    exact hc

theorem place (hc : Capped h) {block : Bytes} {len addr old : Nat} (hlen : len ≤ block.length)
    (hsmall : block.length + 7 < 2 ^ 64) (hp : h.place block len = .ok ((addr, old), h')) :
    Capped h' := by
  unfold RegionHeap.place at hp
  obtain ⟨⟨base, h₁⟩, hreserve, hp⟩ := bind_eq_ok.mp hp
  obtain ⟨-, hcap, rfl, rfl⟩ := reserve_eq_ok.mp hreserve
  cases hp
  have halign := (align8_of_fits hsmall).1
  refine ⟨?_, hc.live_append ?_, hc.regions⟩
  · show (patch (resize h.bytes _) h.cursor block).length ≤ MAX_HEAP_BYTES
    rw [length_patch (by rw [length_resize]; omega), length_resize]
    exact hcap
  · show h.cursor + len ≤ MAX_HEAP_BYTES
    omega

theorem create (hc : Capped h) {size : UInt64} {slot old : Nat}
    (h0 : h.regionCreate size = (.ok (slot, old), h')) : Capped h' := by
  unfold RegionHeap.regionCreate RegionHeap.newSlot at h0
  split at h0
  · cases h0
  simp only at h0
  split at h0
  · cases h0
  split at h0
  · cases h0
  rename_i slot₁ h₁ hslot
  have hsame : h₁.bytes = h.bytes ∧ h₁.live = h.live ∧ h₁.regions = h.regions := by
    split at hslot
    · cases hslot
      exact ⟨rfl, rfl, rfl⟩
    · split at hslot
      · cases hslot
        exact ⟨rfl, rfl, rfl⟩
      · cases hslot
  have hc₁ : Capped h₁ := by
    refine ⟨?_, ?_, ?_⟩
    · rw [hsame.1]; exact hc.bytes
    · rw [hsame.2.1]; exact hc.live
    · rw [hsame.2.2]; exact hc.regions
  split at h0
  · cases h0
  rename_i base h₂ hreserve
  obtain ⟨hmax, hcap, rfl, rfl⟩ := reserve_eq_ok.mp hreserve
  cases h0
  -- Rounding a rounded size leaves it, as it is at most the region cap.
  have hround : align8 (align8 size.toNat) = align8 size.toNat := by
    have hsmall : align8 size.toNat ≤ MAX_REGION_BYTES := by omega
    have hmul : align8 size.toNat % 8 = 0 := Nat.mul_mod_left _ _
    unfold MAX_REGION_BYTES at hsmall
    generalize align8 size.toNat = m at hsmall hmul ⊢
    unfold align8
    omega
  rw [hround] at hcap
  refine ⟨?_, hc₁.live_append ?_, hc₁.regions_set ?_⟩
  · show (resize h₁.bytes _).length ≤ MAX_HEAP_BYTES
    rw [length_resize, hround]
    exact hcap
  · exact hcap
  · exact hcap

theorem moved (hc : Capped h) {slot off : Nat} {r : Region} (m : Moved h h' slot r off) :
    Capped h' := by
  have hr := hc.region m.here
  rw [m.after]
  exact ⟨hc.bytes, hc.live, hc.regions_set hr⟩

theorem destroyed (hc : Capped h) {slot : Nat} {r : Region} (d : Destroyed h h' slot r) :
    Capped h' := by
  rw [d.after]
  exact ⟨hc.bytes, hc.live_filter, hc.regions_set (by decide)⟩

theorem stored (hc : Capped h) {addr : UInt64} {width val old : Nat}
    (s : Stored h h' addr width val old) : Capped h' := by
  have hbound := s.bound
  rw [s.after]
  refine ⟨?_, hc.live, hc.regions⟩
  show (patch h.bytes (address addr) (putLE width val)).length ≤ MAX_HEAP_BYTES
  rw [length_patch (by rw [length_putLE]; exact hbound)]
  exact hc.bytes

end Capped

theorem HeapOp.exec_capped {o : HeapOp} {e : Option Effect} (hc : Capped h)
    (hx : o.exec h = some (e, h')) : Capped h' ∧ ∀ x ∈ e, x.Capped := by
  cases o with
  | create size =>
    simp only [HeapOp.exec] at hx
    cases h0 : h.regionCreate size with
    | mk res h₁ =>
      rw [h0] at hx
      cases res with
      | error f =>
        cases hx
        have hsame := same_of_create_error h0
        refine ⟨⟨?_, ?_, ?_⟩, by simp⟩
        · rw [← hsame.bytes]; exact hc.bytes
        · intro r hr
          exact hc.live r (hsame.live.mem_iff.mpr hr)
        · rw [← hsame.regions]; exact hc.regions
      | ok p =>
        cases hx
        exact ⟨hc.create h0, by simp [Effect.Capped]⟩
  | alloc handle size =>
    simp only [HeapOp.exec] at hx
    cases h0 : h.regionAlloc handle size with
    | error f =>
      rw [h0] at hx
      cases hx
      exact ⟨hc, by simp⟩
    | ok p =>
      obtain ⟨⟨ptr, old⟩, h₁⟩ := p
      rw [h0] at hx
      cases hx
      obtain ⟨r, off, hmoved, -⟩ := moved_of_alloc h0
      exact ⟨hc.moved hmoved, by simp [Effect.Capped]⟩
  | reset handle =>
    simp only [HeapOp.exec] at hx
    cases h0 : h.regionReset handle with
    | error f =>
      rw [h0] at hx
      cases hx
      exact ⟨hc, by simp⟩
    | ok p =>
      obtain ⟨old, h₁⟩ := p
      rw [h0] at hx
      cases hx
      obtain ⟨r, hmoved, -⟩ := moved_of_reset h0
      exact ⟨hc.moved hmoved, by simp [Effect.Capped]⟩
  | destroy handle =>
    simp only [HeapOp.exec] at hx
    cases h0 : h.regionDestroy handle with
    | error f =>
      rw [h0] at hx
      cases hx
      exact ⟨hc, by simp⟩
    | ok p =>
      obtain ⟨saved, h₁⟩ := p
      rw [h0] at hx
      cases hx
      obtain ⟨r, hdestroyed, rfl⟩ := destroyed_of_ok h0
      have hr : r.base + r.size ≤ MAX_HEAP_BYTES := hc.region hdestroyed.here
      refine ⟨hc.destroyed hdestroyed, ?_⟩
      intro x hxe
      cases Option.some.inj hxe
      exact hr
  | scopedEnter ptr len =>
    simp only [HeapOp.exec] at hx
    cases h0 : h.scopedEnter ptr len with
    | error f =>
      rw [h0] at hx
      cases hx
      exact ⟨hc, by simp⟩
    | ok p =>
      obtain ⟨⟨addr, old⟩, h₁⟩ := p
      rw [h0] at hx
      cases hx
      exact ⟨hc.place (by simp) (by simp) h0, by simp [Effect.Capped]⟩
  | resource =>
    simp only [HeapOp.exec] at hx
    cases h0 : h.intern [] with
    | error f =>
      rw [h0] at hx
      cases hx
      exact ⟨hc, by simp⟩
    | ok p =>
      obtain ⟨⟨addr, old⟩, h₁⟩ := p
      rw [h0] at hx
      cases hx
      exact ⟨hc.place (by simp) (by simp) h0, by simp [Effect.Capped]⟩
  | store addr width val =>
    simp only [HeapOp.exec] at hx
    cases h0 : h.store addr width.toNat val with
    | fault f =>
      rw [h0] at hx
      cases hx
      exact ⟨hc, by simp⟩
    | panic =>
      rw [h0] at hx
      cases hx
    | ok p =>
      obtain ⟨old, h₁⟩ := p
      rw [h0] at hx
      cases hx
      refine ⟨hc.stored (stored_of_ok width.toNat_lt h0), ?_⟩
      intro x hxe
      cases Option.some.inj hxe
      exact width.toNat_lt

theorem Effect.compensate_capped {e : Effect} (hc : Repl.Capped h) (he : e.Capped)
    (hx : e.compensate h = some h') : Repl.Capped h' := by
  cases e with
  | store addr width old =>
    obtain ⟨xs, hxs, rfl⟩ := Option.map_eq_some_iff.mp hx
    have hbound := (slice_eq_some (of_indexed he hxs).1).2.1
    refine ⟨?_, hc.live, hc.regions⟩
    show (patch h.bytes (address addr) (putLE width old)).length ≤ MAX_HEAP_BYTES
    rw [length_patch (by rw [length_putLE]; exact hbound)]
    exact hc.bytes
  | regionCreate handle oldCursor =>
    cases hx
    unfold RegionHeap.compensateRegionCreate
    cases hget : h.regions[handle]? with
    | none => exact hc.reclaim oldCursor
    | some r =>
      have hlive : ∀ s ∈ (if r.alive then h.live.filter fun lr => lr ≠ r.range else h.live),
          s.stop ≤ MAX_HEAP_BYTES := by
        cases r.alive with
        | false => exact hc.live
        | true => exact hc.live_filter
      have hfreed : Repl.Capped
          { h with
            live := if r.alive then h.live.filter fun lr => lr ≠ r.range else h.live
            regions := h.regions.set handle Region.unused } :=
        ⟨hc.bytes, hlive, hc.regions_set (by decide)⟩
      exact hfreed.reclaim oldCursor
  | intern addr oldCursor =>
    cases hx
    have hdropped : Repl.Capped { h with live := h.live.filter fun lr => lr.start ≠ addr } :=
      ⟨hc.bytes, hc.live_filter, hc.regions⟩
    exact hdropped.reclaim oldCursor
  | regionAlloc handle oldOff | regionReset handle oldOff =>
    cases hx
    unfold RegionHeap.compensateCursor
    cases hget : h.regions[handle]? with
    | none => exact hc
    | some r =>
      have hr : r.base + r.size ≤ MAX_HEAP_BYTES := hc.region hget
      exact ⟨hc.bytes, hc.live, hc.regions_set hr⟩
  | regionDestroy handle saved =>
    cases hx
    unfold RegionHeap.compensateRegionDestroy
    cases hget : h.regions[handle]? with
    | none => exact hc
    | some r =>
      refine ⟨hc.bytes, ?_, hc.regions_set he⟩
      show ∀ s ∈ (if 0 < saved.size then h.live ++ [saved.range] else h.live),
        s.stop ≤ MAX_HEAP_BYTES
      by_cases hpos : 0 < saved.size
      · rw [if_pos hpos]
        exact hc.live_append he
      · rw [if_neg hpos]
        exact hc.live
  | scopedEnter addr oldCursor =>
    cases hx
    have hdropped : Repl.Capped { h with live := h.live.filter fun lr => lr ≠ ⟨addr, addr + 16⟩ } :=
      ⟨hc.bytes, hc.live_filter, hc.regions⟩
    exact hdropped.reclaim oldCursor
  | output start len => cases hx; exact hc
  | call word depthBefore => cases hx; exact hc
  | periph aperture off width val isWrite => cases hx; exact hc

/-- The heap under way and the one set aside, with their journals, lie below the cap. -/
structure SessionHeap.Capped (s : SessionHeap) : Prop where
  heap : Repl.Capped s.heap
  journal : ∀ e ∈ s.journal, e.Capped
  aside : ∀ p, s.suspended = some p → Repl.Capped p.1 ∧ ∀ e ∈ p.2, e.Capped

theorem SessionHeap.capped_step {s s' : SessionHeap} {ev : SessionEvent} (hs : s.Capped)
    (hstep : s.step ev = some s') : s'.Capped := by
  cases ev with
  | op o =>
    obtain ⟨⟨e, h'⟩, hexec, rfl⟩ := Option.map_eq_some_iff.mp hstep
    obtain ⟨hheap, heff⟩ := HeapOp.exec_capped hs.heap hexec
    refine ⟨hheap, ?_, hs.aside⟩
    intro x hx
    rcases List.mem_append.mp hx with hx | hx
    · exact heff x (Option.mem_toList.mp hx)
    · exact hs.journal x hx
  | constant bytes =>
    simp only [step] at hstep
    split at hstep
    · rename_i hcond
      cases hi : s.heap.intern bytes with
      | error f =>
        rw [hi] at hstep
        cases hstep
        exact hs
      | ok p =>
        obtain ⟨⟨addr, old⟩, h'⟩ := p
        rw [hi] at hstep
        cases hstep
        have hlen : (putLE 8 bytes.length ++ bytes).length = 8 + bytes.length := by simp
        exact ⟨hs.heap.place (by omega) (by omega) hi, hs.journal, hs.aside⟩
    · cases hstep
  | commit =>
    cases hstep
    exact ⟨hs.heap, fun e he => absurd he List.not_mem_nil, hs.aside⟩
  | undo =>
    have hjournal := hs.journal
    simp only [step] at hstep
    cases hj : s.journal with
    | nil =>
      rw [hj] at hstep
      cases hstep
    | cons e es =>
      rw [hj] at hstep hjournal
      obtain ⟨h', hundo, rfl⟩ := Option.map_eq_some_iff.mp hstep
      have he := hjournal e List.mem_cons_self
      exact ⟨Effect.compensate_capped hs.heap he hundo,
        fun x hx => hjournal x (List.mem_cons_of_mem e hx), hs.aside⟩
  | suspend =>
    cases hstep
    refine ⟨hs.heap, hs.journal, ?_⟩
    intro p hp
    cases hp
    exact ⟨hs.heap, hs.journal⟩
  | resume =>
    obtain ⟨p, hp, rfl⟩ := Option.map_eq_some_iff.mp hstep
    obtain ⟨hheap, hjournal⟩ := hs.aside p hp
    exact ⟨hheap, hjournal, fun q hq => absurd hq.symm (Option.some_ne_none q)⟩
  | abandon =>
    cases hstep
    exact ⟨hs.heap, hs.journal, fun q hq => absurd hq.symm (Option.some_ne_none q)⟩

theorem SessionHeap.capped_of_reachable {s : SessionHeap}
    {ok : SessionHeap → SessionEvent → Prop} (h : (heapSystem ok).Reachable s) : s.Capped := by
  refine h.invariant ?_ ?_
  · rintro s rfl
    exact ⟨capped_new, fun e he => absurd he List.not_mem_nil,
      fun p hp => absurd hp.symm (Option.some_ne_none p)⟩
  · rintro s s' hs - ⟨ev, -, hstep⟩
    exact capped_step hs hstep

inductive Platform where
  | browser | host

/-- The bits of `usize`. -/
def Platform.bits : Platform → Nat
  | .browser => 32
  | .host => 64

namespace RegionHeap

/-- The bytes an access indexes; the end is a `usize`. -/
def indexedOn (p : Platform) (h : RegionHeap) (addr : UInt64) (width : Nat) : Option Bytes :=
  slice h.bytes (addr.toNat % 2 ^ p.bits) ((addr.toNat % 2 ^ p.bits + width) % 2 ^ p.bits)

def loadOn (p : Platform) (h : RegionHeap) (addr : UInt64) (width : Nat) : Access Nat :=
  if h.range addr width then
    match h.indexedOn p addr width with
    | some xs => .ok (getLE xs)
    | none => .panic
  else .fault .outOfBounds

def storeOn (p : Platform) (h : RegionHeap) (addr : UInt64) (width val : Nat) :
    Access (Nat × RegionHeap) :=
  if h.range addr width then
    match h.indexedOn p addr width with
    | some xs =>
      .ok (getLE xs, { h with bytes := patch h.bytes (addr.toNat % 2 ^ p.bits) (putLE width val) })
    | none => .panic
  else .fault .outOfBounds

end RegionHeap

/-! ## Confinement -/

def Inside (h : RegionHeap) (addr : UInt64) (width : Nat) : Prop :=
  ∃ r ∈ h.live, r.start ≤ addr.toNat ∧ addr.toNat + width ≤ r.stop

structure Overwrites (h h' : RegionHeap) (addr : UInt64) (width val : Nat) : Prop where
  rest : h' = { h with bytes := h'.bytes }
  length : h'.bytes.length = h.bytes.length
  here : slice h'.bytes addr.toNat (addr.toNat + width) = some (putLE width val)
  beside : ∀ i, i < addr.toNat ∨ addr.toNat + width ≤ i → h'.bytes[i]? = h.bytes[i]?

/-- A load and a store index inside the arena, and succeed only inside one live range; the
store changes the bytes of the access alone. -/
structure Confined (p : Platform) (h : RegionHeap) (addr : UInt64) (width val : Nat) : Prop where
  load_indexes : h.loadOn p addr width ≠ .panic
  store_indexes : h.storeOn p addr width val ≠ .panic
  load_inside : ∀ x, h.loadOn p addr width = .ok x → Inside h addr width
  store_inside : ∀ old h', h.storeOn p addr width val = .ok (old, h') →
    Inside h addr width ∧ Overwrites h h' addr width val

variable {p : Platform} {addr : UInt64} {width val : Nat}

theorem indexedOn_of_lt (hlt : addr.toNat + width < 2 ^ 32) :
    h.indexedOn p addr width = slice h.bytes addr.toNat (addr.toNat + width) ∧
      addr.toNat % 2 ^ p.bits = addr.toNat := by
  have hbits : 2 ^ 32 ≤ 2 ^ p.bits := by cases p <;> decide
  have haddr : addr.toNat % 2 ^ p.bits = addr.toNat := Nat.mod_eq_of_lt (by omega)
  unfold RegionHeap.indexedOn
  rw [haddr, Nat.mod_eq_of_lt (by omega)]
  exact ⟨rfl, rfl⟩

theorem inside_of_range (hlt : addr.toNat + width < 2 ^ 32) (hr : h.range addr width = true) :
    Inside h addr width := by
  unfold RegionHeap.range address at hr
  split at hr
  · cases hr
  obtain ⟨r, hmem, hbounds⟩ := List.any_eq_true.mp hr
  rw [Nat.mod_eq_of_lt (by omega : addr.toNat < 2 ^ 32), Nat.mod_eq_of_lt hlt,
    Bool.and_eq_true, decide_eq_true_eq, decide_eq_true_eq] at hbounds
  exact ⟨r, hmem, hbounds⟩

theorem overwrites_patch (hin : addr.toNat + width ≤ h.bytes.length) :
    Overwrites h { h with bytes := patch h.bytes addr.toNat (putLE width val) } addr width val := by
  have hroom : addr.toNat + (putLE width val).length ≤ h.bytes.length := by
    rw [length_putLE]
    exact hin
  refine ⟨rfl, length_patch hroom, ?_, ?_⟩
  · have hpatched := slice_patch hroom
    rw [length_putLE] at hpatched
    exact hpatched
  · intro i hi
    show (patch h.bytes addr.toNat (putLE width val))[i]? = h.bytes[i]?
    refine getElem?_patch hroom ?_
    rw [length_putLE]
    exact hi

theorem confined_of_rejected (hr : h.range addr width = false) : Confined p h addr width val := by
  have hload : h.loadOn p addr width = .fault .outOfBounds := by
    unfold RegionHeap.loadOn
    rw [hr]
    rfl
  have hstore : h.storeOn p addr width val = .fault .outOfBounds := by
    unfold RegionHeap.storeOn
    rw [hr]
    rfl
  constructor
  · rw [hload]
    exact fun hp => nomatch hp
  · rw [hstore]
    exact fun hp => nomatch hp
  · intro x hx
    rw [hload] at hx
    cases hx
  · intro old h' hx
    rw [hstore] at hx
    cases hx

theorem confined_of_ends (hc : Capped h) (hr : h.range addr width = true)
    (hin : addr.toNat + width ≤ h.bytes.length) : Confined p h addr width val := by
  have hcap := hc.bytes
  unfold MAX_HEAP_BYTES at hcap
  have hlt : addr.toNat + width < 2 ^ 32 := by omega
  obtain ⟨hindexed, haddr⟩ := indexedOn_of_lt (h := h) (p := p) hlt
  have hinside := inside_of_range hlt hr
  obtain ⟨xs, hxs⟩ := Option.isSome_iff_exists.mp
    (isSome_slice.mpr ⟨Nat.le_add_right addr.toNat width, hin⟩)
  have hload : h.loadOn p addr width = .ok (getLE xs) := by
    unfold RegionHeap.loadOn
    rw [if_pos hr, hindexed, hxs]
  have hstore : h.storeOn p addr width val = .ok (getLE xs,
      { h with bytes := patch h.bytes addr.toNat (putLE width val) }) := by
    unfold RegionHeap.storeOn
    rw [if_pos hr, hindexed, hxs, haddr]
  constructor
  · rw [hload]
    exact fun hp => nomatch hp
  · rw [hstore]
    exact fun hp => nomatch hp
  · exact fun _ _ => hinside
  · intro old h' hx
    rw [hstore] at hx
    cases hx
    exact ⟨hinside, overwrites_patch hin⟩

theorem Confined.ends (c : Confined p h addr width val) (hc : Capped h)
    (hr : h.range addr width = true) : addr.toNat + width ≤ h.bytes.length := by
  cases hxs : h.indexedOn p addr width with
  | none =>
    refine absurd ?_ c.load_indexes
    unfold RegionHeap.loadOn
    rw [if_pos hr, hxs]
  | some xs =>
    have hload : h.loadOn p addr width = .ok (getLE xs) := by
      unfold RegionHeap.loadOn
      rw [if_pos hr, hxs]
    obtain ⟨r, hmem, -, hstop⟩ := c.load_inside _ hload
    have hcap := hc.live r hmem
    unfold MAX_HEAP_BYTES at hcap
    have hlt : addr.toNat + width < 2 ^ 32 := by omega
    rw [(indexedOn_of_lt hlt).1] at hxs
    exact (slice_eq_some hxs).2.1

/-- In every state of every run, on both platforms, an access of one, two, four or eight
bytes is confined exactly when it is rejected or ends inside the arena. -/
theorem access_confined_iff {s : SessionHeap} {ok : SessionHeap → SessionEvent → Prop}
    (hs : (heapSystem ok).Reachable s) (p : Platform) (addr : UInt64) {width : Nat}
    (_hwidth : width ∈ [1, 2, 4, 8]) (val : UInt64) :
    Confined p s.heap addr width val.toNat ↔
      (s.heap.range addr width = true → addr.toNat + width ≤ s.heap.bytes.length) := by
  have hcapped := (SessionHeap.capped_of_reachable hs).heap
  constructor
  · exact fun c hr => c.ends hcapped hr
  · intro hin
    cases hr : s.heap.range addr width with
    | false => exact confined_of_rejected hr
    | true => exact confined_of_ends hcapped hr (hin hr)

/-- The eight bytes of a new region. -/
theorem new_region_confined : ∃ s : SessionHeap, s.journal.length = 1 ∧
    (Confined .browser s.heap 4096 8 (7 : UInt64).toNat ↔
      (s.heap.range 4096 8 = true → (4096 : UInt64).toNat + 8 ≤ s.heap.bytes.length)) :=
  have hs : (heapSystem fun _ _ => True).Reachable
      ((SessionHeap.start.step (.op (.create 8))).get rfl) :=
    .next (.start rfl) trivial ⟨.op (.create 8), trivial, rfl⟩
  ⟨_, rfl, access_confined_iff hs .browser 4096 (by decide) 7⟩

/-- A region of eight bytes is read one turn of the 32-bit addresses above it. -/
theorem far_address_loaded :
    ¬∀ s, (heapSystem fun _ _ => True).Reachable s → ∀ (p : Platform) (addr : UInt64) (width : Nat),
      width ∈ [1, 2, 4, 8] → ∀ val : UInt64, Confined p s.heap addr width val.toNat := by
  intro hclaim
  obtain ⟨s, hs, hrange, hlen⟩ : ∃ s,
      SessionHeap.start.runAll [.op (.create 8)] = some s ∧
        s.heap.range 4294971392 1 = true ∧ s.heap.bytes.length = 4104 :=
    ⟨_, rfl, by decide +kernel, by decide +kernel⟩
  have hreach := reachable_runAll (.start rfl) hs
  have hconfined := hclaim s hreach .browser 4294971392 1 (by decide) 0
  have hends := hconfined.ends (SessionHeap.capped_of_reachable hreach).heap hrange
  rw [hlen] at hends
  exact absurd hends (by decide)

end Tyu.Repl

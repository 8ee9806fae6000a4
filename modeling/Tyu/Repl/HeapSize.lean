import Tyu.Repl.HeapRuns

/-! # The size of the arena -/

namespace Tyu.Repl

open Lib Lib.Wire

def Sized (h : RegionHeap) : Prop := h.bytes.length = h.cursor ∧ NULL_PAGE_BYTES ≤ h.cursor

theorem sized_new : Sized .new := ⟨List.length_replicate, Nat.le_refl _⟩

structure SameSize (h k : RegionHeap) : Prop where
  length : h.bytes.length = k.bytes.length
  cursor : h.cursor = k.cursor

namespace SameSize

variable {h k l : RegionHeap}

theorem refl (h : RegionHeap) : SameSize h h := ⟨rfl, rfl⟩

theorem symm (s : SameSize h k) : SameSize k h := ⟨s.length.symm, s.cursor.symm⟩

theorem trans (s : SameSize h k) (s' : SameSize k l) : SameSize h l :=
  ⟨s.length.trans s'.length, s.cursor.trans s'.cursor⟩

theorem reclaim (s : SameSize h k) (oldCursor : Nat) :
    SameSize (h.reclaim oldCursor) (k.reclaim oldCursor) := by
  unfold RegionHeap.reclaim
  rw [← s.cursor]
  by_cases hc : NULL_PAGE_BYTES ≤ oldCursor ∧ oldCursor ≤ h.cursor
  · rw [if_pos hc, if_pos hc]
    refine ⟨?_, rfl⟩
    show (h.bytes.take oldCursor).length = (k.bytes.take oldCursor).length
    rw [List.length_take, List.length_take, s.length]
  · rw [if_neg hc, if_neg hc]
    exact s

end SameSize

variable {h h' k : RegionHeap}

theorem Sized.of_sameSize (hs : Sized h) (s : SameSize h k) : Sized k := by
  unfold Sized
  rw [← s.length, ← s.cursor]
  exact hs

theorem sameSize_compensateCursor (h : RegionHeap) (handle oldOff : Nat) :
    SameSize h (h.compensateCursor handle oldOff) := by
  unfold RegionHeap.compensateCursor
  cases h.regions[handle]? with
  | none => exact .refl h
  | some r => exact ⟨rfl, rfl⟩

theorem sameSize_compensateRegionDestroy (h : RegionHeap) (handle : Nat) (saved : RegionSaved) :
    SameSize h (h.compensateRegionDestroy handle saved) := by
  unfold RegionHeap.compensateRegionDestroy
  cases h.regions[handle]? with
  | none => exact .refl h
  | some r => exact ⟨rfl, rfl⟩

theorem sameSize_compensateRegionCreate (h : RegionHeap) (handle oldCursor : Nat) :
    SameSize (h.reclaim oldCursor) (h.compensateRegionCreate handle oldCursor) := by
  unfold RegionHeap.compensateRegionCreate
  cases h.regions[handle]? with
  | none => exact .refl _
  | some r =>
    have hfreed : SameSize h
        { h with
          live := if r.alive then h.live.filter fun lr => lr ≠ r.range else h.live
          regions := h.regions.set handle Region.unused } := ⟨rfl, rfl⟩
    exact hfreed.reclaim oldCursor

theorem sameSize_compensateScoped (h : RegionHeap) (addr oldCursor : Nat) :
    SameSize (h.reclaim oldCursor) (h.compensateScoped addr oldCursor) := by
  have hdropped : SameSize h { h with live := h.live.filter fun lr => lr ≠ ⟨addr, addr + 16⟩ } :=
    ⟨rfl, rfl⟩
  exact hdropped.reclaim oldCursor

theorem sameSize_compensateIntern (h : RegionHeap) (addr oldCursor : Nat) :
    SameSize (h.reclaim oldCursor) (h.compensateIntern addr oldCursor) := by
  have hdropped : SameSize h { h with live := h.live.filter fun lr => lr.start ≠ addr } :=
    ⟨rfl, rfl⟩
  exact hdropped.reclaim oldCursor

theorem length_patch_eq {bs cs xs : Bytes} {off : Nat} (hlen : bs.length = cs.length) :
    (patch bs off xs).length = (patch cs off xs).length := by
  unfold patch
  simp only [List.length_append, List.length_take, List.length_drop, hlen]

theorem isSome_indexed (s : SameSize h k) (addr : UInt64) (width : Nat) :
    (h.indexed addr width).isSome = (k.indexed addr width).isSome := by
  unfold RegionHeap.indexed
  rw [Bool.eq_iff_iff, isSome_slice, isSome_slice, s.length]

theorem Effect.compensate_sameSize {e : Effect} (s : SameSize h k)
    (hc : e.compensate h = some h') : ∃ k', e.compensate k = some k' ∧ SameSize h' k' := by
  cases e with
  | store addr width old =>
    obtain ⟨xs, hxs, rfl⟩ := Option.map_eq_some_iff.mp hc
    have hsome : (k.indexed addr width).isSome = true := by
      rw [← isSome_indexed s, hxs]
      rfl
    obtain ⟨ys, hys⟩ := Option.isSome_iff_exists.mp hsome
    refine ⟨_, Option.map_eq_some_iff.mpr ⟨ys, hys, rfl⟩, ?_, s.cursor⟩
    exact length_patch_eq s.length
  | regionCreate handle oldCursor =>
    cases hc
    exact ⟨_, rfl, (sameSize_compensateRegionCreate h _ _).symm.trans
      ((s.reclaim oldCursor).trans (sameSize_compensateRegionCreate k _ _))⟩
  | intern addr oldCursor =>
    cases hc
    exact ⟨_, rfl, (sameSize_compensateIntern h _ _).symm.trans
      ((s.reclaim oldCursor).trans (sameSize_compensateIntern k _ _))⟩
  | scopedEnter addr oldCursor =>
    cases hc
    exact ⟨_, rfl, (sameSize_compensateScoped h _ _).symm.trans
      ((s.reclaim oldCursor).trans (sameSize_compensateScoped k _ _))⟩
  | regionAlloc handle oldOff | regionReset handle oldOff =>
    cases hc
    exact ⟨_, rfl, (sameSize_compensateCursor h _ _).symm.trans
      (s.trans (sameSize_compensateCursor k _ _))⟩
  | regionDestroy handle saved =>
    cases hc
    exact ⟨_, rfl, (sameSize_compensateRegionDestroy h _ _).symm.trans
      (s.trans (sameSize_compensateRegionDestroy k _ _))⟩
  | output start len | call word depthBefore | periph aperture off width val isWrite =>
    cases hc
    exact ⟨k, rfl, s⟩

def sizeLog : UndoLog RegionHeap Effect where
  undo := Effect.compensate
  same := SameSize
  refl := SameSize.refl
  symm := SameSize.symm
  trans := SameSize.trans
  undo_same := Effect.compensate_sameSize

structure Longer (h h' : RegionHeap) : Prop where
  sized : Sized h'
  cursor : h.cursor ≤ h'.cursor

theorem Longer.undone (g : Longer h h') (hs : Sized h) : SameSize h (h'.reclaim h.cursor) := by
  unfold RegionHeap.reclaim
  rw [if_pos ⟨hs.2, g.cursor⟩]
  refine ⟨?_, rfl⟩
  show h.bytes.length = (h'.bytes.take h.cursor).length
  rw [List.length_take, hs.1, g.sized.1, Nat.min_eq_left g.cursor]

theorem longer_of_place {block : Bytes} {len addr old : Nat} (hs : Sized h)
    (hsmall : block.length + 7 < 2 ^ 64) (hp : h.place block len = .ok ((addr, old), h')) :
    Longer h h' ∧ old = h.cursor := by
  unfold RegionHeap.place at hp
  obtain ⟨⟨base, h₁⟩, hreserve, hp⟩ := bind_eq_ok.mp hp
  obtain ⟨-, -, rfl, rfl⟩ := reserve_eq_ok.mp hreserve
  cases hp
  have hle := (align8_of_fits hsmall).1
  have hfloor := hs.2
  refine ⟨⟨⟨?_, ?_⟩, ?_⟩, rfl⟩
  · show (patch (resize h.bytes (h.cursor + align8 block.length)) h.cursor block).length =
      h.cursor + align8 block.length
    rw [length_patch (by rw [length_resize]; omega), length_resize]
  · show NULL_PAGE_BYTES ≤ h.cursor + align8 block.length
    omega
  · show h.cursor ≤ h.cursor + align8 block.length
    omega

theorem longer_of_create {size : UInt64} {slot old : Nat} (hs : Sized h)
    (hc : h.regionCreate size = (.ok (slot, old), h')) : Longer h h' ∧ old = h.cursor := by
  unfold RegionHeap.regionCreate at hc
  split at hc
  · cases hc
  simp only at hc
  split at hc
  · cases hc
  split at hc
  · cases hc
  rename_i slot' h₁ hslot
  have hcursor : h₁.cursor = h.cursor := by
    unfold RegionHeap.newSlot at hslot
    split at hslot
    · cases hslot
      rfl
    · split at hslot
      · cases hslot
        rfl
      · cases hslot
  split at hc
  · cases hc
  rename_i base h₂ hreserve
  obtain ⟨-, -, -, rfl⟩ := reserve_eq_ok.mp hreserve
  cases hc
  have hfloor := hs.2
  refine ⟨⟨⟨length_resize _, ?_⟩, ?_⟩, hcursor⟩
  · show NULL_PAGE_BYTES ≤ h₁.cursor + _
    omega
  · show h.cursor ≤ h₁.cursor + _
    omega

theorem HeapOp.exec_sized {o : HeapOp} {e : Option Effect} (hs : Sized h)
    (hx : o.exec h = some (e, h')) : Sized h' ∧ LeadsBack SameSize h e h' := by
  cases o with
  | create size =>
    simp only [HeapOp.exec] at hx
    cases hc : h.regionCreate size with
    | mk res h₁ =>
      rw [hc] at hx
      cases res with
      | error f =>
        cases hx
        have hsame := same_of_create_error hc
        have hsize : SameSize h h' := ⟨congrArg List.length hsame.bytes, hsame.cursor⟩
        exact ⟨hs.of_sameSize hsize, hsize⟩
      | ok p =>
        obtain ⟨slot, old⟩ := p
        cases hx
        obtain ⟨hlonger, rfl⟩ := longer_of_create hs hc
        exact ⟨hlonger.sized, _, rfl,
          (hlonger.undone hs).trans (sameSize_compensateRegionCreate _ _ _)⟩
  | alloc handle size =>
    simp only [HeapOp.exec] at hx
    cases hc : h.regionAlloc handle size with
    | error f =>
      rw [hc] at hx
      cases hx
      exact ⟨hs, .refl h⟩
    | ok p =>
      obtain ⟨⟨ptr, old⟩, h₁⟩ := p
      rw [hc] at hx
      cases hx
      obtain ⟨r, off, hmoved, -⟩ := moved_of_alloc hc
      have hbeside : SameSize h h' := by
        rw [hmoved.after]
        exact ⟨rfl, rfl⟩
      exact ⟨hs.of_sameSize hbeside, _, rfl, hbeside.trans (sameSize_compensateCursor _ _ _)⟩
  | reset handle =>
    simp only [HeapOp.exec] at hx
    cases hc : h.regionReset handle with
    | error f =>
      rw [hc] at hx
      cases hx
      exact ⟨hs, .refl h⟩
    | ok p =>
      obtain ⟨old, h₁⟩ := p
      rw [hc] at hx
      cases hx
      obtain ⟨r, hmoved, -⟩ := moved_of_reset hc
      have hbeside : SameSize h h' := by
        rw [hmoved.after]
        exact ⟨rfl, rfl⟩
      exact ⟨hs.of_sameSize hbeside, _, rfl, hbeside.trans (sameSize_compensateCursor _ _ _)⟩
  | destroy handle =>
    simp only [HeapOp.exec] at hx
    cases hc : h.regionDestroy handle with
    | error f =>
      rw [hc] at hx
      cases hx
      exact ⟨hs, .refl h⟩
    | ok p =>
      obtain ⟨saved, h₁⟩ := p
      rw [hc] at hx
      cases hx
      obtain ⟨r, hdestroyed, -⟩ := destroyed_of_ok hc
      have hbeside : SameSize h h' := by
        rw [hdestroyed.after]
        exact ⟨rfl, rfl⟩
      exact ⟨hs.of_sameSize hbeside, _, rfl, hbeside.trans (sameSize_compensateRegionDestroy _ _ _)⟩
  | scopedEnter ptr len =>
    simp only [HeapOp.exec] at hx
    cases hc : h.scopedEnter ptr len with
    | error f =>
      rw [hc] at hx
      cases hx
      exact ⟨hs, .refl h⟩
    | ok p =>
      obtain ⟨⟨addr, old⟩, h₁⟩ := p
      rw [hc] at hx
      cases hx
      obtain ⟨hlonger, rfl⟩ := longer_of_place hs (by simp) hc
      exact ⟨hlonger.sized, _, rfl, (hlonger.undone hs).trans (sameSize_compensateScoped _ _ _)⟩
  | resource =>
    simp only [HeapOp.exec] at hx
    cases hc : h.intern [] with
    | error f =>
      rw [hc] at hx
      cases hx
      exact ⟨hs, .refl h⟩
    | ok p =>
      obtain ⟨⟨addr, old⟩, h₁⟩ := p
      rw [hc] at hx
      cases hx
      obtain ⟨hlonger, rfl⟩ := longer_of_place hs (by simp) hc
      exact ⟨hlonger.sized, _, rfl, (hlonger.undone hs).trans (sameSize_compensateIntern _ _ _)⟩
  | store addr width val =>
    simp only [HeapOp.exec] at hx
    cases hc : h.store addr width.toNat val with
    | fault f =>
      rw [hc] at hx
      cases hx
      exact ⟨hs, .refl h⟩
    | panic =>
      rw [hc] at hx
      cases hx
    | ok p =>
      obtain ⟨old, h₁⟩ := p
      rw [hc] at hx
      cases hx
      have hstored := stored_of_ok width.toNat_lt hc
      obtain ⟨k, hk, hsame⟩ := hstored.undone
      refine ⟨⟨?_, ?_⟩, k, hk, congrArg List.length hsame.bytes, hsame.cursor⟩
      · obtain rfl := hstored.after
        show (patch h.bytes (address addr) (putLE width.toNat val)).length = h.cursor
        rw [length_patch (by rw [length_putLE]; exact hstored.bound), hs.1]
      · obtain rfl := hstored.after
        exact hs.2

end Tyu.Repl

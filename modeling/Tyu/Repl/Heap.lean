import Tyu.Lib.Wire
import Tyu.Ir.Types
import Tyu.Lib.Transaction

/-! # The region heap of the interpreter and its journal -/

namespace Tyu.Repl

open Lib.Wire

def NULL_PAGE_BYTES : Nat := 4096

def REGION_SLOTS : Nat := 16

def MAX_REGION_BYTES : Nat := 4 * 1024 * 1024

def MAX_HEAP_BYTES : Nat := 64 * 1024 * 1024

inductive HeapFault where
  | badArgument | exhausted | outOfBounds
deriving DecidableEq

def HeapFault.trap : HeapFault → TrapCode
  | .badArgument => .unreachable
  | .exhausted => .regionExhausted
  | .outOfBounds => .assertFail

inductive Access (α : Type) where
  | ok (x : α)
  | fault (f : HeapFault)
  | panic

structure Region where
  base : Nat
  size : Nat
  off : Nat
  alive : Bool
deriving DecidableEq

structure LiveRange where
  start : Nat
  stop : Nat
deriving DecidableEq

structure RegionSaved where
  base : Nat
  size : Nat
  off : Nat

structure RegionHeap where
  bytes : Bytes
  cursor : Nat
  next : Nat
  regions : List Region
  live : List LiveRange
deriving DecidableEq

def Region.unused : Region := ⟨0, 0, 0, false⟩

def Region.range (r : Region) : LiveRange := ⟨r.base, r.base + r.size⟩

def RegionSaved.range (r : RegionSaved) : LiveRange := ⟨r.base, r.base + r.size⟩

def resize (bs : Bytes) (n : Nat) : Bytes := bs.take n ++ List.replicate (n - bs.length) 0

def align8 (n : Nat) : Nat := (n + 7) % 2 ^ 64 / 8 * 8

def address (addr : UInt64) : Nat := addr.toNat % 2 ^ 32

namespace RegionHeap

def new : RegionHeap where
  bytes := List.replicate NULL_PAGE_BYTES 0
  cursor := NULL_PAGE_BYTES
  next := 0
  regions := List.replicate REGION_SLOTS Region.unused
  live := []

/-- Reserve `n` bytes at the end of the arena. -/
def reserve (h : RegionHeap) (n : Nat) : Except HeapFault (Nat × RegionHeap) :=
  let n := align8 n
  if MAX_REGION_BYTES < n then .error .exhausted
  else
    let stop := h.cursor + n
    if MAX_HEAP_BYTES < stop then .error .exhausted
    else .ok (h.cursor, { h with bytes := resize h.bytes stop, cursor := stop })

/-- The slot of a new region: the first unused one, else the next one of the counter. -/
def newSlot (h : RegionHeap) : Option (Nat × RegionHeap) :=
  match h.regions.findIdx? fun r => !r.alive with
  | some i => some (i, h)
  | none =>
    if h.next < REGION_SLOTS then some (h.next, { h with next := h.next + 1 }) else none

/-- Give a slot to a region of `size` bytes at `base`. -/
def install (h : RegionHeap) (slot base size : Nat) : RegionHeap :=
  { h with
    regions := h.regions.set slot ⟨base, size, 0, true⟩
    live := h.live ++ [⟨base, base + size⟩] }

/-- The handle and the cursor before; a slot taken from the counter stays taken where
the arena has no room. -/
def regionCreate (h : RegionHeap) (size : UInt64) : Except HeapFault (Nat × Nat) × RegionHeap :=
  if size = 0 then (.error .badArgument, h)
  else
    let size := align8 size.toNat
    if MAX_REGION_BYTES < size then (.error .exhausted, h)
    else
      match h.newSlot with
      | none => (.error .exhausted, h)
      | some (slot, h) =>
        match h.reserve size with
        | .error f => (.error f, h)
        | .ok (base, h') => (.ok (slot, h.cursor), h'.install slot base size)

def slot (h : RegionHeap) (handle : UInt64) : Except HeapFault (Nat × Region) :=
  if REGION_SLOTS ≤ handle.toNat then .error .badArgument
  else
    match h.regions[handle.toNat]? with
    | some r => if r.alive then .ok (handle.toNat, r) else .error .badArgument
    | none => .error .badArgument

def regionAlloc (h : RegionHeap) (handle size : UInt64) :
    Except HeapFault ((Nat × Nat) × RegionHeap) := do
  let (slot, r) ← h.slot handle
  if size = 0 then .error .badArgument
  else
    let aligned := align8 size.toNat
    if MAX_REGION_BYTES < aligned then .error .exhausted
    else
      let newOff := r.off + aligned
      if r.size < newOff then .error .exhausted
      else
        .ok ((r.base + r.off, r.off),
          { h with regions := h.regions.set slot { r with off := newOff } })

def regionReset (h : RegionHeap) (handle : UInt64) : Except HeapFault (Nat × RegionHeap) := do
  let (slot, r) ← h.slot handle
  .ok (r.off, { h with regions := h.regions.set slot { r with off := 0 } })

def regionDestroy (h : RegionHeap) (handle : UInt64) :
    Except HeapFault (RegionSaved × RegionHeap) := do
  let (slot, r) ← h.slot handle
  let saved : RegionSaved := ⟨r.base, r.size, r.off⟩
  .ok (saved,
    { h with
      live := h.live.filter fun lr => lr ≠ saved.range
      regions := h.regions.set slot Region.unused })

/-- Write a block at the end of the arena and make `len` bytes of it live: its address,
and the cursor before. -/
def place (h : RegionHeap) (block : Bytes) (len : Nat) :
    Except HeapFault ((Nat × Nat) × RegionHeap) := do
  let (base, h') ← h.reserve block.length
  .ok ((base, h.cursor),
    { h' with
      bytes := patch h'.bytes base block
      live := h'.live ++ [⟨base, base + len⟩] })

/-- A sixteen-byte `{ ptr, len }` descriptor. -/
def scopedEnter (h : RegionHeap) (ptr len : UInt64) : Except HeapFault ((Nat × Nat) × RegionHeap) :=
  h.place (putLE 4 ptr.toNat ++ putLE 4 0 ++ (putLE 4 len.toNat ++ putLE 4 0)) 16

def intern (h : RegionHeap) (bytes : Bytes) : Except HeapFault ((Nat × Nat) × RegionHeap) :=
  h.place (putLE 8 bytes.length ++ bytes) (8 + bytes.length)

/-- Is the access inside one live range?  The end of the access wraps at 32 bits. -/
def range (h : RegionHeap) (addr : UInt64) (width : Nat) : Bool :=
  if addr.toNat < NULL_PAGE_BYTES then false
  else
    h.live.any fun r => r.start ≤ address addr && (address addr + width) % 2 ^ 32 ≤ r.stop

def indexed (h : RegionHeap) (addr : UInt64) (width : Nat) : Option Bytes :=
  slice h.bytes (address addr) ((address addr + width) % 2 ^ 32)

def load (h : RegionHeap) (addr : UInt64) (width : Nat) : Access Nat :=
  if h.range addr width then
    match h.indexed addr width with
    | some xs => .ok (getLE xs)
    | none => .panic
  else .fault .outOfBounds

def store (h : RegionHeap) (addr : UInt64) (width : Nat) (val : Nat) : Access (Nat × RegionHeap) :=
  if h.range addr width then
    match h.indexed addr width with
    | some xs =>
      .ok (getLE xs, { h with bytes := patch h.bytes (address addr) (putLE width val) })
    | none => .panic
  else .fault .outOfBounds

/-! ## Compensations -/

/-- Write the old bytes back; an index past the end of the arena is a panic. -/
def compensateStore (h : RegionHeap) (addr : UInt64) (width old : Nat) : Option RegionHeap :=
  (h.indexed addr width).map fun _ =>
    { h with bytes := patch h.bytes (address addr) (putLE width old) }

def compensateCursor (h : RegionHeap) (handle oldOff : Nat) : RegionHeap :=
  match h.regions[handle]? with
  | some r => { h with regions := h.regions.set handle { r with off := oldOff } }
  | none => h

def reclaim (h : RegionHeap) (oldCursor : Nat) : RegionHeap :=
  if NULL_PAGE_BYTES ≤ oldCursor ∧ oldCursor ≤ h.cursor then
    { h with bytes := h.bytes.take oldCursor, cursor := oldCursor }
  else h

def compensateRegionCreate (h : RegionHeap) (handle oldCursor : Nat) : RegionHeap :=
  let h :=
    match h.regions[handle]? with
    | some r =>
      { h with
        live := if r.alive then h.live.filter fun lr => lr ≠ r.range else h.live
        regions := h.regions.set handle Region.unused }
    | none => h
  h.reclaim oldCursor

def compensateRegionDestroy (h : RegionHeap) (handle : Nat) (saved : RegionSaved) : RegionHeap :=
  match h.regions[handle]? with
  | some _ =>
    { h with
      regions := h.regions.set handle ⟨saved.base, saved.size, saved.off, true⟩
      live := if 0 < saved.size then h.live ++ [saved.range] else h.live }
  | none => h

def compensateScoped (h : RegionHeap) (addr oldCursor : Nat) : RegionHeap :=
  reclaim { h with live := h.live.filter fun lr => lr ≠ ⟨addr, addr + 16⟩ } oldCursor

def compensateIntern (h : RegionHeap) (addr oldCursor : Nat) : RegionHeap :=
  reclaim { h with live := h.live.filter fun lr => lr.start ≠ addr } oldCursor

end RegionHeap

end Tyu.Repl

/-!
## The undo journal

Every reversible change of a phrase is recorded as an effect; the effects of a phrase are
taken back in reverse.  Output, calls and device accesses are recorded for the trace only.
-/

namespace Tyu.Repl

open Lib Lib.Wire

inductive Effect where
  | store (addr : UInt64) (width old : Nat)
  | regionCreate (handle oldCursor : Nat)
  | intern (addr oldCursor : Nat)
  | regionAlloc (handle oldOff : Nat)
  | regionReset (handle oldOff : Nat)
  | regionDestroy (handle : Nat) (saved : RegionSaved)
  | scopedEnter (addr oldCursor : Nat)
  | output (start len : Nat)
  | call (word : String) (depthBefore : Nat)
  | periph (aperture off width : Nat) (val : UInt64) (isWrite : Bool)

def Effect.compensate (e : Effect) (h : RegionHeap) : Option RegionHeap :=
  match e with
  | .store addr width old => h.compensateStore addr width old
  | .regionCreate handle oldCursor => some (h.compensateRegionCreate handle oldCursor)
  | .intern addr oldCursor => some (h.compensateIntern addr oldCursor)
  | .regionAlloc handle oldOff | .regionReset handle oldOff =>
    some (h.compensateCursor handle oldOff)
  | .regionDestroy handle saved => some (h.compensateRegionDestroy handle saved)
  | .scopedEnter addr oldCursor => some (h.compensateScoped addr oldCursor)
  | .output _ _ | .call _ _ | .periph _ _ _ _ _ => some h

/-- The heaps agree but for the order of the live ranges and the slot counter. -/
structure Same (h k : RegionHeap) : Prop where
  bytes : h.bytes = k.bytes
  cursor : h.cursor = k.cursor
  regions : h.regions = k.regions
  live : h.live.Perm k.live

namespace Same

variable {h k l : RegionHeap}

theorem refl (h : RegionHeap) : Same h h := ⟨rfl, rfl, rfl, .refl _⟩

theorem symm (s : Same h k) : Same k h := ⟨s.bytes.symm, s.cursor.symm, s.regions.symm, s.live.symm⟩

theorem trans (s : Same h k) (s' : Same k l) : Same h l :=
  ⟨s.bytes.trans s'.bytes, s.cursor.trans s'.cursor, s.regions.trans s'.regions,
    s.live.trans s'.live⟩

theorem reclaim (s : Same h k) (oldCursor : Nat) : Same (h.reclaim oldCursor) (k.reclaim oldCursor) := by
  unfold RegionHeap.reclaim
  rw [← s.cursor, ← s.bytes]
  by_cases hc : NULL_PAGE_BYTES ≤ oldCursor ∧ oldCursor ≤ h.cursor
  · rw [if_pos hc, if_pos hc]
    exact ⟨rfl, rfl, s.regions, s.live⟩
  · rw [if_neg hc, if_neg hc]
    exact s

theorem compensateStore (s : Same h k) {addr : UInt64} {width old : Nat} {h' : RegionHeap}
    (hc : h.compensateStore addr width old = some h') :
    ∃ k', k.compensateStore addr width old = some k' ∧ Same h' k' := by
  unfold RegionHeap.compensateStore RegionHeap.indexed at hc ⊢
  rw [← s.bytes]
  obtain ⟨xs, hxs, rfl⟩ := Option.map_eq_some_iff.mp hc
  rw [hxs]
  exact ⟨_, rfl, ⟨rfl, s.cursor, s.regions, s.live⟩⟩

theorem compensateCursor (s : Same h k) (handle oldOff : Nat) :
    Same (h.compensateCursor handle oldOff) (k.compensateCursor handle oldOff) := by
  unfold RegionHeap.compensateCursor
  rw [← s.regions]
  cases h.regions[handle]? with
  | none => exact s
  | some r => exact ⟨s.bytes, s.cursor, rfl, s.live⟩

theorem compensateRegionCreate (s : Same h k) (handle oldCursor : Nat) :
    Same (h.compensateRegionCreate handle oldCursor) (k.compensateRegionCreate handle oldCursor) := by
  unfold RegionHeap.compensateRegionCreate
  rw [← s.regions]
  cases h.regions[handle]? with
  | none => exact s.reclaim oldCursor
  | some r =>
    have hlive : (if r.alive then h.live.filter fun lr => lr ≠ r.range else h.live).Perm
        (if r.alive then k.live.filter fun lr => lr ≠ r.range else k.live) := by
      cases r.alive with
      | false => exact s.live
      | true => exact s.live.filter _
    have hfreed : Same
        { h with
          live := if r.alive then h.live.filter fun lr => lr ≠ r.range else h.live
          regions := h.regions.set handle Region.unused }
        { k with
          live := if r.alive then k.live.filter fun lr => lr ≠ r.range else k.live
          regions := h.regions.set handle Region.unused } :=
      ⟨s.bytes, s.cursor, rfl, hlive⟩
    exact hfreed.reclaim oldCursor

theorem compensateRegionDestroy (s : Same h k) (handle : Nat) (saved : RegionSaved) :
    Same (h.compensateRegionDestroy handle saved) (k.compensateRegionDestroy handle saved) := by
  unfold RegionHeap.compensateRegionDestroy
  rw [← s.regions]
  cases h.regions[handle]? with
  | none => exact s
  | some r =>
    refine ⟨s.bytes, s.cursor, rfl, ?_⟩
    by_cases hsize : 0 < saved.size
    · simp only [if_pos hsize]
      exact s.live.append_right _
    · simp only [if_neg hsize]
      exact s.live

theorem compensateScoped (s : Same h k) (addr oldCursor : Nat) :
    Same (h.compensateScoped addr oldCursor) (k.compensateScoped addr oldCursor) := by
  have hdropped : Same { h with live := h.live.filter fun lr => lr ≠ ⟨addr, addr + 16⟩ }
      { k with live := k.live.filter fun lr => lr ≠ ⟨addr, addr + 16⟩ } :=
    ⟨s.bytes, s.cursor, s.regions, s.live.filter _⟩
  exact hdropped.reclaim oldCursor

theorem compensateIntern (s : Same h k) (addr oldCursor : Nat) :
    Same (h.compensateIntern addr oldCursor) (k.compensateIntern addr oldCursor) := by
  have hdropped : Same { h with live := h.live.filter fun lr => lr.start ≠ addr }
      { k with live := k.live.filter fun lr => lr.start ≠ addr } :=
    ⟨s.bytes, s.cursor, s.regions, s.live.filter _⟩
  exact hdropped.reclaim oldCursor

end Same

theorem Effect.compensate_same {e : Effect} {h k h' : RegionHeap} (s : Same h k)
    (hc : e.compensate h = some h') : ∃ k', e.compensate k = some k' ∧ Same h' k' := by
  cases e with
  | store addr width old => exact s.compensateStore hc
  | regionCreate handle oldCursor =>
    cases hc
    exact ⟨_, rfl, s.compensateRegionCreate handle oldCursor⟩
  | intern addr oldCursor =>
    cases hc
    exact ⟨_, rfl, s.compensateIntern addr oldCursor⟩
  | regionAlloc handle oldOff | regionReset handle oldOff =>
    cases hc
    exact ⟨_, rfl, s.compensateCursor handle oldOff⟩
  | regionDestroy handle saved =>
    cases hc
    exact ⟨_, rfl, s.compensateRegionDestroy handle saved⟩
  | scopedEnter addr oldCursor =>
    cases hc
    exact ⟨_, rfl, s.compensateScoped addr oldCursor⟩
  | output start len | call word depthBefore | periph aperture off width val isWrite =>
    cases hc
    exact ⟨k, rfl, s⟩

def heapLog : UndoLog RegionHeap Effect where
  undo := Effect.compensate
  same := Same
  refl := Same.refl
  symm := Same.symm
  trans := Same.trans
  undo_same := Effect.compensate_same

end Tyu.Repl

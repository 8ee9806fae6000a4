import Tyu.Repl.HeapRep

/-! # The heap along the runs of a session -/

namespace Tyu.Repl

open Lib Lib.Wire

inductive HeapOp where
  | create (size : UInt64)
  | alloc (handle size : UInt64)
  | reset (handle : UInt64)
  | destroy (handle : UInt64)
  | scopedEnter (ptr len : UInt64)
  | resource
  | store (addr : UInt64) (width : UInt8) (val : Nat)

/-- The effect of an operation, if it took place, and the heap it leaves; nothing where the
access panics. -/
def HeapOp.exec (o : HeapOp) (h : RegionHeap) : Option (Option Effect × RegionHeap) :=
  match o with
  | .create size =>
    match h.regionCreate size with
    | (.ok (handle, oldCursor), h') => some (some (.regionCreate handle oldCursor), h')
    | (.error _, h') => some (none, h')
  | .alloc handle size =>
    match h.regionAlloc handle size with
    | .ok ((_, oldOff), h') => some (some (.regionAlloc handle.toNat oldOff), h')
    | .error _ => some (none, h)
  | .reset handle =>
    match h.regionReset handle with
    | .ok (oldOff, h') => some (some (.regionReset handle.toNat oldOff), h')
    | .error _ => some (none, h)
  | .destroy handle =>
    match h.regionDestroy handle with
    | .ok (saved, h') => some (some (.regionDestroy handle.toNat saved), h')
    | .error _ => some (none, h)
  | .scopedEnter ptr len =>
    match h.scopedEnter ptr len with
    | .ok ((addr, oldCursor), h') => some (some (.scopedEnter addr oldCursor), h')
    | .error _ => some (none, h)
  | .resource =>
    match h.intern [] with
    | .ok ((addr, oldCursor), h') => some (some (.intern addr oldCursor), h')
    | .error _ => some (none, h)
  | .store addr width val =>
    match h.store addr width.toNat val with
    | .ok (old, h') => some (some (.store addr width.toNat old), h')
    | .fault _ => some (none, h)
    | .panic => none

/-- The condition on an operation: a create must be `Creatable`. -/
def HeapOp.Allowed (o : HeapOp) (h : RegionHeap) : Prop :=
  match o with
  | .create size => Creatable h size
  | _ => True

/-- The effect of a change, if there is one, leads back to a heap that agrees. -/
def LeadsBack (same : RegionHeap → RegionHeap → Prop) (h : RegionHeap) (e : Option Effect)
    (h' : RegionHeap) : Prop :=
  match e with
  | none => same h h'
  | some e => ∃ k, e.compensate h' = some k ∧ same h k

theorem HeapOp.exec_spec {o : HeapOp} {h h' : RegionHeap} {e : Option Effect} (hr : Rep h)
    (ha : o.Allowed h) (hx : o.exec h = some (e, h')) : Rep h' ∧ LeadsBack Same h e h' := by
  cases o with
  | create size =>
    simp only [HeapOp.exec] at hx
    cases hc : h.regionCreate size with
    | mk res h₁ =>
      rw [hc] at hx
      cases res with
      | error f =>
        cases hx
        have hsame := same_of_create_error hc
        exact ⟨hr.of_same hsame, hsame⟩
      | ok p =>
        obtain ⟨slot, old⟩ := p
        cases hx
        obtain ⟨hcreated, rfl⟩ := created_of_ok hr ha hc
        exact ⟨hcreated.rep hr, _, rfl, hcreated.undone hr⟩
  | alloc handle size =>
    simp only [HeapOp.exec] at hx
    cases hc : h.regionAlloc handle size with
    | error f =>
      rw [hc] at hx
      cases hx
      exact ⟨hr, .refl h⟩
    | ok p =>
      obtain ⟨⟨ptr, old⟩, h₁⟩ := p
      rw [hc] at hx
      cases hx
      obtain ⟨r, off, hmoved, rfl⟩ := moved_of_alloc hc
      exact ⟨hmoved.rep hr, _, rfl, hmoved.undone⟩
  | reset handle =>
    simp only [HeapOp.exec] at hx
    cases hc : h.regionReset handle with
    | error f =>
      rw [hc] at hx
      cases hx
      exact ⟨hr, .refl h⟩
    | ok p =>
      obtain ⟨old, h₁⟩ := p
      rw [hc] at hx
      cases hx
      obtain ⟨r, hmoved, rfl⟩ := moved_of_reset hc
      exact ⟨hmoved.rep hr, _, rfl, hmoved.undone⟩
  | destroy handle =>
    simp only [HeapOp.exec] at hx
    cases hc : h.regionDestroy handle with
    | error f =>
      rw [hc] at hx
      cases hx
      exact ⟨hr, .refl h⟩
    | ok p =>
      obtain ⟨saved, h₁⟩ := p
      rw [hc] at hx
      cases hx
      obtain ⟨r, hdestroyed, rfl⟩ := destroyed_of_ok hc
      exact ⟨hdestroyed.rep hr, _, rfl, hdestroyed.undone hr⟩
  | scopedEnter ptr len =>
    simp only [HeapOp.exec] at hx
    cases hc : h.scopedEnter ptr len with
    | error f =>
      rw [hc] at hx
      cases hx
      exact ⟨hr, .refl h⟩
    | ok p =>
      obtain ⟨⟨addr, old⟩, h₁⟩ := p
      rw [hc] at hx
      cases hx
      obtain ⟨hrep, hsame⟩ := of_scopedEnter hr hc
      exact ⟨hrep, _, rfl, hsame⟩
  | resource =>
    simp only [HeapOp.exec] at hx
    cases hc : h.intern [] with
    | error f =>
      rw [hc] at hx
      cases hx
      exact ⟨hr, .refl h⟩
    | ok p =>
      obtain ⟨⟨addr, old⟩, h₁⟩ := p
      rw [hc] at hx
      cases hx
      obtain ⟨hrep, hsame⟩ := of_intern hr (by simp) hc
      exact ⟨hrep, _, rfl, hsame⟩
  | store addr width val =>
    simp only [HeapOp.exec] at hx
    cases hc : h.store addr width.toNat val with
    | fault f =>
      rw [hc] at hx
      cases hx
      exact ⟨hr, .refl h⟩
    | panic =>
      rw [hc] at hx
      cases hx
    | ok p =>
      obtain ⟨old, h₁⟩ := p
      rw [hc] at hx
      cases hx
      have hstored := stored_of_ok width.toNat_lt hc
      exact ⟨hstored.rep hr, hstored.undone⟩

/-! ## Sessions -/

/-- The heap of a session, the effects of the phrase under way, and a phrase set aside. -/
structure SessionHeap where
  heap : RegionHeap
  journal : List Effect
  suspended : Option (RegionHeap × List Effect)

inductive SessionEvent where
  | op (o : HeapOp)
  | constant (bytes : Bytes)
  | commit
  | undo
  | suspend
  | resume
  | abandon

namespace SessionHeap

def start : SessionHeap := ⟨.new, [], none⟩

/-- One event; nothing where it cannot happen or panics.  A constant is a slice of a 32-bit
address space, and one that finds no room is left out. -/
def step (s : SessionHeap) : SessionEvent → Option SessionHeap
  | .op o =>
    (o.exec s.heap).map fun r => { s with heap := r.2, journal := r.1.toList ++ s.journal }
  | .constant bytes =>
    if s.journal = [] ∧ bytes.length < 2 ^ 32 then
      match s.heap.intern bytes with
      | .ok (_, h) => some { s with heap := h }
      | .error _ => some s
    else none
  | .commit => some { s with journal := [] }
  | .undo =>
    match s.journal with
    | [] => none
    | e :: es => (e.compensate s.heap).map fun h => { s with heap := h, journal := es }
  | .suspend => some { s with suspended := some (s.heap, s.journal) }
  | .resume => s.suspended.map fun p => ⟨p.1, p.2, none⟩
  | .abandon => some { s with suspended := none }

def Allows (s : SessionHeap) : SessionEvent → Prop
  | .op o => o.Allowed s.heap
  | _ => True

end SessionHeap

def heapSystem (ok : SessionHeap → SessionEvent → Prop) : System SessionHeap where
  init s := s = .start
  step s s' := ∃ ev, ok s ev ∧ s.step ev = some s'

/-- The journal under way and the one set aside lead back through good heaps. -/
structure SessionHeap.Sound (s : SessionHeap) : Prop where
  current : heapLog.Leads Rep s.journal s.heap
  aside : ∀ p, s.suspended = some p → heapLog.Leads Rep p.2 p.1

theorem SessionHeap.sound_step {s s' : SessionHeap} {ev : SessionEvent} (hs : s.Sound)
    (ha : s.Allows ev) (hstep : s.step ev = some s') : s'.Sound := by
  have hrep : Rep s.heap := hs.current.here
  cases ev with
  | op o =>
    obtain ⟨⟨e, h'⟩, hexec, rfl⟩ := Option.map_eq_some_iff.mp hstep
    obtain ⟨hrep', hback⟩ := HeapOp.exec_spec hrep ha hexec
    refine ⟨?_, hs.aside⟩
    cases e with
    | none => exact hs.current.of_same Rep.of_same hback
    | some e =>
      obtain ⟨k, hk, hsame⟩ := hback
      exact hs.current.record Rep.of_same hrep' hk hsame
  | constant bytes =>
    simp only [step] at hstep
    split at hstep
    · rename_i hcond
      cases hi : s.heap.intern bytes with
      | error f =>
        rw [hi] at hstep
        cases hstep
        exact hs
      | ok p =>
        obtain ⟨⟨addr, old⟩, h'⟩ := p
        rw [hi] at hstep
        cases hstep
        have hrep' := (of_intern hrep (by omega) hi).1
        refine ⟨?_, hs.aside⟩
        show heapLog.Leads Rep s.journal h'
        rw [hcond.1]
        exact hrep'
    · cases hstep
  | commit =>
    cases hstep
    exact ⟨hrep, hs.aside⟩
  | undo =>
    have hcurrent := hs.current
    simp only [step] at hstep
    cases hj : s.journal with
    | nil =>
      rw [hj] at hstep
      cases hstep
    | cons e es =>
      rw [hj] at hstep hcurrent
      obtain ⟨h', hundo, rfl⟩ := Option.map_eq_some_iff.mp hstep
      obtain ⟨-, k, hk, hrest⟩ := hcurrent
      have hkh : k = h' := Option.some.inj (hk.symm.trans hundo)
      subst hkh
      exact ⟨hrest, hs.aside⟩
  | suspend =>
    cases hstep
    refine ⟨hs.current, ?_⟩
    intro p hp
    cases hp
    exact hs.current
  | resume =>
    obtain ⟨p, hp, rfl⟩ := Option.map_eq_some_iff.mp hstep
    refine ⟨hs.aside p hp, ?_⟩
    intro q hq
    cases hq
  | abandon =>
    cases hstep
    refine ⟨hs.current, ?_⟩
    intro q hq
    cases hq

theorem SessionHeap.sound_of_reachable {s : SessionHeap}
    (h : (heapSystem SessionHeap.Allows).Reachable s) : s.Sound := by
  refine h.invariant ?_ ?_
  · rintro s rfl
    refine ⟨Rep.new, ?_⟩
    intro p hp
    cases hp
  · rintro s s' hs - ⟨ev, ha, hstep⟩
    exact SessionHeap.sound_step hs ha hstep

/-! ## The representation of the heap -/

/-- At most sixteen regions are alive; the live ranges are apart and lie between the null
page and the end of the arena, which is as long as the cursor says; and every live region
has exactly one live range, which is its own. -/
structure Represents (h : RegionHeap) : Prop where
  few : (h.regions.filter fun r => r.alive).length ≤ REGION_SLOTS
  apart : h.live.Pairwise LiveRange.Apart
  inside : ∀ r ∈ h.live, NULL_PAGE_BYTES ≤ r.start ∧ r.start ≤ r.stop ∧ r.stop ≤ h.cursor
  bytes : h.bytes.length = h.cursor
  one : ∀ r ∈ h.regions, r.alive = true → h.live.count r.range = 1
  own : h.regions.Pairwise fun r s => r.alive = true → s.alive = true → r.range ≠ s.range

def FreshHandle (h : RegionHeap) (size : UInt64) : Prop :=
  ∀ slot old, (h.regionCreate size).1 = .ok (slot, old) →
    ∃ r, h.regions[slot]? = some r ∧ r.alive = false

theorem Rep.represents {h : RegionHeap} (hr : Rep h) : Represents h where
  few := by rw [← hr.slots]; exact List.length_filter_le _ _
  apart := hr.apart
  inside r hm := ⟨(hr.ranges r hm).1, (hr.ranges r hm).2.1.le, (hr.ranges r hm).2.2⟩
  bytes := hr.bytes
  one r hm halive := List.count_eq_one_of_mem hr.nodup (hr.owned r hm halive)
  own := hr.distinct

/-- A create takes a slot in use exactly when the table is full and the counter has not
caught up. -/
theorem Rep.freshHandle_iff {h : RegionHeap} (hr : Rep h) {size : UInt64}
    (hsize : size.toNat + 7 < 2 ^ 64) : FreshHandle h size ↔ ¬ TakesUsedSlot h size := by
  constructor
  · intro hfresh ⟨hall, hnext, hzero, hmax, hcap⟩
    have hfull : h.regions.findIdx? (fun r => !r.alive) = none := by
      rw [List.findIdx?_eq_none_iff]
      intro r hm
      rw [hall r hm]
      rfl
    have hcreate : (h.regionCreate size).1 = .ok (h.next, h.cursor) := by
      unfold RegionHeap.regionCreate RegionHeap.newSlot RegionHeap.reserve
      rw [if_neg hzero, hfull, if_pos hnext]
      simp only [align8_align8 hsize]
      rw [if_neg (by omega), if_neg (by omega), if_neg (by omega)]
    obtain ⟨r, hget, hdead⟩ := hfresh _ _ hcreate
    rw [hall r (List.mem_of_getElem? hget)] at hdead
    cases hdead
  · intro hused slot old hcreate
    have hok : h.regionCreate size = (.ok (slot, old), (h.regionCreate size).2) :=
      Prod.ext hcreate rfl
    obtain ⟨hc, -⟩ := created_of_ok hr ⟨hsize, hused⟩ hok
    exact ⟨_, hc.free, rfl⟩

/-- Along a run whose creates all take unused slots the heap represents its regions, and
the next create returns a fresh handle as long as it does. -/
theorem heap_represented {s : SessionHeap} (h : (heapSystem SessionHeap.Allows).Reachable s) :
    Represents s.heap ∧ ∀ size : UInt64, size.toNat + 7 < 2 ^ 64 →
      (FreshHandle s.heap size ↔ ¬ TakesUsedSlot s.heap size) := by
  have hrep := (SessionHeap.sound_of_reachable h).current.here
  exact ⟨hrep.represents, fun size hsize => hrep.freshHandle_iff hsize⟩

/-- A region of eight bytes and its descriptor, then the effect of the descriptor undone. -/
theorem one_region_represented : ∃ s : SessionHeap, s.journal.length = 1 ∧ Represents s.heap ∧
    ∀ size : UInt64, size.toNat + 7 < 2 ^ 64 →
      (FreshHandle s.heap size ↔ ¬ TakesUsedSlot s.heap size) :=
  ⟨_, rfl, heap_represented (.next (.next (.next (.start rfl) trivial
    ⟨.op (.create 8), ⟨by decide, by decide⟩, rfl⟩) trivial
    ⟨.op (.scopedEnter 4096 8), trivial, rfl⟩) trivial ⟨.undo, trivial, rfl⟩)⟩

def SessionHeap.runAll : List SessionEvent → SessionHeap → Option SessionHeap
  | [], s => some s
  | ev :: evs, s => (s.step ev).bind (runAll evs)

theorem reachable_runAll {evs : List SessionEvent} {s s' : SessionHeap}
    (hs : (heapSystem fun _ _ => True).Reachable s) (h : s.runAll evs = some s') :
    (heapSystem fun _ _ => True).Reachable s' := by
  induction evs generalizing s with
  | nil =>
    cases h
    exact hs
  | cons ev evs ih =>
    obtain ⟨s₁, hstep, hrest⟩ := Option.bind_eq_some_iff.mp h
    exact ih (.next hs trivial ⟨ev, trivial, hstep⟩) hrest

/-- With sixteen regions alive a seventeenth is created in slot zero; and a create whose
size wraps leaves, destroyed and restored, a region without its live range. -/
theorem seventeenth_region_takes_slot_zero :
    (¬ ∀ s, (heapSystem fun _ _ => True).Reachable s → ∀ size, FreshHandle s.heap size) ∧
      ¬ ∀ s, (heapSystem fun _ _ => True).Reachable s → Represents s.heap := by
  constructor
  · intro h
    obtain ⟨s, hs, hcreate, hall⟩ : ∃ s,
        SessionHeap.start.runAll (List.replicate 16 (.op (.create 8))) = some s ∧
          (s.heap.regionCreate 8).1 = .ok (0, 4096 + 16 * 8) ∧
          ∀ r ∈ s.heap.regions, r.alive = true :=
      ⟨_, rfl, by decide, by decide⟩
    obtain ⟨r, hget, hdead⟩ := h s (reachable_runAll (.start rfl) hs) 8 0 _ hcreate
    rw [hall r (List.mem_of_getElem? hget)] at hdead
    cases hdead
  · intro h
    obtain ⟨s, hs, halive, hlive⟩ : ∃ s,
        SessionHeap.start.runAll [.op (.create 18446744073709551615), .op (.destroy 0), .undo] =
            some s ∧
          (⟨4096, 0, 0, true⟩ : Region) ∈ s.heap.regions ∧ s.heap.live = [] :=
      ⟨_, rfl, by decide, by decide⟩
    have hone := (h s (reachable_runAll (.start rfl) hs)).one _ halive rfl
    rw [hlive] at hone
    cases hone

end Tyu.Repl

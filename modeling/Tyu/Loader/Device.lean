import Tyu.Lib.ByteReader
import Tyu.Lib.Runs
import Tyu.Loader.State

/-!
# The device's boot

What the firmware loads its modules from and into: the arena that their memory is taken from,
the pack of modules in the image, and the table of the board's apertures.
-/

namespace Tyu.Device

open Lib Lib.Wire Container

/-! ## The arena -/

def LOADHEAP_ALIGN : Nat := 16

def checkedAdd (w : PtrWidth) (a b : Nat) : Option Nat :=
  if a + b < w.size then some (a + b) else none

def alignUp (w : PtrWidth) (value align : Nat) : Option Nat :=
  (checkedAdd w value (align - 1)).map fun v => v / align * align

structure Arena where
  heapStart : Nat
  heapEnd : Nat
  cursor : Nat

def Arena.new (heapStart heapEnd : Nat) : Arena := { heapStart, heapEnd, cursor := heapStart }

/-- The start of a new region; every failure is the same error code. -/
def Arena.allocBump (w : PtrWidth) (a : Arena) (len : Nat) : Option (Nat × Arena) := do
  let start ← alignUp w a.cursor LOADHEAP_ALIGN
  let stop ← checkedAdd w start len
  let next ← alignUp w stop LOADHEAP_ALIGN
  if a.heapEnd < a.heapStart ∨ a.heapEnd < next then none
  else some (start, { a with cursor := next })

def Arena.mark (a : Arena) : Nat := a.cursor

def Arena.reset (a : Arena) (mark : Nat) : Arena :=
  if a.heapStart ≤ mark ∧ mark ≤ a.heapEnd then { a with cursor := mark } else a

structure Extent where
  start : Nat
  len : Nat

def Extent.stop (r : Extent) : Nat := r.start + r.len

def Extent.Apart (r s : Extent) : Prop := r.stop ≤ s.start ∨ s.stop ≤ r.start

inductive ArenaOp where
  | alloc (len : Nat)
  | mark
  | reset (i : Nat)

/-- An arena in use: the marks taken so far, and the regions handed out that no reset has given
back.  A reset gives back what lies beyond its mark. -/
structure InUse where
  arena : Arena
  marks : List Nat
  live : List Extent

def InUse.alloc (w : PtrWidth) (u : InUse) (len : Nat) : InUse :=
  match u.arena.allocBump w len with
  | none => u
  | some (start, arena) => { u with arena, live := ⟨start, len⟩ :: u.live }

def InUse.reset (u : InUse) (i : Nat) : InUse :=
  match u.marks[i]? with
  | none => u
  | some m => { u with arena := u.arena.reset m, live := u.live.filter fun r => r.stop ≤ m }

def InUse.step (w : PtrWidth) (u : InUse) : ArenaOp → InUse
  | .alloc len => u.alloc w len
  | .mark => { u with marks := u.arena.mark :: u.marks }
  | .reset i => u.reset i

def arenaSystem (w : PtrWidth) (heapStart heapEnd : Nat) : System InUse where
  init u := u = ⟨.new heapStart heapEnd, [], []⟩
  step u u' := ∃ op, u' = u.step w op

/-- The least multiple of the alignment that is not below `n`. -/
def up (n : Nat) : Nat := (n + 15) / 16 * 16

variable {w : PtrWidth} {a a' : Arena} {u : InUse} {len start lo hi : Nat}

theorem checkedAdd_eq_some {n k m : Nat} :
    checkedAdd w n k = some m ↔ n + k < w.size ∧ m = n + k := by
  unfold checkedAdd
  split
  · rename_i h
    rw [Option.some.injEq]
    exact ⟨fun heq => ⟨h, heq.symm⟩, fun heq => heq.2.symm⟩
  · rename_i h
    exact ⟨(fun heq => nomatch heq), fun heq => absurd heq.1 h⟩

theorem alignUp_eq_some {n m : Nat} :
    alignUp w n LOADHEAP_ALIGN = some m ↔ n + 15 < w.size ∧ m = up n := by
  unfold alignUp
  simp only [Option.map_eq_some_iff, checkedAdd_eq_some]
  constructor
  · rintro ⟨_, ⟨h, rfl⟩, rfl⟩
    exact ⟨h, rfl⟩
  · rintro ⟨h, rfl⟩
    exact ⟨_, ⟨h, rfl⟩, rfl⟩

theorem allocBump_eq_some : a.allocBump w len = some (start, a') ↔
    a.cursor + 15 < w.size ∧ up a.cursor + len + 15 < w.size ∧ a.heapStart ≤ a.heapEnd ∧
      up (up a.cursor + len) ≤ a.heapEnd ∧ start = up a.cursor ∧
      a' = { a with cursor := up (up a.cursor + len) } := by
  unfold Arena.allocBump
  simp only [Option.bind_eq_bind, Option.bind_eq_some_iff, alignUp_eq_some, checkedAdd_eq_some]
  constructor
  · rintro ⟨_, ⟨hcur, rfl⟩, _, ⟨-, rfl⟩, _, ⟨hnext, rfl⟩, hroom⟩
    split at hroom
    · cases hroom
    · rename_i hin
      obtain ⟨rfl, rfl⟩ := Prod.mk.inj (Option.some.inj hroom)
      exact ⟨hcur, hnext, by omega, by omega, rfl, rfl⟩
  · rintro ⟨hcur, hnext, hle, hroom, rfl, rfl⟩
    exact ⟨_, ⟨hcur, rfl⟩, _, ⟨by omega, rfl⟩, _, ⟨hnext, rfl⟩, if_neg (by omega)⟩

/-- What holds of an arena in use. -/
structure InUse.Sound (lo hi : Nat) (u : InUse) : Prop where
  bounds : u.arena.heapStart = lo ∧ u.arena.heapEnd = hi ∧ lo ≤ u.arena.cursor
  inside : lo ≤ hi → u.arena.cursor ≤ hi
  marks : ∀ m ∈ u.marks, lo ≤ m ∧ (lo ≤ hi → m ≤ hi)
  placed : ∀ r ∈ u.live, 16 ∣ r.start ∧ lo ≤ r.start ∧ r.stop ≤ u.arena.cursor ∧ r.stop ≤ hi
  apart : u.live.Pairwise Extent.Apart

theorem sound_step (h : u.Sound lo hi) (op : ArenaOp) : (u.step w op).Sound lo hi := by
  obtain ⟨hstart, hend, hcur⟩ := h.bounds
  cases op with
  | alloc len =>
    show (u.alloc w len).Sound lo hi
    unfold InUse.alloc
    cases halloc : u.arena.allocBump w len with
    | none => exact h
    | some r =>
      obtain ⟨-, -, hle, hroom, hat, hnew⟩ := allocBump_eq_some.mp halloc
      have hup : ∀ n, n ≤ up n ∧ 16 ∣ up n := fun n => ⟨by unfold up; omega, by unfold up; omega⟩
      have h₁ := hup u.arena.cursor
      have h₂ := hup (up u.arena.cursor + len)
      show InUse.Sound lo hi { u with arena := r.2, live := ⟨r.1, len⟩ :: u.live }
      rw [hat, hnew]
      refine ⟨⟨hstart, hend, ?_⟩, fun _ => ?_, h.marks, fun s hs => ?_, ?_⟩
      · show lo ≤ up (up u.arena.cursor + len)
        omega
      · show up (up u.arena.cursor + len) ≤ hi
        omega
      · show _ ∧ _ ∧ s.stop ≤ up (up u.arena.cursor + len) ∧ _
        rcases List.mem_cons.mp hs with rfl | hs
        · show 16 ∣ up u.arena.cursor ∧ lo ≤ up u.arena.cursor ∧ up u.arena.cursor + len ≤ _ ∧
            up u.arena.cursor + len ≤ hi
          omega
        · have hold := h.placed s hs
          omega
      · refine List.pairwise_cons.mpr ⟨fun s hs => .inr ?_, h.apart⟩
        have hold := h.placed s hs
        show s.stop ≤ up u.arena.cursor
        omega
  | mark =>
    refine ⟨h.bounds, h.inside, fun m hm => ?_, h.placed, h.apart⟩
    rcases List.mem_cons.mp hm with rfl | hm
    · exact ⟨hcur, h.inside⟩
    · exact h.marks m hm
  | reset i =>
    show (u.reset i).Sound lo hi
    unfold InUse.reset
    cases hget : u.marks[i]? with
    | none => exact h
    | some m =>
      have hm := h.marks m (List.mem_of_getElem? hget)
      have hlive : ∀ r ∈ u.live.filter fun r => r.stop ≤ m, r ∈ u.live ∧ r.stop ≤ m :=
        fun r hr => ⟨(List.mem_filter.mp hr).1, of_decide_eq_true (List.mem_filter.mp hr).2⟩
      show InUse.Sound lo hi { u with arena := u.arena.reset m, live := u.live.filter _ }
      unfold Arena.reset
      split
      · refine ⟨⟨hstart, hend, hm.1⟩, hm.2, h.marks, fun r hr => ?_, h.apart.filter _⟩
        have hold := h.placed r (hlive r hr).1
        exact ⟨hold.1, hold.2.1, (hlive r hr).2, hold.2.2.2⟩
      · exact ⟨h.bounds, h.inside, h.marks, fun r hr => h.placed r (hlive r hr).1,
          h.apart.filter _⟩

def InUse.allocs (w : PtrWidth) (u : InUse) (lens : List Nat) : InUse :=
  lens.foldl (fun u len => u.step w (.alloc len)) u

theorem allocs_heap (w : PtrWidth) (u : InUse) (lens : List Nat) :
    (u.allocs w lens).arena.heapStart = u.arena.heapStart ∧
      (u.allocs w lens).arena.heapEnd = u.arena.heapEnd := by
  unfold InUse.allocs
  induction lens generalizing u with
  | nil => exact ⟨rfl, rfl⟩
  | cons len lens ih =>
    have hone : (u.step w (.alloc len)).arena.heapStart = u.arena.heapStart ∧
        (u.step w (.alloc len)).arena.heapEnd = u.arena.heapEnd := by
      show (u.alloc w len).arena.heapStart = _ ∧ (u.alloc w len).arena.heapEnd = _
      unfold InUse.alloc
      cases halloc : u.arena.allocBump w len with
      | none => exact ⟨rfl, rfl⟩
      | some r =>
        obtain ⟨-, -, -, -, -, hnew⟩ := allocBump_eq_some.mp halloc
        show r.2.heapStart = _ ∧ r.2.heapEnd = _
        rw [hnew]
        exact ⟨rfl, rfl⟩
    rw [List.foldl_cons]
    exact ⟨(ih _).1.trans hone.1, (ih _).2.trans hone.2⟩

/-- In every order of allocations, marks and resets the regions in use are aligned, lie in the
heap and do not overlap; an allocation is refused exactly when it does not fit behind the cursor;
and going back to a mark undoes any number of allocations. -/
theorem arena_regions_apart (hhi : hi < w.size) (hlo : lo ≤ hi)
    (h : (arenaSystem w lo hi).Reachable u) :
    u.live.Pairwise Extent.Apart ∧
    (∀ r ∈ u.live, 16 ∣ r.start ∧ lo ≤ r.start ∧ r.stop ≤ hi) ∧
    (∀ len, u.arena.allocBump w len = none ↔ hi < up (up u.arena.cursor + len)) ∧
    ∀ lens, (u.allocs w lens).arena.reset u.arena.mark = u.arena := by
  have hs : u.Sound lo hi := by
    refine h.invariant (fun s hs => ?_) fun s s' hs _ hstep => ?_
    · rw [show s = _ from hs]
      exact ⟨⟨rfl, rfl, Nat.le_refl _⟩, id, by simp, by simp, .nil⟩
    · obtain ⟨op, rfl⟩ := hstep
      exact sound_step hs op
  obtain ⟨hstart, hend, hcur⟩ := hs.bounds
  have hcur' := hs.inside hlo
  refine ⟨hs.apart, fun r hr => ?_, fun len => ?_, fun lens => ?_⟩
  · have hr := hs.placed r hr
    exact ⟨hr.1, hr.2.1, hr.2.2.2⟩
  · have hsize : w.size = 2 ^ 32 ∨ w.size = 2 ^ 64 := by cases w <;> simp [PtrWidth.size]
    have hfit : (∃ start a', u.arena.allocBump w len = some (start, a')) ↔
        up (up u.arena.cursor + len) ≤ hi := by
      simp only [allocBump_eq_some, exists_and_left, exists_eq, and_true, hstart,
        hend]
      unfold up
      omega
    rw [← Nat.not_le, ← hfit, Option.eq_none_iff_forall_ne_some]
    exact ⟨fun hno ⟨s, a', hs⟩ => hno _ hs, fun hno r hr => hno ⟨r.1, r.2, hr⟩⟩
  · obtain ⟨hstart', hend'⟩ := allocs_heap w u lens
    unfold Arena.reset Arena.mark
    rw [if_pos ⟨by omega, by omega⟩, hstart', hend']

theorem allocs_undone :
    (((InUse.mk (.new 0 64) [] []).step .w32 (.alloc 8)).allocs .w32 [8]).arena.reset 16 =
      ⟨0, 64, 16⟩ :=
  (arena_regions_apart (by decide) (by decide) (.next (.start rfl) trivial ⟨_, rfl⟩)).2.2.2 [8]

/-! ## The pack of modules -/

def frame (lmod : Bytes) : Bytes := putLE 4 lmod.length ++ lmod

/-- The pack that the build embeds: a length and a file for each module.  On the targets with
the GNU assembler the section is filled up to a multiple of four. -/
def assembleModpack (gas : Bool) (lmods : List Bytes) : Option Bytes :=
  if lmods = [] ∨ lmods.any fun lmod => 2 ^ 32 ≤ lmod.length then none
  else
    let pack := lmods.flatMap frame
    some (pack ++ List.replicate (if gas then (4 - pack.length % 4) % 4 else 0) 0)

/-- The next module behind a position and the position behind it; the outer option is a slice
out of range. -/
def nextBlob (w : PtrWidth) (data : Bytes) (pos : Nat) : Option (Option (Bytes × Nat)) :=
  if data.length < usize w (pos + 4) then some none
  else do
    let field ← slice data pos (usize w (pos + 4))
    let pos := usize w (pos + 4)
    let stop := usize w (pos + getLE field)
    if getLE field = 0 ∨ data.length < stop then some none
    else do
      let blob ← slice data pos stop
      some (some (blob, stop))

/-- Every module that is found, in as many steps as there are bytes. -/
def blobsFrom (w : PtrWidth) (data : Bytes) : Nat → Nat → Option (List Bytes)
  | 0, _ => some []
  | n + 1, pos => do
    match ← nextBlob w data pos with
    | none => some []
    | some (blob, pos) => (blobsFrom w data n pos).map (blob :: ·)

def modpackBlobs (w : PtrWidth) (data : Bytes) : Option (List Bytes) :=
  blobsFrom w data data.length 0

variable {data front rest blob : Bytes} {pos : Nat}

/-- A length field is read at any position, and the sums do not wrap before it. -/
theorem nextBlob_frame {n : Nat} (hsize : 2 * data.length ≤ w.size) (hn : n < 2 ^ 32)
    (hdata : data = front ++ (putLE 4 n ++ rest)) : nextBlob w data front.length =
      if n = 0 ∨ data.length < usize w (front.length + 4 + n) then some none
      else (slice data (front.length + 4) (usize w (front.length + 4 + n))).map fun blob =>
        some (blob, usize w (front.length + 4 + n)) := by
  have hfield : slice data front.length (front.length + 4) = some (putLE 4 n) := by
    rw [hdata]
    exact slice_middle front (putLE 4 n) rest
  have hlen : data.length = front.length + (4 + rest.length) := by
    rw [hdata]
    simp
  have hfour : usize w (front.length + 4) = front.length + 4 := by
    have := w.le_size
    exact Nat.mod_eq_of_lt (by omega)
  unfold nextBlob
  rw [hfour, if_neg (by omega), hfield]
  show (if getLE (putLE 4 n) = 0 ∨ _ then _ else _) = _
  rw [getLE_putLE (by omega)]
  congr 1
  cases slice data (front.length + 4) (usize w (front.length + 4 + n)) <;> rfl

theorem nextBlob_short (hsize : 2 * data.length ≤ w.size) (hpos : pos ≤ data.length)
    (h : data.length < pos + 4) : nextBlob w data pos = some none := by
  have hfour : usize w (pos + 4) = pos + 4 := by
    have := w.le_size
    exact Nat.mod_eq_of_lt (by omega)
  unfold nextBlob
  rw [hfour, if_pos h]

/-- At every position there is too little for a length field, or a length field. -/
theorem frame_cases (hpos : pos ≤ data.length) : data.length < pos + 4 ∨
    ∃ front n rest, front.length = pos ∧ n < 2 ^ 32 ∧ data = front ++ (putLE 4 n ++ rest) := by
  by_cases h : data.length < pos + 4
  · exact .inl h
  · have hfield : ((data.drop pos).take 4).length = 4 := by
      rw [List.length_take, List.length_drop]
      omega
    have hlt := getLE_lt ((data.drop pos).take 4)
    have hback := putLE_getLE ((data.drop pos).take 4)
    rw [hfield] at hlt hback
    refine .inr ⟨data.take pos, getLE ((data.drop pos).take 4), (data.drop pos).drop 4,
      List.length_take_of_le hpos, by omega, ?_⟩
    rw [hback, List.take_append_drop, List.take_append_drop]

theorem nextBlob_blob (hsize : 2 * data.length ≤ w.size) (hpos : pos ≤ data.length) {p : Nat}
    (h : nextBlob w data pos = some (some (blob, p))) :
    blob ≠ [] ∧ p ≤ data.length ∧ slice data pos p = some (frame blob) := by
  rcases frame_cases hpos with hshort | ⟨front, n, rest, rfl, hn, hdata⟩
  · rw [nextBlob_short hsize hpos hshort] at h
    cases h
  · rw [nextBlob_frame hsize hn hdata] at h
    split at h
    · cases h
    · rename_i hroom
      obtain ⟨xs, hxs, heq⟩ := Option.map_eq_some_iff.mp h
      obtain ⟨rfl, rfl⟩ := Prod.mk.inj (Option.some.inj heq)
      have hle := w.le_size
      have hlen := length_slice hxs
      have hin := (slice_eq_some hxs).1
      -- a sum that wraps lies in front of the length field
      have hstop : usize w (front.length + 4 + n) = front.length + 4 + n := by
        unfold usize at hin ⊢
        apply Nat.mod_eq_of_lt
        by_contra hwrap
        rw [Nat.mod_eq_sub_mod (by omega), Nat.mod_eq_of_lt (by omega)] at hin
        omega
      rw [hstop] at hxs hlen hroom ⊢
      have hn' : xs.length = n := by omega
      refine ⟨?_, by omega, ?_⟩
      · rintro rfl
        exact hroom (.inl hn'.symm)
      · refine slice_concat ?_ hxs
        rw [hdata, hn']
        exact slice_middle front (putLE 4 n) rest

theorem blobsFrom_prefix (hsize : 2 * data.length ≤ w.size) :
    ∀ {n pos : Nat} {blobs : List Bytes}, pos ≤ data.length →
      blobsFrom w data n pos = some blobs →
      (∀ b ∈ blobs, b ≠ []) ∧ ∃ rest, data.drop pos = blobs.flatMap frame ++ rest
  | 0, pos, blobs, _, h => by
    obtain rfl := Option.some.inj h
    exact ⟨by simp, data.drop pos, rfl⟩
  | n + 1, pos, blobs, hpos, h => by
    unfold blobsFrom at h
    obtain ⟨next, hnext, h⟩ := Option.bind_eq_some_iff.mp h
    cases next with
    | none =>
      obtain rfl := Option.some.inj h
      exact ⟨by simp, data.drop pos, rfl⟩
    | some r =>
      obtain ⟨b, p⟩ := r
      obtain ⟨more, hmore, rfl⟩ := Option.map_eq_some_iff.mp h
      obtain ⟨hne, hp, hslice⟩ := nextBlob_blob hsize hpos hnext
      obtain ⟨hall, rest, hrest⟩ := blobsFrom_prefix hsize hp hmore
      refine ⟨fun b hb => ?_, rest, ?_⟩
      · rcases List.mem_cons.mp hb with rfl | hb
        · exact hne
        · exact hall b hb
      · obtain ⟨hle, -, hframe⟩ := slice_eq_some hslice
        rw [List.flatMap_cons, hframe, List.append_assoc, ← hrest]
        conv_lhs => rw [← List.take_append_drop p data]
        exact List.drop_append_of_le_length (by rw [List.length_take]; omega)

theorem blobsFrom_frames (hsize : 2 * data.length ≤ w.size) :
    ∀ {n : Nat} {front rest : Bytes} {lmods : List Bytes}, data.length ≤ front.length + n →
      (∀ lmod ∈ lmods, lmod.length < 2 ^ 32) → rest.length < 4 →
      data = front ++ (lmods.flatMap frame ++ rest) →
      blobsFrom w data n front.length = some (lmods.takeWhile (· ≠ []))
  | 0, front, rest, [], _, _, _, _ => rfl
  | 0, front, rest, lmod :: lmods, hn, _, _, hdata => by
    rw [hdata] at hn
    simp [frame] at hn
  | n + 1, front, rest, [], hn, _, hrest, hdata => by
    have hlen : data.length = front.length + rest.length := by
      rw [hdata]
      simp
    unfold blobsFrom
    rw [nextBlob_short hsize (by omega) (by omega)]
    rfl
  | n + 1, front, rest, lmod :: lmods, hn, hall, hrest, hdata => by
    have hlt := hall lmod (List.mem_cons_self ..)
    have hfield : data =
        front ++ (putLE 4 lmod.length ++ (lmod ++ (lmods.flatMap frame ++ rest))) := by
      rw [hdata, List.flatMap_cons, frame, List.append_assoc, List.append_assoc]
    have hlen : data.length =
        front.length + (4 + (lmod.length + (lmods.flatMap frame ++ rest).length)) := by
      rw [hfield]
      simp only [List.length_append, length_putLE]
    unfold blobsFrom
    rw [nextBlob_frame hsize hlt hfield]
    by_cases hnil : lmod = []
    · subst hnil
      rfl
    · have hpos := List.length_pos_iff.mpr hnil
      have hstop : usize w (front.length + 4 + lmod.length) = front.length + 4 + lmod.length :=
        Nat.mod_eq_of_lt (by omega)
      have hblob : slice data (front.length + 4) (front.length + 4 + lmod.length) =
          some lmod := by
        have hmid := slice_middle (front ++ putLE 4 lmod.length) lmod
          (lmods.flatMap frame ++ rest)
        rw [List.append_assoc, ← hfield, List.length_append, length_putLE] at hmid
        exact hmid
      have hlater : blobsFrom w data n (front ++ frame lmod).length =
          some (lmods.takeWhile (· ≠ [])) := blobsFrom_frames hsize
        (by rw [frame, List.length_append, List.length_append, length_putLE]; omega)
        (fun l hl => hall l (List.mem_cons_of_mem _ hl)) hrest
        (by rw [hdata, List.flatMap_cons, List.append_assoc, List.append_assoc])
      rw [frame, List.length_append, List.length_append, length_putLE, ← Nat.add_assoc] at hlater
      rw [hstop, if_neg (by omega), hblob, List.takeWhile_cons_of_pos (by simpa using hnil)]
      show (blobsFrom w data n _).map _ = _
      rw [hlater]
      rfl

theorem modpackBlobs_assemble {gas : Bool} {lmods : List Bytes}
    (h : assembleModpack gas lmods = some data) (hsize : 2 * data.length ≤ w.size) :
    modpackBlobs w data = some (lmods.takeWhile (· ≠ [])) := by
  unfold assembleModpack at h
  split at h
  · cases h
  · rename_i hall
    have hdata := Option.some.inj h
    rw [not_or, List.any_eq_true] at hall
    refine @blobsFrom_frames w data hsize data.length [] _ lmods (by simp) (fun l hl => ?_) ?_
      hdata.symm
    · by_contra hlong
      exact hall.2 ⟨l, hl, decide_eq_true (by omega)⟩
    · rw [List.length_replicate]
      split <;> omega

/-- The modules of a pack that the build wrote are found in their order, up to the first empty
file; and whatever bytes are read, the modules found are what their front is made of. -/
theorem modpack_read :
    (∀ gas w lmods data, assembleModpack gas lmods = some data → 2 * data.length ≤ w.size →
      modpackBlobs w data = some (lmods.takeWhile (· ≠ []))) ∧
    (∀ w data blobs, 2 * data.length ≤ w.size → modpackBlobs w data = some blobs →
      (∀ b ∈ blobs, b ≠ []) ∧ ∃ rest, data = blobs.flatMap frame ++ rest) := by
  refine ⟨fun gas w lmods data h hsize => modpackBlobs_assemble h hsize,
    fun w data blobs hsize h => ?_⟩
  obtain ⟨hall, rest, hrest⟩ := blobsFrom_prefix hsize (Nat.zero_le _) h
  exact ⟨hall, rest, hrest⟩

/-! ## The table of the board -/

inductive BoardTableError where
  | bufferTooSmall
  | truncated
  | trailingBytes
  | tooManyApertures
  | badEntry

def BOARD_TABLE_ENTRY_SIZE : Nat := 24
def BOARD_TABLE_ENCODED_SIZE : Nat := 16 + APERTURE_TABLE_CAP * BOARD_TABLE_ENTRY_SIZE

structure BoardTable where
  platformHash : UInt64
  apertures : List BoardAperture

/-- An entry with the padding behind it, which is written as zeros and not read. -/
def entryBytes (e : BoardAperture × Bytes) : Bytes :=
  put64 e.1.nameHash ++ (put32 e.1.base ++ (put32 e.1.size ++ e.1.capability :: e.2))

def tableBytes (platformHash : UInt64) (pad : Bytes) (entries : List (BoardAperture × Bytes)) :
    Bytes :=
  put64 platformHash ++ UInt8.ofNat entries.length :: (pad ++ entries.flatMap entryBytes)

def encodeInto (out : Bytes) (platformHash : UInt64) (apertures : List BoardAperture) :
    Except BoardTableError (Nat × Bytes) := do
  require (apertures.length ≤ APERTURE_TABLE_CAP) .tooManyApertures
  let total := 16 + apertures.length * BOARD_TABLE_ENTRY_SIZE
  require (total ≤ out.length) .bufferTooSmall
  let zeros := List.replicate 7 0
  pure (total, patch out 0 (tableBytes platformHash zeros (apertures.map fun a => (a, zeros))))

def readEntry : Reader BoardTableError (BoardAperture × Bytes) := do
  let nameHash ← Reader.u64
  let base ← Reader.u32
  let size ← Reader.u32
  let capability ← Reader.byte
  let pad ← Reader.take 7
  return ({ nameHash, base, size, capability }, pad)

def readTable (len : Nat) : Reader BoardTableError BoardTable := do
  Reader.require (len ≤ BOARD_TABLE_ENCODED_SIZE) .trailingBytes
  Reader.require (16 ≤ len) .truncated
  let platformHash ← Reader.u64
  let count ← Reader.byte
  Reader.require (count.toNat ≤ APERTURE_TABLE_CAP) .tooManyApertures
  Reader.require (16 + count.toNat * BOARD_TABLE_ENTRY_SIZE ≤ len) .truncated
  Reader.require (len = 16 + count.toNat * BOARD_TABLE_ENTRY_SIZE) .trailingBytes
  let _ ← Reader.take 7
  let entries ← Reader.times count.toNat readEntry
  return { platformHash, apertures := entries.map Prod.fst }

def decode (bytes : Bytes) : Except (Lib.Wire.Stop BoardTableError) BoardTable :=
  (readTable bytes.length bytes).map Prod.fst

theorem takes_entry : Reader.Takes readEntry entryBytes fun e => e.2.length = 7 := by
  intro bs e rest
  unfold readEntry
  simp only [Reader.bind_ok, Reader.u64_ok, Reader.u32_ok, Reader.byte_ok, Reader.take_ok,
    Reader.pure_ok]
  constructor
  · rintro ⟨_, _, rfl, _, _, rfl, _, _, rfl, _, _, rfl, pad, _, ⟨rfl, hlen⟩, rfl, rfl⟩
    exact ⟨hlen, by simp [entryBytes]⟩
  · rintro ⟨hlen, rfl⟩
    exact ⟨_, _, by simp [entryBytes], _, _, rfl, _, _, rfl, _, _, rfl, _, _, ⟨rfl, hlen⟩, rfl, rfl⟩

theorem length_entries {entries : List (BoardAperture × Bytes)}
    (h : ∀ e ∈ entries, e.2.length = 7) :
    (entries.flatMap entryBytes).length = entries.length * BOARD_TABLE_ENTRY_SIZE := by
  induction entries with
  | nil => rfl
  | cons e entries ih =>
    have he := h e (List.mem_cons_self ..)
    rw [List.flatMap_cons, List.length_append, ih fun e he => h e (List.mem_cons_of_mem _ he)]
    simp only [entryBytes, List.length_append, length_put64, length_put32, List.length_cons, he,
      BOARD_TABLE_ENTRY_SIZE]
    omega

/-- The bytes that are read as a table. -/
def Holds (bytes : Bytes) (t : BoardTable) : Prop :=
  t.apertures.length ≤ APERTURE_TABLE_CAP ∧ ∃ pad entries, pad.length = 7 ∧
    (∀ e ∈ entries, e.2.length = 7) ∧ entries.map Prod.fst = t.apertures ∧
    bytes = tableBytes t.platformHash pad entries

theorem decode_eq_ok {bytes : Bytes} {t : BoardTable} :
    decode bytes = .ok t ↔ Holds bytes t := by
  have hmap : decode bytes = .ok t ↔ ∃ rest, readTable bytes.length bytes = .ok (t, rest) := by
    unfold decode
    cases readTable bytes.length bytes <;> simp [Except.map, Prod.ext_iff]
  rw [hmap]
  clear hmap
  unfold readTable
  simp only [Reader.bind_ok, Reader.require_ok, Reader.u64_ok, Reader.byte_ok, Reader.take_ok,
    Reader.pure_ok, takes_entry.times _ _ _ _]
  constructor
  · rintro ⟨tail, _, _, ⟨hmax, rfl⟩, _, _, ⟨hmin, rfl⟩, hash, _, hbytes, count, _, rfl, _, _,
      ⟨hcap, rfl⟩, _, _, ⟨hle, rfl⟩, _, _, ⟨hlen, rfl⟩, pad, _, ⟨rfl, hpad⟩, entries, _,
      ⟨⟨hcount, hentries⟩, rfl⟩, rfl, rfl⟩
    have hsize := length_entries hentries
    rw [hbytes] at hlen ⊢
    simp only [List.length_append, length_put64, List.length_cons, hsize, hpad, hcount] at hlen
    obtain rfl : tail = [] := List.eq_nil_of_length_eq_zero (by omega)
    refine ⟨by rw [List.length_map, hcount]; exact hcap, pad, entries, hpad, hentries, rfl, ?_⟩
    unfold tableBytes
    rw [hcount, UInt8.ofNat_toNat, List.append_nil]
  · rintro ⟨hcap, pad, entries, hpad, hentries, hmap, rfl⟩
    rw [← hmap, List.length_map] at hcap
    have hcount : (UInt8.ofNat entries.length).toNat = entries.length := by
      rw [UInt8.toNat_ofNat']
      unfold APERTURE_TABLE_CAP at hcap
      omega
    have hlen : (tableBytes t.platformHash pad entries).length =
        16 + entries.length * BOARD_TABLE_ENTRY_SIZE := by
      unfold tableBytes
      simp only [List.length_append, length_put64, List.length_cons, length_entries hentries, hpad]
      omega
    refine ⟨[], (), _, ⟨?_, rfl⟩, (), _, ⟨by omega, rfl⟩, _, _, rfl, _, _, rfl, (), _,
      ⟨by rw [hcount]; exact hcap, rfl⟩, (), _, ⟨by rw [hcount]; omega, rfl⟩, (), _,
      ⟨by rw [hcount]; omega, rfl⟩, _, _, ⟨rfl, hpad⟩, _, _,
      ⟨⟨hcount.symm, hentries⟩, (List.append_nil _).symm⟩, by rw [hmap], rfl⟩
    rw [hlen]
    exact Nat.add_le_add_left (Nat.mul_le_mul_right _ hcap) _
theorem length_of_holds {bytes : Bytes} {t : BoardTable} (h : Holds bytes t) :
    ∃ count : UInt8, bytes[8]? = some count ∧ bytes.length = 16 + count.toNat * 24 := by
  obtain ⟨hcap, pad, entries, hpad, hentries, hmap, rfl⟩ := h
  rw [← hmap, List.length_map] at hcap
  refine ⟨UInt8.ofNat entries.length, ?_, ?_⟩
  · unfold tableBytes
    rw [List.getElem?_append_right (by simp), length_put64, Nat.sub_self, List.getElem?_cons_zero]
  · unfold tableBytes
    rw [UInt8.toNat_ofNat']
    simp only [List.length_append, length_put64, List.length_cons, length_entries hentries, hpad,
      BOARD_TABLE_ENTRY_SIZE]
    unfold APERTURE_TABLE_CAP at hcap
    omega

/-- The table of the board is read back as it was written, the rest of the buffer is left as it
is, what is accepted is a table written with any padding, and of two accepted strings neither is
a proper prefix of the other. -/
theorem board_table_exact :
    (∀ out hash apertures n out', encodeInto out hash apertures = .ok (n, out') →
      decode (out'.take n) = .ok ⟨hash, apertures⟩ ∧ out'.drop n = out.drop n) ∧
    (∀ bytes t, decode bytes = .ok t ↔ Holds bytes t) ∧
    ∀ bytes more t t', decode bytes = .ok t → decode (bytes ++ more) = .ok t' → more = [] := by
  refine ⟨fun out hash apertures n out' h => ?_, fun _ _ => decode_eq_ok,
    fun bytes more t t' h h' => ?_⟩
  · unfold encodeInto at h
    simp only [bind_eq_ok, require_eq_ok, pure_eq_ok, Prod.mk.injEq] at h
    obtain ⟨_, hcap, _, hroom, rfl, rfl⟩ := h
    have hpad : ∀ e ∈ apertures.map fun a => (a, List.replicate 7 (0 : UInt8)),
        e.2.length = 7 := by
      intro e he
      obtain ⟨a, -, rfl⟩ := List.mem_map.mp he
      rfl
    have hlen : (tableBytes hash (List.replicate 7 0)
        (apertures.map fun a => (a, List.replicate 7 0))).length =
        16 + apertures.length * BOARD_TABLE_ENTRY_SIZE := by
      unfold tableBytes
      simp only [List.length_append, length_put64, List.length_cons, length_entries hpad,
        List.length_map, List.length_replicate]
      omega
    unfold patch
    rw [List.take_zero, List.nil_append, Nat.zero_add, hlen, List.take_left' hlen,
      List.drop_left' hlen]
    refine ⟨decode_eq_ok.mpr ⟨hcap, _, _, rfl, hpad, ?_, rfl⟩, rfl⟩
    rw [List.map_map]
    exact List.map_id _
  · obtain ⟨count, hcount, hlen⟩ := length_of_holds (decode_eq_ok.mp h)
    obtain ⟨count', hcount', hlen'⟩ := length_of_holds (decode_eq_ok.mp h')
    rw [List.getElem?_append_left (by omega), hcount] at hcount'
    obtain rfl := Option.some.inj hcount'
    rw [List.length_append] at hlen'
    exact List.eq_nil_of_length_eq_zero (by omega)

end Tyu.Device

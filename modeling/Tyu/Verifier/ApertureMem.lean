import Tyu.Lib.Memory
import Tyu.Verifier.Interp

/-! # The aperture memory -/

namespace Tyu

open Lib

def wordDomain (bits : Nat) : Int × Int :=
  let b := if bits = 0 then 64 else bits
  if 64 ≤ b then (I64_MIN, I64_MAX) else (-(2 ^ (b - 1)), 2 ^ (b - 1) - 1)

def toU64 (a : Int) : Nat := (a % 2 ^ 64).toNat

structure ApertureMem where
  /-- the first and the last address of the RAM -/
  ram : Nat × Nat
  /-- what was stored where -/
  cells : List (Int × Interval)
  scripted : List (Atom × Interval)

namespace ApertureMem

def new (ram : Nat × Nat) : ApertureMem := ⟨ram, [], []⟩

def joinCell (addr : Int) (acc : Option Interval) (c : Int × Interval) : Option Interval :=
  if c.1 = addr then
    some (match acc with
      | none => c.2
      | some x => x.join c.2)
  else acc

def recordedAt (m : ApertureMem) (addr : Int) : Interval :=
  (m.cells.foldl (joinCell addr) none).getD .top

def inRam (m : ApertureMem) (a : Int) : Bool := m.ram.1 ≤ toU64 a && toU64 a ≤ m.ram.2

def load (m : ApertureMem) (addr : Interval) : Interval :=
  match addr with
  | .range lo hi => if lo = hi ∧ m.inRam lo = true then m.recordedAt lo else .top
  | _ => .top

def store (m : ApertureMem) (addr val : Interval) : ApertureMem :=
  match addr with
  | .range lo hi =>
    if lo = hi ∧ m.inRam lo = true then
      { m with cells := m.cells.filter (fun c => c.1 ≠ lo) ++ [(lo, val)] }
    else m
  | _ => m

def apertureRead (m : ApertureMem) (place : Atom) (width : Nat) : Interval :=
  match m.scripted.reverse.find? fun p => p.1 = place with
  | some p => p.2
  | none =>
    if wordDomain width = (I64_MIN, I64_MAX) then .top
    else .range (wordDomain width).1 (wordDomain width).2

end ApertureMem

instance : MemModel ApertureMem where
  load m a _ := m.load a
  store m a v := m.store a v
  apertureRead m p w := (m.apertureRead p w, m)
  apertureWrite m _ _ := m

namespace ApertureMem

variable {m : ApertureMem} {a b : Int} {val : Interval}

theorem joinCell_ne {c : Int × Interval} (h : c.1 ≠ a) (acc : Option Interval) :
    joinCell a acc c = acc := if_neg h

theorem foldl_joinCell_none {cells : List (Int × Interval)} (h : ∀ c ∈ cells, c.1 ≠ a)
    (acc : Option Interval) : cells.foldl (joinCell a) acc = acc := by
  induction cells generalizing acc with
  | nil => rfl
  | cons c cells ih =>
    rw [List.foldl_cons, joinCell_ne (h c (List.mem_cons_self ..))]
    exact ih (fun d hd => h d (List.mem_cons_of_mem _ hd)) acc

theorem foldl_joinCell_filter {cells : List (Int × Interval)} (hne : b ≠ a)
    (acc : Option Interval) :
    (cells.filter fun c => c.1 ≠ a).foldl (joinCell b) acc = cells.foldl (joinCell b) acc := by
  induction cells generalizing acc with
  | nil => rfl
  | cons c cells ih =>
    by_cases hc : c.1 = a
    · have hcb : c.1 ≠ b := fun h => hne (h.symm.trans hc)
      rw [List.filter_cons_of_neg (by simpa using hc), List.foldl_cons, joinCell_ne hcb]
      exact ih acc
    · rw [List.filter_cons_of_pos (by simpa using hc), List.foldl_cons, List.foldl_cons]
      exact ih _

def Tracks (ram : Nat × Nat) (addr : Interval) (a : Int) : Prop :=
  addr = .range a a ∧ ram.1 ≤ toU64 a ∧ toU64 a ≤ ram.2

theorem recordedAt_store_same (h : Tracks m.ram (.range a a) a) :
    (m.store (.range a a) val).recordedAt a = val := by
  have hram : m.inRam a = true := by simpa [inRam] using h.2
  have hgone : ∀ c ∈ m.cells.filter fun c => c.1 ≠ a, c.1 ≠ a := by simp
  rw [store, if_pos ⟨rfl, hram⟩, recordedAt, List.foldl_append, foldl_joinCell_none hgone]
  simp [joinCell]

theorem recordedAt_store_other {addr : Interval} (h : ¬Tracks m.ram addr b) :
    (m.store addr val).recordedAt b = m.recordedAt b := by
  unfold store
  split
  · rename_i lo hi
    split
    · rename_i hpoint
      obtain ⟨rfl, hram⟩ := hpoint
      have hne : b ≠ lo := by
        rintro rfl
        exact h ⟨rfl, by simpa [inRam] using hram⟩
      rw [recordedAt, List.foldl_append, foldl_joinCell_filter hne, List.foldl_cons,
        List.foldl_nil, joinCell_ne (Ne.symm hne)]
      rfl
    · rfl
  · rfl

theorem ram_store (addr val : Interval) : (m.store addr val).ram = m.ram := by
  unfold store
  split
  · split <;> rfl
  · rfl

end ApertureMem

/-! ## Runs beside a memory of bytes -/

def InI64 (v : Int) : Prop := I64_MIN ≤ v ∧ v ≤ I64_MAX

instance (v : Int) : Decidable (InI64 v) := inferInstanceAs (Decidable (_ ∧ _))

/-- An access through a pointer of which an interval is known, of so many bytes. -/
inductive MemAccess where
  | store (addr val : Interval) (bytes : Nat)
  | load (addr : Interval) (bytes : Nat) (signed : Bool)

def widen (bytes : Nat) (signed : Bool) (n : Nat) : Int :=
  if signed then (n : Int).bmod (256 ^ bytes) else wrapI64 n

def loadValue (m : Memory) (a : Int) (bytes : Nat) (signed : Bool) : Int :=
  widen bytes signed (m.read (toU64 a) bytes)

def readBack (bytes : Nat) (signed : Bool) (v : Int) : Int :=
  widen bytes signed (toU64 v % 256 ^ bytes)

/-- Some accesses, the latest first, have led the model and the memory here.  Each access has
picked an address, and each store a value, that its intervals allow. -/
inductive Reached (ram : Nat × Nat) (m₀ : Memory) : List MemAccess → ApertureMem → Memory → Prop
  | start : Reached ram m₀ [] (.new ram) m₀
  | store {past : List MemAccess} {σ : ApertureMem} {m : Memory} {addr val : Interval} {bytes : Nat}
      {a v : Int} (h : Reached ram m₀ past σ m) (ha : InI64 a) (haddr : addr.contains a = true)
      (hv : InI64 v) (hval : val.contains v = true) :
      Reached ram m₀ (.store addr val bytes :: past) (σ.store addr val)
        (m.write (toU64 a) bytes (toU64 v))
  | load {past : List MemAccess} {σ : ApertureMem} {m : Memory} {addr : Interval} {bytes : Nat}
      {signed : Bool} (h : Reached ram m₀ past σ m) :
      Reached ram m₀ (.load addr bytes signed :: past) σ m

/-- No choice of an address lets the store reach into the bytes from `a` on. -/
def Apart (addr : Interval) (bytes : Nat) (a : Int) (n : Nat) : Prop :=
  ∀ b, InI64 b → addr.contains b = true → toU64 b + bytes ≤ toU64 a ∨ toU64 a + n ≤ toU64 b

/-- A load at `a` is justified by the accesses before it.  When its cell comes from a store of
`val`, that is top, or the store covers the load, its values read back as values of `val`, and
the stores since then stay apart. -/
def Justified (ram : Nat × Nat) (past : List MemAccess) (a : Int) (n : Nat) (signed : Bool) : Prop :=
  ∀ later addr val bytes earlier, past = later ++ .store addr val bytes :: earlier →
    ApertureMem.Tracks ram addr a →
    (∀ addr' val' bytes', .store addr' val' bytes' ∈ later → ¬ApertureMem.Tracks ram addr' a) →
    val = .top ∨
      n ≤ bytes ∧
      (∀ v, InI64 v → val.contains v = true → val.contains (readBack n signed v) = true) ∧
      ∀ addr' val' bytes', .store addr' val' bytes' ∈ later → Apart addr' bytes' a n

section Runs

variable {ram : Nat × Nat} {m₀ m : Memory} {past : List MemAccess} {σ : ApertureMem} {a : Int}

theorem Reached.ram_eq (h : Reached ram m₀ past σ m) : σ.ram = ram := by
  induction h with
  | start => rfl
  | store _ _ _ _ _ ih => rw [ApertureMem.ram_store, ih]
  | load _ ih => exact ih

/-- Where a cell comes from: nothing is known of its address, or it holds what the latest
tracked store there has stored. -/
theorem Reached.recorded (h : Reached ram m₀ past σ m) (a : Int) :
    σ.recordedAt a = .top ∨ ∃ later addr val bytes earlier,
      past = later ++ .store addr val bytes :: earlier ∧ ApertureMem.Tracks ram addr a ∧
      (∀ addr' val' bytes', .store addr' val' bytes' ∈ later → ¬ApertureMem.Tracks ram addr' a) ∧
      σ.recordedAt a = val := by
  induction h with
  | start => exact .inl rfl
  | @store past σ m addr val bytes b v h _ _ _ _ ih =>
    by_cases htracks : ApertureMem.Tracks ram addr a
    · refine .inr ⟨[], addr, val, bytes, past, rfl, htracks, by simp, ?_⟩
      obtain ⟨rfl, hram⟩ := htracks
      rw [← h.ram_eq] at hram
      exact ApertureMem.recordedAt_store_same ⟨rfl, hram⟩
    · rw [ApertureMem.recordedAt_store_other (by rwa [h.ram_eq])]
      refine ih.imp id ?_
      rintro ⟨later, addr', val', bytes', earlier, rfl, htracked, hlater, hval⟩
      refine ⟨.store addr val bytes :: later, addr', val', bytes', earlier, rfl, htracked, ?_, hval⟩
      intro addr₁ val₁ bytes₁ hmem
      rcases List.mem_cons.mp hmem with heq | hmem
      · cases heq
        exact htracks
      · exact hlater addr₁ val₁ bytes₁ hmem
  | @load past σ m addr bytes signed _ ih =>
    refine ih.imp id ?_
    rintro ⟨later, addr', val', bytes', earlier, rfl, htracked, hlater, hval⟩
    refine ⟨.load addr bytes signed :: later, addr', val', bytes', earlier, rfl, htracked, ?_, hval⟩
    intro addr₁ val₁ bytes₁ hmem
    rcases List.mem_cons.mp hmem with heq | hmem
    · cases heq
    · exact hlater addr₁ val₁ bytes₁ hmem

theorem read_write_low (m : Memory) (a v : Nat) {n k : Nat} (h : n ≤ k) :
    (m.write a k v).read a n = v % 256 ^ n := by
  obtain ⟨d, rfl⟩ := Nat.exists_eq_add_of_le h
  rw [← Memory.write_add, Memory.read_write_of_disjoint (.inl (Nat.le_refl _)),
    Memory.read_write_same]

theorem Reached.kept {later earlier : List MemAccess} {addr val : Interval} {bytes n : Nat}
    (h : Reached ram m₀ (later ++ .store addr val bytes :: earlier) σ m)
    (htracks : ApertureMem.Tracks ram addr a) (hn : n ≤ bytes)
    (hlater : ∀ addr' val' bytes', .store addr' val' bytes' ∈ later → Apart addr' bytes' a n) :
    ∃ v, InI64 v ∧ val.contains v = true ∧ m.read (toU64 a) n = toU64 v % 256 ^ n := by
  induction later generalizing σ m with
  | nil =>
    cases h with
    | @store _ _ m _ _ _ b v h hb hab hv hval =>
      have hba : b = a := by
        rw [htracks.1, Interval.contains_range] at hab
        omega
      subst hba
      exact ⟨v, hv, hval, read_write_low m _ _ hn⟩
  | cons x later ih =>
    have hrest : ∀ addr' val' bytes', .store addr' val' bytes' ∈ later → Apart addr' bytes' a n :=
      fun addr' val' bytes' hmem => hlater addr' val' bytes' (List.mem_cons_of_mem _ hmem)
    cases h with
    | @store _ _ m addr' val' bytes' b v h hb hab _ _ =>
      have hapart := hlater addr' val' bytes' (List.mem_cons_self ..) b hb hab
      rw [Memory.read_write_of_disjoint (by omega)]
      exact ih h hrest
    | load h => exact ih h hrest

/-- **Loads.**  Whatever was stored and loaded before, a justified load answers with an
interval that the value read from memory lies in. -/
theorem load_answers {addr : Interval} {n : Nat} {signed : Bool} (h : Reached ram m₀ past σ m)
    (haddr : addr.contains a = true)
    (hjust : addr = .range a a → Justified ram past a n signed) :
    (MemModel.load σ addr (8 * n)).contains (loadValue m a n signed) = true := by
  show (σ.load addr).contains _ = true
  unfold ApertureMem.load
  split
  · rename_i lo hi
    split
    · rename_i hpoint
      obtain ⟨rfl, hram⟩ := hpoint
      have hlo : lo = a := by
        rw [Interval.contains_range] at haddr
        omega
      subst hlo
      rcases h.recorded lo with htop | ⟨later, addr', val, bytes, earlier, rfl, htracks, hlater, hval⟩
      · rw [htop]
        rfl
      · rw [hval]
        rcases hjust rfl later addr' val bytes earlier rfl htracks hlater with htop | ⟨hn, hread, hapart⟩
        · rw [htop]
          rfl
        · obtain ⟨v, hv, hin, hbytes⟩ := h.kept htracks hn hapart
          rw [loadValue, hbytes]
          exact hread v hv hin
    · rfl
  · rfl

theorem Justified.of_store {addr val : Interval} {bytes n : Nat} {signed : Bool}
    (htracks : ApertureMem.Tracks ram addr a)
    (hval : val = .top ∨ n ≤ bytes ∧
      ∀ v, InI64 v → val.contains v = true → val.contains (readBack n signed v) = true) :
    Justified ram (.store addr val bytes :: past) a n signed := by
  intro later addr' val' bytes' earlier hpast _ hlater
  cases later with
  | nil =>
    cases hpast
    exact hval.imp id fun h => ⟨h.1, h.2, by simp⟩
  | cons x later =>
    cases hpast
    exact absurd htracks (hlater addr val bytes (List.mem_cons_self ..))

theorem Justified.store {addr val : Interval} {bytes n : Nat} {signed : Bool}
    (h : Justified ram past a n signed) (htracks : ¬ApertureMem.Tracks ram addr a)
    (hapart : Apart addr bytes a n) : Justified ram (.store addr val bytes :: past) a n signed := by
  intro later addr' val' bytes' earlier hpast htracks' hlater
  cases later with
  | nil =>
    cases hpast
    exact absurd htracks' htracks
  | cons x later =>
    cases hpast
    refine (h later addr' val' bytes' earlier rfl htracks' fun addr₁ val₁ bytes₁ hmem =>
      hlater addr₁ val₁ bytes₁ (List.mem_cons_of_mem _ hmem)).imp id fun hrest => ?_
    refine ⟨hrest.1, hrest.2.1, fun addr₁ val₁ bytes₁ hmem => ?_⟩
    rcases List.mem_cons.mp hmem with heq | hmem
    · cases heq
      exact hapart
    · exact hrest.2.2 addr₁ val₁ bytes₁ hmem

theorem readBack_eight {v : Int} (h : InI64 v) (signed : Bool) : readBack 8 signed v = v := by
  obtain ⟨hlo, hhi⟩ := h
  unfold I64_MIN at hlo
  unfold I64_MAX at hhi
  have hpow : (256 : Nat) ^ 8 = 2 ^ 64 := by norm_num
  have hsmall : toU64 v % 2 ^ 64 = toU64 v := Nat.mod_eq_of_lt (by unfold toU64; omega)
  have hcast : ((toU64 v : Nat) : Int) = v % 2 ^ 64 := by unfold toU64; omega
  have hwrap : (v % 2 ^ 64).bmod (2 ^ 64) = v := by
    rw [Int.bmod_def]
    omega
  rw [readBack, widen, hpow, hsmall, hcast]
  cases signed with
  | true => exact hwrap
  | false => exact hwrap

end Runs

/-- A store at 16, and one at 24 or later. -/
theorem apart_store_answers :
    (MemModel.load (((ApertureMem.new (0, 200)).store (.range 16 16) (.range 5 6)).store
        (.range 24 100) (.range 7 7)) (.range 16 16) (8 * 8)).contains
      (loadValue (Memory.write (Memory.write (fun _ => 0) 16 8 5) 30 8 7) 16 8 true) = true := by
  have hrun : Reached (0, 200) (fun _ => 0)
      [.store (.range 24 100) (.range 7 7) 8, .store (.range 16 16) (.range 5 6) 8]
      (((ApertureMem.new (0, 200)).store (.range 16 16) (.range 5 6)).store
        (.range 24 100) (.range 7 7))
      (Memory.write (Memory.write (fun _ => 0) 16 8 5) 30 8 7) :=
    .store (a := 30) (v := 7) (.store (a := 16) (v := 5) .start (by decide) rfl (by decide) rfl)
      (by decide) rfl (by decide) rfl
  refine load_answers hrun rfl fun _ => ?_
  refine Justified.store (Justified.of_store ⟨rfl, by decide, by decide⟩ (.inr ⟨Nat.le_refl 8, ?_⟩))
    (fun h => absurd h.1 (by decide)) ?_
  · intro v hv hval
    rwa [readBack_eight hv]
  · intro b hb hmem
    rw [Interval.contains_range] at hmem
    unfold toU64
    omega

/-- A store through a pointer that may be 16 changes the bytes at 16 and not the cell: a load
answers that it reads a five, and reads a seven. -/
theorem stale_cell : ∃ σ m,
    Reached (0, 200) (fun _ => 0)
      [.store (.range 0 100) (.range 7 7) 8, .store (.range 16 16) (.range 5 5) 8] σ m ∧
    (MemModel.load σ (.range 16 16) 64).contains (loadValue m 16 8 true) = false := by
  refine ⟨_, _, .store (a := 16) (v := 7) (.store (a := 16) (v := 5) .start (by decide) rfl
    (by decide) rfl) (by decide) rfl (by decide) rfl, ?_⟩
  decide

end Tyu

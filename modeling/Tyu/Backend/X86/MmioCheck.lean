import Tyu.Backend.X86.Ops
import Tyu.Lib.Spans
import Tyu.Platform.Apertures

/-!
# The bounds check of hosted MMIO

Every access to an aperture goes to the array `__mmio_mem`, at the address that its place
computed, and a check of the address stands in front of it.
-/

namespace Tyu.X86

open Lib Platform

inductive CodegenError where
  | tooManyMmioApertures
  | noMmioAperture

inductive AsmMode where
  | executable | object

structure MmioBackend where
  mmioApertures : List MmioApertureSpec
  mmioChecksDischarged : Bool
  mode : AsmMode

namespace MmioBackend

def setMmioApertures (gen : MmioBackend) (apertures : List MmioApertureSpec) :
    Except CodegenError MmioBackend :=
  if 8 < apertures.length then .error .tooManyMmioApertures
  else .ok { gen with mmioApertures := apertures }

def emulatedApertureSize (gen : MmioBackend) : Except CodegenError UInt32 :=
  match gen.mmioApertures.find? fun w => w.kind = .emulated with
  | some w => .ok w.size
  | none => .error .noMmioAperture

def mmioApertureAddr (gen : MmioBackend) (aperture : UInt16) (offset : UInt32) :
    Except CodegenError Nat :=
  match gen.mmioApertures.find? fun w => w.id = aperture with
  | some w => .ok (satAdd U64_MAX (w.base.getD 0).toNat offset.toNat)
  | none => .error .noMmioAperture

def RUNTIME_MMIO_BYTES : Nat := 65536

/-- The bytes reserved at `__mmio_mem`. -/
def reserved (gen : MmioBackend) : Except CodegenError Nat :=
  match gen.mode with
  | .executable => gen.emulatedApertureSize.map UInt32.toNat
  | .object => .ok RUNTIME_MMIO_BYTES

end MmioBackend

inductive AccessWidth where
  | w1 | w2 | w4 | w8

def AccessWidth.bytes : AccessWidth → Nat
  | .w1 => 1
  | .w2 => 2
  | .w4 => 4
  | .w8 => 8

/-- The check of the address in `rax` against a limit; `ok` is a fresh label number. -/
def checkCode (cfg : Settings) (span : Span) (ok max : Nat) : List (Line Label Instr) :=
  asm [.cmp (.reg .rax) (.imm max)] ++
    (asm (.jcc .na (.trapOk ok) :: emitTrapWithLoc cfg (trapCodeU32 .unreachable) span) ++
      [.label (.trapOk ok)])

/-- The check in front of an access; nothing where the checks are discharged. -/
def emitMmioBoundsCheck (gen : MmioBackend) (cfg : Settings) (width : AccessWidth) (span : Span)
    (ok : Nat) : Except CodegenError (Option (List (Line Label Instr))) :=
  if gen.mmioChecksDischarged then .ok none
  else
    match gen.emulatedApertureSize with
    | .error e => .error e
    | .ok size => .ok (some (checkCode cfg span ok (size.toNat - width.bytes)))

/-! ## What the check does -/

structure Check where
  code : List (Line Label Instr)
  ok : Nat

/-- Wherever it stands, the check leaves through a trap when it is entered with this address. -/
def Check.Traps (c : Check) (rax : Word64) : Prop :=
  ∀ (E : Env) (used : Label → Prop), ¬used (.trapOk c.ok) →
    Segment (exec E) used (fun s => s.reg .rax = rax) c.code fun e _ =>
      ∃ w, e = .out w ∧ (w = .langTrap ∨ w = .langTrapLoc)

/-- Wherever it stands, the check goes on to what follows it, with the address still there. -/
def Check.Admits (c : Check) (rax : Word64) : Prop :=
  ∀ (E : Env) (used : Label → Prop), ¬used (.trapOk c.ok) →
    Segment (exec E) used (fun s => s.reg .rax = rax) c.code fun e s =>
      e = .through ∧ s.reg .rax = rax

section Check

variable {cfg : Settings} {span : Span} {ok max : Nat} {rax : Word64}

theorem checkCode_runs (hmax : imm32 max = true) {E : Env} {used : Label → Prop}
    (hok : ¬used (.trapOk ok)) :
    Segment (exec E) used (fun s => s.reg .rax = rax) (checkCode cfg span ok max) fun e s =>
      (rax.toNat ≤ max ∧ e = .through ∧ s.reg .rax = rax) ∨
        (max < rax.toNat ∧ ∃ w, e = .out w ∧ (w = .langTrap ∨ w = .langTrapLoc)) := by
  have hlt : max < 2 ^ 31 := by
    unfold imm32 at hmax
    simp only [Bool.and_eq_true, decide_eq_true_eq] at hmax
    omega
  have hlimit : (BitVec.ofInt 64 (max : Int)).toNat = max := by
    rw [BitVec.toNat_ofInt]
    omega
  have hnot : ∀ y : Word64, Cond.na.holds (rax, y) = decide (rax.toNat ≤ y.toNat) := by
    intro y
    rw [Cond.holds, BitVec.ult, Bool.eq_iff_iff]
    simp
  refine Segment.next (R := fun s => s.reg .rax = rax ∧
    s.flags = some (rax, BitVec.ofInt 64 (max : Int))) ?_ ?_
  · intro s hs
    refine ⟨{ s with flags := some (rax, BitVec.ofInt 64 (max : Int)) }, ?_, hs, rfl⟩
    simp [exec, source, hmax, hs]
  · refine Segment.over (T := fun _ => max < rax.toNat) (R := fun _ => max < rax.toNat) hok
      (not_labelled_instrs _ _) ?_ ?_ (Segment.of_each fun s hs =>
        emitTrapWithLoc_leaves.post fun e t ht => .inr ⟨hs, ?_⟩)
    · intro s hs hle
      refine ⟨s, ?_, .inl ⟨by omega, rfl, hs.1⟩⟩
      simp only [exec, hs.2, Option.map_some, hnot, hlimit]
      rw [if_pos (by simpa using hle)]
    · intro s hs hgt
      refine ⟨s, ?_, hgt⟩
      simp only [exec, hs.2, Option.map_some, hnot, hlimit]
      rw [if_neg (by simpa using hgt)]
    · obtain ⟨w, he, hw, _⟩ := ht
      exact ⟨w, he, hw⟩

theorem traps_of_lt (hmax : imm32 max = true) (h : max < rax.toNat) :
    Check.Traps ⟨checkCode cfg span ok max, ok⟩ rax := by
  intro E used hok
  refine (checkCode_runs hmax hok).post fun e s hs => ?_
  rcases hs with ⟨hle, _⟩ | ⟨_, htrap⟩
  · omega
  · exact htrap

theorem admits_of_le (hmax : imm32 max = true) (h : rax.toNat ≤ max) :
    Check.Admits ⟨checkCode cfg span ok max, ok⟩ rax := by
  intro E used hok
  refine (checkCode_runs hmax hok).post fun e s hs => ?_
  rcases hs with ⟨_, hthrough⟩ | ⟨hgt, _⟩
  · exact hthrough
  · omega

def anyEnv : Env := { writable := fun _ => false, address := fun _ => 0, call := fun _ _ => none }

def stateAt (rax : Word64) : State := { reg := fun _ => rax, flags := none, mem := fun _ => 0 }

theorem checkCode_stuck (hmax : imm32 max = false) {e : Exit Label Way} {s : State}
    (h : Leads (exec anyEnv) (checkCode cfg span ok max) (.at (checkCode cfg span ok max)
      (stateAt rax)) (e.point [] s)) : False := by
  rcases Relation.ReflTransGen.cases_head h with heq | ⟨q, hstep, _⟩
  · cases e <;> cases heq
  · simp [checkCode, asm, advance, exec, source, hmax] at hstep

theorem Check.Traps.run {c : Check} (h : c.Traps rax) : ∃ w s, Leads (exec anyEnv) c.code
    (.at c.code (stateAt rax)) (.left w s) := by
  obtain ⟨e, s, ⟨w, rfl, _⟩, hrun⟩ := h anyEnv (fun _ => False) id [] [] (stateAt rax)
    (fun _ hl => absurd hl not_labelled_nil) rfl
  rw [List.nil_append, List.append_nil] at hrun
  exact ⟨w, s, hrun⟩

theorem Check.Admits.run {c : Check} (h : c.Admits rax) : ∃ s, Leads (exec anyEnv) c.code
    (.at c.code (stateAt rax)) (.at [] s) := by
  obtain ⟨e, s, ⟨rfl, _⟩, hrun⟩ := h anyEnv (fun _ => False) id [] [] (stateAt rax)
    (fun _ hl => absurd hl not_labelled_nil) rfl
  rw [List.nil_append, List.append_nil] at hrun
  exact ⟨s, hrun⟩

theorem Check.Traps.not_admits {c : Check} (h : c.Traps rax) : ¬ c.Admits rax := by
  intro ha
  obtain ⟨w, s, hleft⟩ := h.run
  obtain ⟨s', hend⟩ := ha.run
  rcases hleft.linear hend with hrun | hrun
  · rcases Relation.ReflTransGen.cases_head hrun with heq | ⟨q, hstep, _⟩
    · cases heq
    · cases hstep
  · rcases Relation.ReflTransGen.cases_head hrun with heq | ⟨q, hstep, _⟩
    · cases heq
    · cases hstep

theorem checkCode_traps : Check.Traps ⟨checkCode cfg span ok max, ok⟩ rax ↔
    imm32 max = true ∧ max < rax.toNat := by
  constructor
  · intro h
    cases hmax : imm32 max with
    | false =>
      obtain ⟨w, s, hrun⟩ := h.run
      exact absurd (checkCode_stuck (e := .out w) hmax hrun) id
    | true =>
      refine ⟨rfl, ?_⟩
      by_contra hle
      exact h.not_admits (admits_of_le hmax (by omega))
  · intro h
    exact traps_of_lt h.1 h.2

theorem checkCode_admits : Check.Admits ⟨checkCode cfg span ok max, ok⟩ rax ↔
    imm32 max = true ∧ rax.toNat ≤ max := by
  constructor
  · intro h
    cases hmax : imm32 max with
    | false =>
      obtain ⟨s, hrun⟩ := h.run
      exact absurd (checkCode_stuck (e := .through) hmax hrun) id
    | true =>
      refine ⟨rfl, ?_⟩
      by_contra hlt
      exact (traps_of_lt hmax (by omega)).not_admits h
  · intro h
    exact admits_of_le h.1 h.2

end Check

/-! ## Places and their apertures -/

/-- The bytes of an access, counted from `__mmio_mem`. -/
def accessed (rax : Word64) (width : AccessWidth) : Set Nat := span rax.toNat width.bytes

def baseOf (w : MmioApertureSpec) : Nat := (w.base.getD 0).toNat

/-- The part of `__mmio_mem` that the places of an emulated aperture address. -/
def areaOf (w : MmioApertureSpec) : Set Nat := span (baseOf w) w.size.toNat

def ownOf (table : List MmioApertureSpec) (id : UInt16) : Option MmioApertureSpec :=
  table.find? fun w => w.id = id

def othersOf (table : List MmioApertureSpec) (id : UInt16) : List MmioApertureSpec :=
  table.eraseP fun w => w.id = id

/-- The address in `rax` for a place and what is added to it. -/
def addressOf (w : MmioApertureSpec) (offset : UInt32) (d : Word64) : Word64 :=
  BitVec.ofNat 64 (satAdd U64_MAX (baseOf w) offset.toNat) + d

def offsetOf (offset : UInt32) (d : Word64) : Word64 := BitVec.ofNat 64 offset.toNat + d

/-- For one aperture and one width the emitted check traps exactly when the access ends beyond
the aperture, and what it admits to an emulated aperture stays in the reserved bytes and out of
the other emulated apertures. -/
def BoundsExact (gen : MmioBackend) (cfg : Settings) (loc : Span) (ok : Nat) (id : UInt16)
    (width : AccessWidth) : Prop :=
  ∀ w code, ownOf gen.mmioApertures id = some w →
    emitMmioBoundsCheck gen cfg width loc ok = .ok (some code) → ∀ offset d,
      (Check.Traps ⟨code, ok⟩ (addressOf w offset d) ↔
        w.size.toNat < (offsetOf offset d).toNat + width.bytes) ∧
      (w.kind = .emulated → Check.Admits ⟨code, ok⟩ (addressOf w offset d) →
        (∀ n, gen.reserved = .ok n → accessed (addressOf w offset d) width ⊆ span 0 n) ∧
        ∀ v ∈ othersOf gen.mmioApertures id, v.kind = .emulated →
          Disjoint (accessed (addressOf w offset d) width) (areaOf v))

/-- An aperture whose check is exact: at the start of the array, not smaller than the access,
with the limit of the first emulated aperture, and with a limit that an instruction can hold. -/
def Exactly (w first : MmioApertureSpec) (width : AccessWidth) : Prop :=
  baseOf w = 0 ∧ width.bytes ≤ w.size.toNat ∧
    first.size.toNat - width.bytes = w.size.toNat - width.bytes ∧
    w.size.toNat - width.bytes < 2 ^ 31

/-- An aperture within the reserved bytes and in front of the other emulated ones. -/
def Alone (gen : MmioBackend) (id : UInt16) (w : MmioApertureSpec) : Prop :=
  (∀ n, gen.reserved = .ok n → w.size.toNat ≤ n) ∧
    ∀ v ∈ othersOf gen.mmioApertures id, v.kind = .emulated →
      v.size.toNat = 0 ∨ w.size.toNat ≤ baseOf v

section Arithmetic

variable {w : MmioApertureSpec} {offset : UInt32} {d : Word64} {width : AccessWidth}

theorem bytes_pos (width : AccessWidth) : 0 < width.bytes ∧ width.bytes ≤ 8 := by
  cases width <;> decide

theorem baseOf_lt (w : MmioApertureSpec) : baseOf w < 2 ^ 64 := (w.base.getD 0).toNat_lt

theorem addressOf_start (w : MmioApertureSpec) (d : Word64) :
    (addressOf w 0 d).toNat = (baseOf w + d.toNat) % 2 ^ 64 ∧ (offsetOf 0 d).toNat = d.toNat := by
  have hb := baseOf_lt w
  have hstart : satAdd U64_MAX (baseOf w) (0 : UInt32).toNat = baseOf w := by
    unfold satAdd U64_MAX
    rw [UInt32.toNat_zero]
    omega
  constructor
  · rw [addressOf, hstart, BitVec.toNat_add, BitVec.toNat_ofNat, Nat.mod_add_mod]
  · rw [offsetOf, UInt32.toNat_zero, BitVec.zero_add]

theorem addressOf_zero (h : baseOf w = 0) : addressOf w offset d = offsetOf offset d := by
  have ho : offset.toNat < 2 ^ 32 := offset.toNat_lt
  have hsum : satAdd U64_MAX (baseOf w) offset.toNat = offset.toNat := by
    unfold satAdd U64_MAX
    omega
  rw [addressOf, hsum, offsetOf]

/-- Two arcs of the numbers of 64 bits, one from the base on and one from zero on, are the same
only when the base is zero and they have the same end. -/
theorem arc_eq {b m n k : Nat} (hb : b < 2 ^ 64) (hm : m < 2 ^ 32) (hn : n < 2 ^ 32)
    (h : ∀ x, x < 2 ^ 64 → (m < (b + x) % 2 ^ 64 ↔ n < x + k)) : b = 0 ∧ k ≤ n ∧ m = n - k := by
  have hzero : b = 0 := by
    by_contra hne
    have hfront := h (2 ^ 64 - b) (by omega)
    have hstart := h 0 (by omega)
    have hsum : b + (2 ^ 64 - b) = 2 ^ 64 := by omega
    rw [hsum, Nat.mod_self] at hfront
    rw [Nat.add_zero, Nat.mod_eq_of_lt hb] at hstart
    omega
  subst hzero
  have hstart := h 0 (by omega)
  have hlimit := h m (by omega)
  have hlast := h (n - k) (by omega)
  rw [Nat.zero_add, Nat.zero_mod] at hstart
  rw [Nat.zero_add, Nat.mod_eq_of_lt (by omega)] at hlimit hlast
  omega

end Arithmetic

section Exact

variable {gen : MmioBackend} {cfg : Settings} {loc : Span} {ok : Nat} {id : UInt16}
  {width : AccessWidth} {w first : MmioApertureSpec}

def checkOf (cfg : Settings) (loc : Span) (ok : Nat) (first : MmioApertureSpec)
    (width : AccessWidth) : Check :=
  ⟨checkCode cfg loc ok (first.size.toNat - width.bytes), ok⟩

theorem imm32_limit (first : MmioApertureSpec) (width : AccessWidth) :
    imm32 ((first.size.toNat - width.bytes : Nat) : Int) = true ↔
      first.size.toNat - width.bytes < 2 ^ 31 := by
  unfold imm32
  simp only [Bool.and_eq_true, decide_eq_true_eq]
  omega

theorem traps_exact_iff : (∀ offset d, (checkOf cfg loc ok first width).Traps
      (addressOf w offset d) ↔ w.size.toNat < (offsetOf offset d).toNat + width.bytes) ↔
    Exactly w first width := by
  have hsize : w.size.toNat < 2 ^ 32 := w.size.toNat_lt
  have hfirst : first.size.toNat < 2 ^ 32 := first.size.toNat_lt
  obtain ⟨hpos, hle⟩ := bytes_pos width
  unfold checkOf Exactly
  simp only [checkCode_traps, imm32_limit]
  constructor
  · intro h
    have hlimit : first.size.toNat - width.bytes < 2 ^ 31 := by
      -- the last offset of all is beyond every aperture
      have hlast := h 0 (BitVec.ofNat 64 (2 ^ 64 - 1))
      rw [(addressOf_start w _).2, BitVec.toNat_ofNat] at hlast
      exact (hlast.mpr (by omega)).1
    have harc := arc_eq (m := first.size.toNat - width.bytes) (k := width.bytes) (baseOf_lt w)
        (by omega) hsize fun x hx => by
      have hx' := h 0 (BitVec.ofNat 64 x)
      rw [(addressOf_start w _).1, (addressOf_start w _).2, BitVec.toNat_ofNat,
        Nat.mod_eq_of_lt hx] at hx'
      rw [← hx', and_iff_right hlimit]
    exact ⟨harc.1, harc.2.1, harc.2.2, by omega⟩
  · intro ⟨hbase, hfit, hsame, hlimit⟩ offset d
    rw [addressOf_zero hbase]
    omega

theorem admits_exact_iff (h : Exactly w first width) (offset : UInt32) (d : Word64) :
    (checkOf cfg loc ok first width).Admits (addressOf w offset d) ↔
      (offsetOf offset d).toNat + width.bytes ≤ w.size.toNat := by
  obtain ⟨hbase, hfit, hsame, hlimit⟩ := h
  unfold checkOf
  rw [checkCode_admits, imm32_limit, addressOf_zero hbase]
  omega

theorem admitted_iff (h : Exactly w first width) :
    (∀ offset d, (checkOf cfg loc ok first width).Admits (addressOf w offset d) →
      (∀ n, gen.reserved = .ok n → accessed (addressOf w offset d) width ⊆ span 0 n) ∧
      ∀ v ∈ othersOf gen.mmioApertures id, v.kind = .emulated →
        Disjoint (accessed (addressOf w offset d) width) (areaOf v)) ↔ Alone gen id w := by
  have hsize : w.size.toNat < 2 ^ 32 := w.size.toNat_lt
  obtain ⟨hpos, _⟩ := bytes_pos width
  have hfit := h.2.1
  have hadmits : ∀ offset d, (checkOf cfg loc ok first width).Admits (offsetOf offset d) ↔
      (offsetOf offset d).toNat + width.bytes ≤ w.size.toNat := by
    intro offset d
    have hat : (checkOf cfg loc ok first width).Admits (addressOf w offset d) ↔ _ :=
      admits_exact_iff h offset d
    rwa [addressOf_zero h.1] at hat
  simp only [addressOf_zero h.1, hadmits]
  have hat : ∀ x, x + width.bytes ≤ w.size.toNat → (offsetOf 0 (BitVec.ofNat 64 x)).toNat = x := by
    intro x hx
    rw [(addressOf_start w _).2, BitVec.toNat_ofNat, Nat.mod_eq_of_lt (by omega)]
  constructor
  · intro hall
    refine ⟨fun n hn => ?_, fun v hv hkind => ?_⟩
    · have hx := hat (w.size.toNat - width.bytes) (by omega)
      have hin := (hall 0 (BitVec.ofNat 64 (w.size.toNat - width.bytes))
        (by rw [hx]; omega)).1 n hn
      have hlast : w.size.toNat - 1 ∈ accessed (offsetOf 0 (BitVec.ofNat 64
          (w.size.toNat - width.bytes))) width := by
        rw [accessed, span, hx, Set.mem_Ico]
        omega
      have := hin hlast
      rw [span, Set.mem_Ico] at this
      omega
    · by_contra hover
      rw [not_or, not_le] at hover
      obtain ⟨hne, hlt⟩ := hover
      -- the access that reaches the first byte of the other aperture
      have hx := hat (min (baseOf v) (w.size.toNat - width.bytes)) (by omega)
      have hdisj := (hall 0 (BitVec.ofNat 64 (min (baseOf v) (w.size.toNat - width.bytes)))
        (by rw [hx]; omega)).2 v hv hkind
      rw [accessed, areaOf, hx, disjoint_span hpos (by omega)] at hdisj
      omega
  · intro halone offset d hle
    refine ⟨fun n hn x hx => ?_, fun v hv hkind => ?_⟩
    · have hres := halone.1 n hn
      rw [accessed, span, Set.mem_Ico] at hx
      rw [span, Set.mem_Ico]
      omega
    · rcases halone.2 v hv hkind with hzero | hbase
      · have hempty : areaOf v = ∅ := by
          rw [areaOf, span, hzero, Set.Ico_eq_empty_iff]
          omega
        rw [hempty]
        exact Set.disjoint_empty _
      · exact disjoint_span_of_le (by omega)

theorem emit_eq {code : List (Line Label Instr)}
    (hcode : emitMmioBoundsCheck gen cfg width loc ok = .ok (some code)) :
    gen.mmioChecksDischarged = false ∧ ∃ first,
      gen.mmioApertures.find? (fun w => w.kind = .emulated) = some first ∧
      code = (checkOf cfg loc ok first width).code := by
  unfold emitMmioBoundsCheck MmioBackend.emulatedApertureSize at hcode
  cases hdis : gen.mmioChecksDischarged with
  | true =>
    rw [hdis, if_pos rfl] at hcode
    cases hcode
  | false =>
    rw [hdis, if_neg Bool.false_ne_true] at hcode
    cases hfirst : gen.mmioApertures.find? fun w => w.kind = .emulated with
    | none =>
      rw [hfirst] at hcode
      cases hcode
    | some first =>
      rw [hfirst] at hcode
      cases hcode
      exact ⟨rfl, first, rfl, rfl⟩

theorem emit_of_first (hdis : gen.mmioChecksDischarged = false)
    (hfirst : gen.mmioApertures.find? (fun w => w.kind = .emulated) = some first) :
    emitMmioBoundsCheck gen cfg width loc ok = .ok (some (checkOf cfg loc ok first width).code) := by
  unfold emitMmioBoundsCheck MmioBackend.emulatedApertureSize
  rw [hdis, if_neg Bool.false_ne_true, hfirst]
  rfl

end Exact

/-- For every table that the back end takes, the check is exact for an aperture and a width
exactly when, if a check is emitted at all, the aperture starts at zero, is not smaller than the
access, has the limit of the first emulated aperture and one below 2^31, and, if it is emulated,
lies within the reserved bytes and in front of the other emulated apertures. -/
theorem bounds_exact_iff (table : List MmioApertureSpec) (discharged : Bool) (mode : AsmMode)
    (cfg : Settings) (loc : Span) (ok : Nat) (id : UInt16) (width : AccessWidth) :
    (∀ gen, MmioBackend.setMmioApertures ⟨[], discharged, mode⟩ table = .ok gen →
      BoundsExact gen cfg loc ok id width) ↔
    (table.length ≤ 8 → discharged = false → ∀ w first, ownOf table id = some w →
      table.find? (fun v => v.kind = .emulated) = some first →
        Exactly w first width ∧ (w.kind = .emulated → Alone ⟨table, discharged, mode⟩ id w)) := by
  constructor
  · intro h hlen hdis w first hown hfirst
    have hset : MmioBackend.setMmioApertures ⟨[], discharged, mode⟩ table =
        .ok ⟨table, discharged, mode⟩ := if_neg (by omega)
    have hexact := h _ hset w _ hown (emit_of_first hdis hfirst)
    have htraps : Exactly w first width := traps_exact_iff.mp fun offset d => (hexact offset d).1
    exact ⟨htraps, fun hkind =>
      (admitted_iff htraps).mp fun offset d => (hexact offset d).2 hkind⟩
  · intro h gen hset w code hown hcode offset d
    have hlen : table.length ≤ 8 ∧ gen = ⟨table, discharged, mode⟩ := by
      unfold MmioBackend.setMmioApertures at hset
      by_cases hlong : 8 < table.length
      · rw [if_pos hlong] at hset
        cases hset
      · rw [if_neg hlong] at hset
        cases hset
        exact ⟨by omega, rfl⟩
    obtain ⟨hlen, rfl⟩ := hlen
    obtain ⟨hdis, first, hfirst, rfl⟩ := emit_eq hcode
    obtain ⟨htraps, halone⟩ := h hlen hdis w first hown hfirst
    exact ⟨traps_exact_iff.mpr htraps offset d, fun hkind =>
      (admitted_iff htraps).mpr (halone hkind) offset d⟩

def SMALL_FIRST : List MmioApertureSpec :=
  [⟨0, ⟨[], by decide⟩, .emulated, none, 16, none⟩,
    ⟨1, ⟨[], by decide⟩, .emulated, none, 64, none⟩]

def PLAIN : Settings where
  dsGuardsElided := false
  debugTrapLoc := false
  resources := []
  line := fun _ => 0
  curWordId := 0

/-- An access well inside the second aperture traps. -/
theorem small_first_traps :
    ¬ BoundsExact ⟨SMALL_FIRST, false, .executable⟩ PLAIN ⟨0, 0⟩ 0 1 .w4 := by
  intro h
  have hexact := (h ⟨1, ⟨[], by decide⟩, .emulated, none, 64, none⟩ _ rfl rfl 32 0).1
  have htrap := hexact.mp (traps_of_lt (by decide) (by decide))
  exact absurd htrap (by decide)

end Tyu.X86

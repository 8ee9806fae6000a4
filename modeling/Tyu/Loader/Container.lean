import Mathlib.Data.List.Sort
import Tyu.Lib.Wire
import Tyu.Lib.Checked

/-! # The container header and its reader -/

namespace Tyu

open Lib.Wire

def LMOD_MAGIC : UInt32 := 0x4c4d4f44
def FORMAT_VER : UInt16 := 3
def HEADER_SIZE : UInt32 := 72
def LMOD_FLAG_SIGNED : UInt16 := 1
def LMOD_FLAG_ENCRYPTED : UInt16 := 2

structure LmodHeader where
  magic : UInt32 := LMOD_MAGIC
  formatVer : UInt16 := FORMAT_VER
  flags : UInt16 := 0
  abiHash : UInt64 := 0
  totalLen : UInt32 := 0
  modinfoOff : UInt32 := HEADER_SIZE
  modinfoLen : UInt32 := 0
  codeOff : UInt32 := 0
  codeLen : UInt32 := 0
  rodataOff : UInt32 := 0
  rodataLen : UInt32 := 0
  dataOff : UInt32 := 0
  dataLen : UInt32 := 0
  bssLen : UInt32 := 0
  relocOff : UInt32 := 0
  relocCount : UInt32 := 0
  sigOff : UInt32 := 0
  sigLen : UInt32 := 0
deriving DecidableEq

def headerBytes (h : LmodHeader) : Bytes :=
  put32 h.magic ++ (put16 h.formatVer ++ (put16 h.flags ++ (put64 h.abiHash ++
    (put32 h.totalLen ++ (put32 h.modinfoOff ++ (put32 h.modinfoLen ++ (put32 h.codeOff ++
    (put32 h.codeLen ++ (put32 h.rodataOff ++ (put32 h.rodataLen ++ (put32 h.dataOff ++
    (put32 h.dataLen ++ (put32 h.bssLen ++ (put32 h.relocOff ++ (put32 h.relocCount ++
    (put32 h.sigOff ++ put32 h.sigLen))))))))))))))))

def encodeHeader (buf : Bytes) (h : LmodHeader) : Bytes := patch buf 0 (headerBytes h)

def decodeHeader (bytes : Bytes) : Option LmodHeader :=
  if bytes.length < HEADER_SIZE.toNat then none
  else do
    let magic ← u32At bytes 0
    if magic ≠ LMOD_MAGIC then none
    else
      let formatVer ← u16At bytes 4
      let flags ← u16At bytes 6
      let abiHash ← u64At bytes 8
      let totalLen ← u32At bytes 16
      let modinfoOff ← u32At bytes 20
      let modinfoLen ← u32At bytes 24
      let codeOff ← u32At bytes 28
      let codeLen ← u32At bytes 32
      let rodataOff ← u32At bytes 36
      let rodataLen ← u32At bytes 40
      let dataOff ← u32At bytes 44
      let dataLen ← u32At bytes 48
      let bssLen ← u32At bytes 52
      let relocOff ← u32At bytes 56
      let relocCount ← u32At bytes 60
      let sigOff ← u32At bytes 64
      let sigLen ← u32At bytes 68
      some { magic, formatVer, flags, abiHash, totalLen, modinfoOff, modinfoLen, codeOff, codeLen
             rodataOff, rodataLen, dataOff, dataLen, bssLen, relocOff, relocCount, sigOff, sigLen }

theorem length_headerBytes (h : LmodHeader) : (headerBytes h).length = 72 := by
  simp [headerBytes]

theorem decodeHeader_headerBytes {h : LmodHeader} (hmagic : h.magic = LMOD_MAGIC) (rest : Bytes) :
    decodeHeader (headerBytes h ++ rest) = some h := by
  have hlen : ¬ (headerBytes h ++ rest).length < HEADER_SIZE.toNat := by
    rw [List.length_append, length_headerBytes]
    show ¬ 72 + rest.length < 72
    omega
  unfold decodeHeader
  rw [if_neg hlen]
  unfold headerBytes
  simp (disch := simp) only [List.append_assoc, u16At_skip, u32At_skip, u64At_skip, length_put16,
    length_put32, length_put64, Nat.reduceSub, u16At_put, u32At_put, u64At_put, Option.bind_eq_bind,
    Option.bind_some]
  rw [if_neg (not_not_intro hmagic)]

def RELOC_ENTRY_SIZE : Nat := 16

structure RelocEntry where
  siteOff : UInt32
  symHash : UInt64
  kind : UInt8
deriving DecidableEq

def entryBytes (e : RelocEntry) : Bytes := put32 e.siteOff ++ (put64 e.symHash ++ [e.kind])

def decodeEntry (data : Bytes) (off : Nat) : Option RelocEntry :=
  if off + RELOC_ENTRY_SIZE > data.length then none
  else do
    let siteOff ← u32At data off
    let symHash ← u64At data (off + 4)
    let kind ← data[off + 12]?
    some { siteOff, symHash, kind }

theorem length_entryBytes (e : RelocEntry) : (entryBytes e).length = 13 := by
  simp [entryBytes]

/-! ## Layout -/

inductive Overflow where
  | stops
  | wraps

def addU32 (mode : Overflow) (a b : UInt32) : Option UInt32 :=
  match mode with
  | .wraps => some (a + b)
  | .stops => if a.toNat + b.toNat < 2 ^ 32 then some (a + b) else none

def mulU32 (mode : Overflow) (a b : UInt32) : Option UInt32 :=
  match mode with
  | .wraps => some (a * b)
  | .stops => if a.toNat * b.toNat < 2 ^ 32 then some (a * b) else none

/-- `(off + mask) & !mask`. -/
def alignUp (mode : Overflow) (off mask : UInt32) : Option UInt32 := do
  let up ← addU32 mode off mask
  some (up &&& ~~~mask)

structure SectionLens where
  encHeader : UInt32
  modinfo : UInt32
  code : UInt32
  rodata : UInt32
  data : UInt32
  bss : UInt32
  relocCount : UInt32

/-- The placement of the sections; there is no header where the arithmetic stops. -/
def computeLayout (mode : Overflow) (abiHash : UInt64) (lens : SectionLens) :
    Option LmodHeader := do
  let modinfoOff ← addU32 mode HEADER_SIZE lens.encHeader
  let off ← addU32 mode modinfoOff lens.modinfo
  let codeOff ← alignUp mode off 3
  let off ← addU32 mode codeOff lens.code
  let rodataOff ← alignUp mode off 7
  let off ← addU32 mode rodataOff lens.rodata
  let dataOff ← alignUp mode off 7
  let off ← addU32 mode dataOff lens.data
  let relocOff ← alignUp mode off 7
  let entries ← mulU32 mode lens.relocCount 16
  let off ← addU32 mode relocOff entries
  let sigOff ← alignUp mode off 7
  let totalLen ← addU32 mode sigOff 0
  some {
    abiHash, modinfoOff, codeOff, rodataOff, dataOff, relocOff, sigOff, totalLen
    modinfoLen := lens.modinfo
    codeLen := lens.code
    rodataLen := lens.rodata
    dataLen := lens.data
    bssLen := lens.bss
    relocCount := lens.relocCount
    sigLen := 0 }

end Tyu

/-!
## The container reader

`Container.parse` validates the ranges of a container once, so that the accessors can
index without a check.  An accessor is `none` where its index would be out of range.
Sizes are `usize` values of the width of the machine.
-/

namespace Tyu

open Lib Lib.Wire

inductive ContainerError where
  | badContainer

/-- The width of `usize` on the machines that load modules. -/
inductive PtrWidth where
  | w32
  | w64

/-- The number of `usize` values. -/
def PtrWidth.size : PtrWidth → Nat
  | .w32 => 2 ^ 32
  | .w64 => 2 ^ 64

theorem PtrWidth.le_size (w : PtrWidth) : 2 ^ 32 ≤ w.size := by
  cases w <;> decide

structure Container where
  bytes : Bytes
  hdr : LmodHeader

namespace Container

/-- `checked_add` and `checked_mul` of `usize`. -/
def checkedUsize (w : PtrWidth) (n : Nat) : Except ContainerError Nat := do
  require (n < w.size) .badContainer
  pure n

def saturatingAdd (a b : UInt32) : UInt32 :=
  if a.toNat + b.toNat < 2 ^ 32 then a + b else 0xFFFFFFFF

def checkRange (total : Nat) (off len : UInt32) : Except ContainerError Unit :=
  if len = 0 then pure ()
  else do
    require (off.toNat + len.toNat < 2 ^ 32) .badContainer
    require (off.toNat + len.toNat ≤ total) .badContainer
    require (HEADER_SIZE ≤ off) .badContainer

def checkTail (w : PtrWidth) (total : Nat) (off : UInt32) (len : Nat) : Except ContainerError Unit :=
  if len = 0 then pure ()
  else do
    let stop ← checkedUsize w (off.toNat + len)
    require (stop ≤ total) .badContainer
    require (HEADER_SIZE ≤ off) .badContainer

/-- The start and the end of each range; the signature trailer is not among them. -/
def ranges (hdr : LmodHeader) (relocBytes : Nat) : List (UInt32 × UInt32) :=
  [(0, HEADER_SIZE),
    (hdr.modinfoOff, saturatingAdd hdr.modinfoOff hdr.modinfoLen),
    (hdr.codeOff, saturatingAdd hdr.codeOff hdr.codeLen),
    (hdr.rodataOff, saturatingAdd hdr.rodataOff hdr.rodataLen),
    (hdr.dataOff, saturatingAdd hdr.dataOff hdr.dataLen),
    (hdr.relocOff, saturatingAdd hdr.relocOff (UInt32.ofNat relocBytes))]

/-- The insertion sort by start: each range moves left past the ones that start later. The
sorted part is kept in reverse. -/
def sortRanges (rs : List (UInt32 × UInt32)) : List (UInt32 × UInt32) :=
  (rs.foldl (fun sorted r => sorted.orderedInsert (fun a b => b.1 ≤ a.1) r) []).reverse

/-- Each range ends before the next one starts; a range at zero is taken to be empty. -/
def monotone : List (UInt32 × UInt32) → Bool
  | [] => true
  | [_] => true
  | a :: b :: rest => !(b.1 < a.2 && a.2 != 0 && b.1 != 0) && monotone (b :: rest)

def parse (w : PtrWidth) (data : Bytes) : Except ContainerError Container := do
  require (HEADER_SIZE.toNat ≤ data.length) .badContainer
  let hdr ← expect (decodeHeader data) .badContainer
  require (hdr.magic = LMOD_MAGIC) .badContainer
  require (hdr.formatVer = FORMAT_VER) .badContainer
  let total := hdr.totalLen.toNat
  require (total = data.length) .badContainer
  checkRange total hdr.modinfoOff hdr.modinfoLen
  checkRange total hdr.codeOff hdr.codeLen
  checkRange total hdr.rodataOff hdr.rodataLen
  checkRange total hdr.dataOff hdr.dataLen
  let relocBytes ← checkedUsize w (hdr.relocCount.toNat * RELOC_ENTRY_SIZE)
  checkTail w total hdr.relocOff relocBytes
  checkTail w total hdr.sigOff hdr.sigLen.toNat
  require (monotone (sortRanges (ranges hdr relocBytes)) = true) .badContainer
  require (relocBytes = 0 ∨ hdr.relocOff.toNat + relocBytes ≤ total) .badContainer
  pure { bytes := data, hdr }

/-- A `usize` sum, which wraps. -/
def usize (w : PtrWidth) (n : Nat) : Nat := n % w.size

def sectionBytes (c : Container) (w : PtrWidth) (off len : UInt32) : Option Bytes :=
  if len = 0 then some []
  else slice c.bytes off.toNat (usize w (off.toNat + len.toNat))

def modinfo (c : Container) (w : PtrWidth) : Option Bytes :=
  c.sectionBytes w c.hdr.modinfoOff c.hdr.modinfoLen

def code (c : Container) (w : PtrWidth) : Option Bytes :=
  c.sectionBytes w c.hdr.codeOff c.hdr.codeLen

def rodata (c : Container) (w : PtrWidth) : Option Bytes :=
  c.sectionBytes w c.hdr.rodataOff c.hdr.rodataLen

def data (c : Container) (w : PtrWidth) : Option Bytes :=
  c.sectionBytes w c.hdr.dataOff c.hdr.dataLen

/-- One entry of the relocation table; `none` from its end on. -/
def relocEntry (c : Container) (w : PtrWidth) (index : UInt32) : Option RelocEntry :=
  if index ≥ c.hdr.relocCount then none
  else decodeEntry c.bytes
    (usize w (c.hdr.relocOff.toNat + index.toNat * RELOC_ENTRY_SIZE))

/-- The entries from `index` on, as the iterator hands them out. -/
def relocFrom (c : Container) (w : PtrWidth) : Nat → UInt32 → List RelocEntry
  | 0, _ => []
  | n + 1, index =>
    match c.relocEntry w index with
    | some e => e :: c.relocFrom w n (index + 1)
    | none => []

def relocIter (c : Container) (w : PtrWidth) : List RelocEntry :=
  c.relocFrom w (c.hdr.relocCount.toNat + 1) 0

def relocRaw (c : Container) (w : PtrWidth) : Option Bytes :=
  let n := usize w (c.hdr.relocCount.toNat * RELOC_ENTRY_SIZE)
  if n = 0 then some []
  else slice c.bytes c.hdr.relocOff.toNat (usize w (c.hdr.relocOff.toNat + n))

theorem checkRange_eq_ok {total : Nat} {off len : UInt32} {u : Unit} :
    checkRange total off len = .ok u ↔
      (len ≠ 0 → off.toNat + len.toNat < 2 ^ 32 ∧ off.toNat + len.toNat ≤ total ∧
        HEADER_SIZE ≤ off) := by
  unfold checkRange
  by_cases h : len = 0
  · rw [if_pos h]
    exact ⟨fun _ hne => absurd h hne, fun _ => rfl⟩
  · rw [if_neg h]
    simp only [bind_eq_ok, require_eq_ok]
    constructor
    · intro ⟨_, hsum, _, htotal, hstart⟩ _
      exact ⟨hsum, htotal, hstart⟩
    · intro hall
      obtain ⟨hsum, htotal, hstart⟩ := hall h
      exact ⟨⟨⟩, hsum, ⟨⟩, htotal, hstart⟩

theorem checkTail_eq_ok {w : PtrWidth} {total : Nat} {off : UInt32} {len : Nat} {u : Unit} :
    checkTail w total off len = .ok u ↔
      (len ≠ 0 → off.toNat + len < w.size ∧ off.toNat + len ≤ total ∧ HEADER_SIZE ≤ off) := by
  unfold checkTail checkedUsize
  by_cases h : len = 0
  · rw [if_pos h]
    exact ⟨fun _ hne => absurd h hne, fun _ => rfl⟩
  · rw [if_neg h]
    simp only [bind_eq_ok, require_eq_ok, pure_eq_ok]
    constructor
    · intro ⟨stop, ⟨_, hsum, hstop⟩, _, htotal, hstart⟩ _
      subst hstop
      exact ⟨hsum, htotal, hstart⟩
    · intro hall
      obtain ⟨hsum, htotal, hstart⟩ := hall h
      exact ⟨_, ⟨⟨⟩, hsum, rfl⟩, ⟨⟩, htotal, hstart⟩

structure Checked (w : PtrWidth) (data : Bytes) (hdr : LmodHeader) : Prop where
  header : decodeHeader data = some hdr
  magic : hdr.magic = LMOD_MAGIC
  formatVer : hdr.formatVer = FORMAT_VER
  total : hdr.totalLen.toNat = data.length
  headerFits : HEADER_SIZE.toNat ≤ data.length
  modinfo : checkRange data.length hdr.modinfoOff hdr.modinfoLen = .ok ()
  code : checkRange data.length hdr.codeOff hdr.codeLen = .ok ()
  rodata : checkRange data.length hdr.rodataOff hdr.rodataLen = .ok ()
  dataSection : checkRange data.length hdr.dataOff hdr.dataLen = .ok ()
  relocBytes : hdr.relocCount.toNat * RELOC_ENTRY_SIZE < w.size
  reloc : checkTail w data.length hdr.relocOff
    (hdr.relocCount.toNat * RELOC_ENTRY_SIZE) = .ok ()
  sig : checkTail w data.length hdr.sigOff hdr.sigLen.toNat = .ok ()
  monotone : Container.monotone
    (sortRanges (ranges hdr (hdr.relocCount.toNat * RELOC_ENTRY_SIZE))) = true

theorem parse_eq_ok {w : PtrWidth} {data : Bytes} {c : Container} :
    parse w data = .ok c ↔ c.bytes = data ∧ Checked w data c.hdr := by
  unfold parse checkedUsize
  simp only [bind_eq_ok, pure_eq_ok, require_eq_ok, expect_eq_ok]
  constructor
  · intro ⟨_, hfits, hdr, hdecode, _, hmagic, _, hver, _, htotal, _, hmodinfo, _, hcode, _, hrodata,
      _, hdata, n, ⟨_, hbytes, hn⟩, _, hreloc, _, hsig, _, hmono, _, _, hc⟩
    subst hn
    subst hc
    rw [htotal] at hmodinfo hcode hrodata hdata hreloc hsig
    exact ⟨rfl, hdecode, hmagic, hver, htotal, hfits, hmodinfo, hcode, hrodata, hdata, hbytes,
      hreloc, hsig, hmono⟩
  · intro ⟨hdata, h⟩
    have hlast := checkTail_eq_ok.mp h.reloc
    refine ⟨⟨⟩, h.headerFits, c.hdr, h.header, ⟨⟩, h.magic, ⟨⟩, h.formatVer, ⟨⟩, h.total, ⟨⟩, ?_, ⟨⟩,
      ?_, ⟨⟩, ?_, ⟨⟩, ?_, _, ⟨⟨⟩, h.relocBytes, rfl⟩, ⟨⟩, ?_, ⟨⟩, ?_, ⟨⟩, h.monotone, ⟨⟩, ?_, ?_⟩
    · rw [h.total]; exact h.modinfo
    · rw [h.total]; exact h.code
    · rw [h.total]; exact h.rodata
    · rw [h.total]; exact h.dataSection
    · rw [h.total]; exact h.reloc
    · rw [h.total]; exact h.sig
    · rw [h.total]
      by_cases hn : c.hdr.relocCount.toNat * RELOC_ENTRY_SIZE = 0
      · exact .inl hn
      · exact .inr (hlast hn).2.1
    · rw [← hdata]

theorem sortRanges_perm (rs : List (UInt32 × UInt32)) : (sortRanges rs).Perm rs := by
  have hfold : ∀ rs acc : List (UInt32 × UInt32),
      (rs.foldl (fun sorted r => sorted.orderedInsert (fun a b => b.1 ≤ a.1) r) acc).Perm
        (rs ++ acc) := by
    intro rs
    induction rs with
    | nil => exact fun acc => .refl _
    | cons r rs ih =>
      intro acc
      refine (ih _).trans ?_
      refine ((List.perm_orderedInsert _ r acc).append_left rs).trans ?_
      exact List.perm_middle
  have h := hfold rs []
  rw [List.append_nil] at h
  exact (List.reverse_perm _).trans h

theorem sortRanges_sorted (rs : List (UInt32 × UInt32)) :
    (sortRanges rs).Pairwise fun a b => a.1 ≤ b.1 := by
  have hfold : ∀ rs acc : List (UInt32 × UInt32), acc.Pairwise (fun a b => b.1 ≤ a.1) →
      (rs.foldl (fun sorted r => sorted.orderedInsert (fun a b => b.1 ≤ a.1) r) acc).Pairwise
        (fun a b => b.1 ≤ a.1) := by
    intro rs
    induction rs with
    | nil => exact fun acc h => h
    | cons r rs ih =>
      intro acc h
      have : Std.Total fun a b : UInt32 × UInt32 => b.1 ≤ a.1 := ⟨fun a b => UInt32.le_total _ _⟩
      have : IsTrans (UInt32 × UInt32) fun a b => b.1 ≤ a.1 :=
        ⟨fun a b c hab hbc => UInt32.le_trans hbc hab⟩
      exact ih _ (h.orderedInsert r acc)
  unfold sortRanges
  rw [List.pairwise_reverse]
  exact hfold rs [] .nil

end Container

end Tyu

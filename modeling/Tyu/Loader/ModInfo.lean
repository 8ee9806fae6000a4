import Tyu.Loader.Container

/-! # The module information -/

namespace Tyu

open Lib.Wire Container

/-! ## Reads -/

/-- A reader of bytes that it does not trust.  The outer option is empty where an index is
out of range, which stops the program; the inner one where the reader declines. -/
abbrev Read := OptionT Option

namespace Read

variable {α : Type}

def index (o : Option α) : Read α := OptionT.lift o

def decline : Read α := OptionT.mk (some none)

def orDecline (o : Option α) : Read α := OptionT.mk (some o)

variable {β : Type}

theorem bind_eq_some {x : Read α} {f : α → Read β} {b : β} :
    (x >>= f).run = some (some b) ↔ ∃ a, x.run = some (some a) ∧ (f a).run = some (some b) := by
  rw [OptionT.run_bind]
  rcases x.run with _ | _ | a
  · simp [Option.elimM]
  · simp [Option.elimM]
  · simp [Option.elimM]

theorem index_eq_some {o : Option α} {a : α} : (index o).run = some (some a) ↔ o = some a := by
  cases o with
  | none =>
    constructor
    · intro h
      cases h
    · intro h
      cases h
  | some b =>
    show some (some b) = some (some a) ↔ some b = some a
    rw [Option.some.injEq]

theorem orDecline_eq_some {o : Option α} {a : α} :
    (orDecline o).run = some (some a) ↔ o = some a := by
  show some o = some (some a) ↔ o = some a
  rw [Option.some.injEq]

theorem unless_eq_some {c : Prop} [Decidable c] {x : Read α} {a : α} :
    (if c then decline else x).run = some (some a) ↔ ¬ c ∧ x.run = some (some a) := by
  by_cases hc : c
  · rw [if_pos hc]
    constructor
    · intro h
      cases h
    · exact fun h => absurd hc h.1
  · rw [if_neg hc]
    exact ⟨fun h => ⟨hc, h⟩, fun h => h.2⟩

theorem pure_eq_some {a b : α} : (pure a : Read α).run = some (some b) ↔ a = b := by
  show some (some a) = some (some b) ↔ a = b
  rw [Option.some.injEq, Option.some.injEq]

def Total (x : Read α) : Prop := x.run ≠ none

theorem total_pure (a : α) : Total (pure a) := fun h => nomatch h

theorem total_decline : Total (decline : Read α) := fun h => nomatch h

theorem total_orDecline (o : Option α) : Total (orDecline o) := fun h => nomatch h

theorem total_index {o : Option α} (h : o.isSome = true) : Total (index o) := by
  obtain ⟨a, ha⟩ := Option.isSome_iff_exists.mp h
  subst ha
  exact fun h => nomatch h

theorem total_bind {x : Read α} {f : α → Read β} (hx : Total x)
    (hf : ∀ a, x.run = some (some a) → Total (f a)) : Total (x >>= f) := by
  unfold Total at *
  rw [OptionT.run_bind]
  revert hx hf
  rcases x.run with _ | _ | a
  · exact fun hx _ => absurd rfl hx
  · exact fun _ _ h => nomatch h
  · exact fun _ hf => hf a rfl

end Read

/-- `checked_add` and `checked_mul` of `usize`. -/
def checkedUsizeRead (w : PtrWidth) (n : Nat) : Read Nat :=
  if n < w.size then pure n else Read.decline

theorem total_checkedUsizeRead (w : PtrWidth) (n : Nat) : (checkedUsizeRead w n).Total := by
  unfold checkedUsizeRead
  split
  · exact Read.total_pure n
  · exact Read.total_decline

theorem checkedUsizeRead_eq_some {w : PtrWidth} {n m : Nat} :
    (checkedUsizeRead w n).run = some (some m) ↔ n < w.size ∧ n = m := by
  unfold checkedUsizeRead
  by_cases h : n < w.size
  · rw [if_pos h]
    simp [h]
  · rw [if_neg h]
    constructor
    · intro hm
      cases hm
    · exact fun hm => absurd hm.1 h

def MODINFO_VER : UInt16 := 4
def MODINFO_HEADER_SIZE : Nat := 48
def EXPORT_ENTRY_SIZE : Nat := 16
def IMPORT_ENTRY_SIZE : Nat := 12
def WORD_META_SIZE : Nat := 16
def RES_META_SIZE : Nat := 16
def APERTURE_USE_ENTRY_SIZE : Nat := 16
def MODINFO_FLAG_HAS_ISR : UInt16 := 1

structure ModInfo where
  moduleName : Bytes
  moduleNameOff : UInt32
  moduleNameLen : UInt32
  exportCount : UInt32
  importCount : UInt32
  abiHash : UInt64
  flags : UInt16
  modinfoVer : UInt16
  apertureCount : UInt32
  resMetaCount : UInt32
  platformHash : UInt64

def ModInfo.hasIsr (mi : ModInfo) : Bool := mi.flags &&& MODINFO_FLAG_HAS_ISR != 0

def ModInfo.decode (w : PtrWidth) (data : Bytes) : Read ModInfo := do
  if data.length < MODINFO_HEADER_SIZE then Read.decline
  else
    let magic ← Read.index (u32At data 0)
    if magic ≠ LMOD_MAGIC then Read.decline
    else
      let modinfoVer ← Read.index (u16At data 4)
      let flags ← Read.index (u16At data 6)
      let abiHash ← Read.index (u64At data 8)
      let nameOff ← Read.index (u32At data 16)
      let nameLen ← Read.index (u32At data 20)
      let exportCount ← Read.index (u32At data 24)
      let importCount ← Read.index (u32At data 28)
      let apertureCount ← Read.index (u16At data 32)
      let resMetaCount ← Read.index (u16At data 34)
      let platformHash ← Read.index (u64At data 36)
      let nameEnd := usize w (nameOff.toNat + nameLen.toNat)
      if nameEnd > data.length then Read.decline
      else
        let moduleName ← Read.index (slice data nameOff.toNat nameEnd)
        pure {
          moduleName, exportCount, importCount, abiHash, flags, modinfoVer, platformHash
          moduleNameOff := nameOff
          moduleNameLen := nameLen
          apertureCount := apertureCount.toUInt32
          resMetaCount := resMetaCount.toUInt32 }

/-! ## The tables -/

/-- `(n + 3) & !3` -/
def padFour (w : PtrWidth) (n : Nat) : Nat := usize w (n + 3) / 4 * 4

/-- The offset behind `n` names, each of which ends with a zero byte. -/
def skipNames (data : Bytes) : Nat → Nat → Option Nat
  | 0, off => some off
  | n + 1, off =>
    match (data.drop off).findIdx? (· == 0) with
    | some i => skipNames data n (off + i + 1)
    | none => none

def exportEntriesOffset (w : PtrWidth) (data : Bytes) : Read Nat := do
  let hdr ← ModInfo.decode w data
  let off := padFour w (usize w (MODINFO_HEADER_SIZE + hdr.moduleNameLen.toNat))
  let off ← Read.orDecline (skipNames data hdr.exportCount.toNat off)
  let off ← Read.orDecline (skipNames data hdr.importCount.toNat (padFour w off))
  let off := padFour w off
  let size ← checkedUsizeRead w (hdr.exportCount.toNat * EXPORT_ENTRY_SIZE)
  let entriesEnd ← checkedUsizeRead w (off + size)
  if entriesEnd > data.length then Read.decline else pure off

structure ParsedExport where
  symHash : UInt64
  name : Bytes
  valueOff : UInt32

def readExport (w : PtrWidth) (data : Bytes) (index : UInt32) : Read ParsedExport := do
  let hdr ← ModInfo.decode w data
  if index ≥ hdr.exportCount then Read.decline
  else
    let entriesOff ← exportEntriesOffset w data
    let entryOff := usize w (entriesOff + index.toNat * EXPORT_ENTRY_SIZE)
    let symHash ← Read.index (u64At data entryOff)
    let nameOff ← Read.index (u32At data (entryOff + 8))
    let valueOff ← Read.index (u32At data (entryOff + 12))
    if nameOff.toNat ≥ data.length then Read.decline
    else pure { symHash, valueOff, name := (data.drop nameOff.toNat).takeWhile (· != 0) }

structure ResMetaEntry where
  resHash : UInt64
  sharingClass : UInt8
  lockPrim : UInt32

def resMetaOffset (w : PtrWidth) (data : Bytes) : Read Nat := do
  let hdr ← ModInfo.decode w data
  let exportsOff ← exportEntriesOffset w data
  let size ← checkedUsizeRead w (hdr.exportCount.toNat * EXPORT_ENTRY_SIZE)
  let importsOff ← checkedUsizeRead w (exportsOff + size)
  let size ← checkedUsizeRead w (hdr.importCount.toNat * IMPORT_ENTRY_SIZE)
  let wordMetaOff ← checkedUsizeRead w (importsOff + size)
  let size ← checkedUsizeRead w (hdr.exportCount.toNat * WORD_META_SIZE)
  let wordMetaEnd ← checkedUsizeRead w (wordMetaOff + size)
  let size ← checkedUsizeRead w (hdr.resMetaCount.toNat * RES_META_SIZE)
  let resMetaEnd ← checkedUsizeRead w (wordMetaEnd + size)
  if resMetaEnd > data.length then Read.decline else pure wordMetaEnd

def readResMeta (w : PtrWidth) (data : Bytes) (index : UInt32) : Read ResMetaEntry := do
  let hdr ← ModInfo.decode w data
  if index ≥ hdr.resMetaCount then Read.decline
  else
    let entriesOff ← resMetaOffset w data
    let entryOff := usize w (entriesOff + index.toNat * RES_META_SIZE)
    let resHash ← Read.index (u64At data entryOff)
    let sharingClass ← Read.index data[entryOff + 8]?
    let lockPrim ← Read.index (u32At data (entryOff + 12))
    pure { resHash, sharingClass, lockPrim }

theorem total_exportEntriesOffset {w : PtrWidth} {data : Bytes}
    (h : (ModInfo.decode w data).Total) : (exportEntriesOffset w data).Total := by
  unfold exportEntriesOffset
  refine Read.total_bind h fun hdr _ => ?_
  refine Read.total_bind (Read.total_orDecline _) fun off _ => ?_
  refine Read.total_bind (Read.total_orDecline _) fun off _ => ?_
  refine Read.total_bind (total_checkedUsizeRead _ _) fun size _ => ?_
  refine Read.total_bind (total_checkedUsizeRead _ _) fun entriesEnd _ => ?_
  split
  · exact Read.total_decline
  · exact Read.total_pure _

theorem total_resMetaOffset {w : PtrWidth} {data : Bytes}
    (h : (ModInfo.decode w data).Total) : (resMetaOffset w data).Total := by
  unfold resMetaOffset
  refine Read.total_bind h fun hdr _ => ?_
  refine Read.total_bind (total_exportEntriesOffset h) fun exportsOff _ => ?_
  refine Read.total_bind (total_checkedUsizeRead _ _) fun _ _ => ?_
  refine Read.total_bind (total_checkedUsizeRead _ _) fun _ _ => ?_
  refine Read.total_bind (total_checkedUsizeRead _ _) fun _ _ => ?_
  refine Read.total_bind (total_checkedUsizeRead _ _) fun _ _ => ?_
  refine Read.total_bind (total_checkedUsizeRead _ _) fun _ _ => ?_
  refine Read.total_bind (total_checkedUsizeRead _ _) fun _ _ => ?_
  refine Read.total_bind (total_checkedUsizeRead _ _) fun _ _ => ?_
  refine Read.total_bind (total_checkedUsizeRead _ _) fun resMetaEnd _ => ?_
  split
  · exact Read.total_decline
  · exact Read.total_pure _

theorem resMetaOffset_bounds {w : PtrWidth} {data : Bytes} {hdr : ModInfo} {off : Nat}
    (hdecode : (ModInfo.decode w data).run = some (some hdr))
    (h : (resMetaOffset w data).run = some (some off)) :
    off + hdr.resMetaCount.toNat * RES_META_SIZE < w.size ∧
      off + hdr.resMetaCount.toNat * RES_META_SIZE ≤ data.length := by
  unfold resMetaOffset at h
  simp only [Read.bind_eq_some, checkedUsizeRead_eq_some] at h
  obtain ⟨hdr', hhdr, exportsOff, _, size₁, _, importsOff, _, size₂, _, wordMetaOff, _, size₃, _,
    wordMetaEnd, _, size₄, ⟨_, hsize₄⟩, resMetaEnd, ⟨hlt, hsum⟩, h⟩ := h
  rw [hdecode] at hhdr
  cases hhdr
  subst hsize₄
  subst hsum
  by_cases hlen : wordMetaEnd + hdr.resMetaCount.toNat * RES_META_SIZE > data.length
  · rw [if_pos hlen] at h
    cases h
  · rw [if_neg hlen] at h
    cases h
    exact ⟨hlt, Nat.le_of_not_lt hlen⟩

theorem total_readResMeta {w : PtrWidth} {data : Bytes} {hdr : ModInfo}
    (hdecode : (ModInfo.decode w data).run = some (some hdr)) (index : UInt32) :
    (readResMeta w data index).Total := by
  have htotal : (ModInfo.decode w data).Total := by
    unfold Read.Total
    rw [hdecode]
    exact fun h => nomatch h
  unfold readResMeta
  refine Read.total_bind htotal fun hdr' hhdr => ?_
  rw [hdecode] at hhdr
  cases hhdr
  by_cases hindex : index ≥ hdr.resMetaCount
  · rw [if_pos hindex]
    exact Read.total_decline
  · rw [if_neg hindex]
    refine Read.total_bind (total_resMetaOffset htotal) fun off hoff => ?_
    obtain ⟨hsize, hlen⟩ := resMetaOffset_bounds hdecode hoff
    have hlt : index.toNat < hdr.resMetaCount.toNat := by
      rw [← UInt32.lt_iff_toNat_lt]
      exact UInt32.not_le.mp hindex
    have hentry : off + index.toNat * RES_META_SIZE + 16 ≤
        off + hdr.resMetaCount.toNat * RES_META_SIZE := by
      show off + index.toNat * 16 + 16 ≤ off + hdr.resMetaCount.toNat * 16
      omega
    have husize : usize w (off + index.toNat * RES_META_SIZE) =
        off + index.toNat * RES_META_SIZE := Nat.mod_eq_of_lt (by omega)
    rw [husize]
    refine Read.total_bind (Read.total_index (isSome_u64At.mpr (by omega))) fun _ _ => ?_
    refine Read.total_bind (Read.total_index ?_) fun _ _ => ?_
    · rw [List.getElem?_eq_getElem (by omega)]
      rfl
    · refine Read.total_bind (Read.total_index (isSome_u32At.mpr (by omega))) fun _ _ => ?_
      exact Read.total_pure _

structure ApertureUseEntry where
  nameHash : UInt64
  size : UInt32
  apertureId : UInt16
  accessMask : UInt8

def apertureUseOffset (w : PtrWidth) (data : Bytes) : Read Nat := do
  let hdr ← ModInfo.decode w data
  let resMetaStart ← resMetaOffset w data
  let size ← checkedUsizeRead w (hdr.resMetaCount.toNat * RES_META_SIZE)
  let start ← checkedUsizeRead w (resMetaStart + size)
  let size ← checkedUsizeRead w (hdr.apertureCount.toNat * APERTURE_USE_ENTRY_SIZE)
  let stop ← checkedUsizeRead w (start + size)
  if stop > data.length then Read.decline else pure start

def readApertureUse (w : PtrWidth) (data : Bytes) (index : UInt32) : Read ApertureUseEntry := do
  let hdr ← ModInfo.decode w data
  if index ≥ hdr.apertureCount then Read.decline
  else
    let entriesOff ← apertureUseOffset w data
    let entryOff := usize w (entriesOff + index.toNat * APERTURE_USE_ENTRY_SIZE)
    let nameHash ← Read.index (u64At data entryOff)
    let size ← Read.index (u32At data (entryOff + 8))
    let apertureId ← Read.index (u16At data (entryOff + 12))
    let accessMask ← Read.index data[entryOff + 14]?
    pure { nameHash, size, apertureId, accessMask }

structure ExportEntry where
  symHash : UInt64
  name : Bytes
  effects : UInt16
  requiresCaps : UInt16
  stackBound : UInt32

structure ImportEntry where
  symHash : UInt64
  name : Bytes

def padZeros (bytes : Bytes) : Bytes :=
  bytes ++ List.replicate ((4 - bytes.length % 4) % 4) 0

def placeNames : List Bytes → Nat → List (Nat × Bytes)
  | [], _ => []
  | name :: rest, off => (off, name ++ [0]) :: placeNames rest (off + name.length + 1)

/-- The bytes of a section, for a buffer of `cap` bytes.  An export's value is the offset of
its word's entry. -/
def ModInfo.encodeInto (cap : Nat) (moduleName : Bytes) (exports : List ExportEntry)
    (imports : List ImportEntry) (abiHash : UInt64) (flags : UInt16)
    (resMetas : List ResMetaEntry) (platformHash : UInt64)
    (apertures : List ApertureUseEntry) : Option Bytes :=
  if exports.length > 64 ∨ imports.length > 64 ∨ apertures.length > 8 then none
  else
    let header := put32 LMOD_MAGIC ++ put16 MODINFO_VER ++ put16 flags ++ put64 abiHash ++
      put32 (UInt32.ofNat MODINFO_HEADER_SIZE) ++ put32 (UInt32.ofNat moduleName.length) ++
      put32 (UInt32.ofNat exports.length) ++ put32 (UInt32.ofNat imports.length) ++
      put16 (UInt16.ofNat apertures.length) ++ put16 (UInt16.ofNat resMetas.length) ++
      put64 platformHash ++ [0, 0, 0, 0]
    let start := padZeros (header ++ moduleName)
    let exportNames := placeNames (exports.map (·.name)) start.length
    let middle := padZeros (start ++ (exportNames.map (·.2)).flatten)
    let importNames := placeNames (imports.map (·.name)) middle.length
    let names := padZeros (middle ++ (importNames.map (·.2)).flatten)
    let wordMetaBase := names.length + exports.length * EXPORT_ENTRY_SIZE +
      imports.length * IMPORT_ENTRY_SIZE
    let exportEntries := (exports.zip exportNames).mapIdx fun i (e, off, _) =>
      put64 e.symHash ++ put32 (UInt32.ofNat off) ++
        put32 (UInt32.ofNat (wordMetaBase + i * WORD_META_SIZE))
    let importEntries := (imports.zip importNames).map fun (e, off, _) =>
      put64 e.symHash ++ put32 (UInt32.ofNat off)
    let wordMetas := exports.map fun e =>
      put64 e.symHash ++ put16 e.effects ++ put16 e.requiresCaps ++ put32 e.stackBound
    let resEntries := resMetas.map fun r =>
      put64 r.resHash ++ [r.sharingClass, 0, 0, 0] ++ put32 r.lockPrim
    let apertureEntries := apertures.map fun a =>
      put64 a.nameHash ++ put32 a.size ++ put16 a.apertureId ++ [a.accessMask, 0]
    let bytes := names ++ exportEntries.flatten ++ importEntries.flatten ++ wordMetas.flatten ++
      resEntries.flatten ++ apertureEntries.flatten
    if bytes.length > cap then none else some bytes

end Tyu

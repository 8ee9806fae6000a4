import Tyu.Lib.Cursor
import Tyu.Loader.Load

/-!
# The module information, written and read

The writer lays the names and the tables of a module one behind the other; every reader finds its
table again, and every entry.
-/

namespace Tyu

open Lib Lib.Wire Container

structure ModDesc where
  moduleName : Bytes
  exports : List ExportEntry
  imports : List ImportEntry
  abiHash : UInt64
  flags : UInt16
  resMetas : List ResMetaEntry
  platformHash : UInt64
  apertures : List ApertureUseEntry

namespace ModDesc

variable (d : ModDesc)

def encode (cap : Nat) : Option Bytes :=
  ModInfo.encodeInto cap d.moduleName d.exports d.imports d.abiHash d.flags d.resMetas
    d.platformHash d.apertures

def header : Bytes :=
  put32 LMOD_MAGIC ++ (put16 MODINFO_VER ++ (put16 d.flags ++ (put64 d.abiHash ++
    (put32 (UInt32.ofNat MODINFO_HEADER_SIZE) ++ (put32 (UInt32.ofNat d.moduleName.length) ++
      (put32 (UInt32.ofNat d.exports.length) ++ (put32 (UInt32.ofNat d.imports.length) ++
        (put16 (UInt16.ofNat d.apertures.length) ++ (put16 (UInt16.ofNat d.resMetas.length) ++
          (put64 d.platformHash ++ [0, 0, 0, 0]))))))))))

def nameBytes (names : List Bytes) : Bytes := names.flatMap (· ++ [0])

def start : Bytes := padZeros (d.header ++ d.moduleName)

def middle : Bytes := padZeros (d.start ++ nameBytes (d.exports.map (·.name)))

def names : Bytes := padZeros (d.middle ++ nameBytes (d.imports.map (·.name)))

def wordMetaBase : Nat :=
  d.names.length + d.exports.length * EXPORT_ENTRY_SIZE + d.imports.length * IMPORT_ENTRY_SIZE

def exportEntries : List Bytes :=
  (d.exports.zip (placeNames (d.exports.map (·.name)) d.start.length)).mapIdx fun i (e, off, _) =>
    put64 e.symHash ++ put32 (UInt32.ofNat off) ++
      put32 (UInt32.ofNat (d.wordMetaBase + i * WORD_META_SIZE))

def importEntries : List Bytes :=
  (d.imports.zip (placeNames (d.imports.map (·.name)) d.middle.length)).map fun (e, off, _) =>
    put64 e.symHash ++ put32 (UInt32.ofNat off)

def wordMetas : List Bytes := d.exports.map fun e =>
  put64 e.symHash ++ put16 e.effects ++ put16 e.requiresCaps ++ put32 e.stackBound

def resEntries : List Bytes := d.resMetas.map fun r =>
  put64 r.resHash ++ [r.sharingClass, 0, 0, 0] ++ put32 r.lockPrim

def apertureEntries : List Bytes := d.apertures.map fun a =>
  put64 a.nameHash ++ put32 a.size ++ put16 a.apertureId ++ [a.accessMask, 0]

def block : Bytes :=
  d.names ++ (d.exportEntries.flatten ++ (d.importEntries.flatten ++ (d.wordMetas.flatten ++
    (d.resEntries.flatten ++ d.apertureEntries.flatten))))

end ModDesc

theorem flatten_placeNames (names : List Bytes) (off : Nat) :
    ((placeNames names off).map (·.2)).flatten = ModDesc.nameBytes names := by
  induction names generalizing off with
  | nil => rfl
  | cons name rest ih =>
    rw [placeNames, List.map_cons, List.flatten_cons, ih, ModDesc.nameBytes, ModDesc.nameBytes,
      List.flatMap_cons]

theorem ModDesc.encode_eq_some {d : ModDesc} {cap : Nat} {block : Bytes}
    (h : d.encode cap = some block) :
    d.exports.length ≤ 64 ∧ d.imports.length ≤ 64 ∧ d.apertures.length ≤ 8 ∧ block = d.block := by
  unfold encode ModInfo.encodeInto at h
  by_cases hcounts : d.exports.length > 64 ∨ d.imports.length > 64 ∨ d.apertures.length > 8
  · rw [if_pos hcounts] at h
    cases h
  rw [if_neg hcounts] at h
  dsimp only at h
  rw [Option.ite_none_left_eq_some] at h
  obtain ⟨-, h⟩ := h
  refine ⟨by omega, by omega, by omega, ?_⟩
  rw [← Option.some.inj h]
  simp only [flatten_placeNames, List.append_assoc]
  rfl

namespace ModDesc

variable {d : ModDesc} {w : PtrWidth} {data rest : Bytes}

def decoded (d : ModDesc) : ModInfo where
  moduleName := d.moduleName
  moduleNameOff := UInt32.ofNat MODINFO_HEADER_SIZE
  moduleNameLen := UInt32.ofNat d.moduleName.length
  exportCount := UInt32.ofNat d.exports.length
  importCount := UInt32.ofNat d.imports.length
  abiHash := d.abiHash
  flags := d.flags
  modinfoVer := MODINFO_VER
  apertureCount := (UInt16.ofNat d.apertures.length).toUInt32
  resMetaCount := (UInt16.ofNat d.resMetas.length).toUInt32
  platformHash := d.platformHash

theorem length_header (d : ModDesc) : d.header.length = 48 := by
  unfold header
  simp only [List.length_append, length_put16, length_put32, length_put64, List.length_cons,
    List.length_nil]

theorem decode_written (h : data = d.header ++ (d.moduleName ++ rest))
    (hsize : data.length < 2 ^ 32) : (ModInfo.decode w data).run = some (some d.decoded) := by
  have hlen := congrArg List.length h
  rw [List.length_append, List.length_append, d.length_header] at hlen
  have hw := w.le_size
  have hnameLen : (UInt32.ofNat d.moduleName.length).toNat = d.moduleName.length := by
    rw [UInt32.toNat_ofNat', Nat.mod_eq_of_lt (by omega)]
  have hslice : slice data 48 (48 + d.moduleName.length) = some d.moduleName := by
    have hbehind := Behind.append d.header (d.moduleName ++ rest)
    rw [← h, d.length_header] at hbehind
    exact hbehind.slice
  have hmagic : Behind data 0 (d.header ++ (d.moduleName ++ rest)) := by
    rw [← h]
    exact .start data
  unfold header at hmagic
  simp only [List.append_assoc] at hmagic
  have hver := hmagic.skip32
  have hflags := hver.skip16
  have habi := hflags.skip16
  have hoff := habi.skip64
  have hname := hoff.skip32
  have hexports := hname.skip32
  have himports := hexports.skip32
  have hapertures := himports.skip32
  have hres := hapertures.skip16
  have hplatform := hres.skip16
  unfold ModInfo.decode
  rw [if_neg (by show ¬ data.length < 48; omega), hmagic.u32]
  refine Read.bind_eq_some.mpr ⟨_, rfl, ?_⟩
  rw [if_neg (not_not_intro rfl), hver.u16]
  refine Read.bind_eq_some.mpr ⟨_, rfl, ?_⟩
  rw [hflags.u16]
  refine Read.bind_eq_some.mpr ⟨_, rfl, ?_⟩
  rw [habi.u64]
  refine Read.bind_eq_some.mpr ⟨_, rfl, ?_⟩
  rw [hoff.u32]
  refine Read.bind_eq_some.mpr ⟨_, rfl, ?_⟩
  rw [hname.u32]
  refine Read.bind_eq_some.mpr ⟨_, rfl, ?_⟩
  rw [hexports.u32]
  refine Read.bind_eq_some.mpr ⟨_, rfl, ?_⟩
  rw [himports.u32]
  refine Read.bind_eq_some.mpr ⟨_, rfl, ?_⟩
  rw [hapertures.u16]
  refine Read.bind_eq_some.mpr ⟨_, rfl, ?_⟩
  rw [hres.u16]
  refine Read.bind_eq_some.mpr ⟨_, rfl, ?_⟩
  rw [hplatform.u64]
  refine Read.bind_eq_some.mpr ⟨_, rfl, ?_⟩
  have hend : usize w ((UInt32.ofNat MODINFO_HEADER_SIZE).toNat +
      (UInt32.ofNat d.moduleName.length).toNat) = 48 + d.moduleName.length := by
    rw [hnameLen]
    exact Nat.mod_eq_of_lt (by show 48 + _ < _; omega)
  dsimp only
  rw [hend, if_neg (by omega)]
  have hslice' : slice data (UInt32.ofNat MODINFO_HEADER_SIZE).toNat (48 + d.moduleName.length) =
      some d.moduleName := hslice
  rw [hslice']
  exact Read.bind_eq_some.mpr ⟨_, rfl, rfl⟩

theorem length_padZeros (bytes : Bytes) :
    (padZeros bytes).length = (bytes.length + 3) / 4 * 4 := by
  unfold padZeros
  rw [List.length_append, List.length_replicate]
  omega

theorem padFour_padZeros {bytes : Bytes} (h : (padZeros bytes).length < 2 ^ 32) :
    padFour w bytes.length = (padZeros bytes).length := by
  have hw := w.le_size
  rw [length_padZeros] at h ⊢
  unfold padFour
  rw [usize, Nat.mod_eq_of_lt (by omega)]

theorem padZeros_prefix (bytes : Bytes) : bytes <+: padZeros bytes := List.prefix_append _ _

theorem skipNames_written {names : List Bytes} {off : Nat}
    (hnul : ∀ name ∈ names, (0 : UInt8) ∉ name)
    (h : Behind data off (nameBytes names ++ rest)) :
    skipNames data names.length off = some (off + (nameBytes names).length) := by
  induction names generalizing off with
  | nil => rfl
  | cons name tail ih =>
    unfold nameBytes at h
    rw [List.flatMap_cons, List.append_assoc] at h
    have hfind : (data.drop off).findIdx? (· == 0) = some name.length := by
      rw [h.2, List.append_assoc, List.findIdx?_append]
      have hnone : name.findIdx? (· == (0 : UInt8)) = none := by
        rw [List.findIdx?_eq_none_iff]
        intro b hb
        have hne : b ≠ 0 := fun hzero => hnul name List.mem_cons_self (hzero ▸ hb)
        simpa using hne
      rw [hnone, List.singleton_append, List.findIdx?_cons]
      simp
    have hskip := h.skip
    rw [List.length_append, List.length_singleton, ← Nat.add_assoc] at hskip
    rw [List.length_cons, skipNames, hfind]
    show skipNames data tail.length (off + name.length + 1) = _
    rw [ih (fun n hn => hnul n (List.mem_cons_of_mem _ hn)) hskip, nameBytes, nameBytes,
      List.flatMap_cons, List.length_append, List.length_append, List.length_singleton]
    congr 1
    omega

theorem name_written {names : List Bytes} {off i : Nat} {name : Bytes}
    (hi : names[i]? = some name) (h : Behind data off (nameBytes names ++ rest)) :
    ∃ at', (placeNames names off)[i]? = some (at', name ++ [0]) ∧
      ∃ rest', Behind data at' (name ++ (0 :: rest')) := by
  induction i generalizing names off with
  | zero =>
    obtain ⟨tail, rfl⟩ := List.head?_eq_some_iff.mp (List.head?_eq_getElem?.trans hi)
    unfold nameBytes at h
    rw [List.flatMap_cons, List.append_assoc, List.append_assoc] at h
    exact ⟨off, rfl, _, h⟩
  | succ i ih =>
    cases names with
    | nil => cases hi
    | cons first tail =>
      unfold nameBytes at h
      rw [List.flatMap_cons, List.append_assoc] at h
      have hskip := h.skip
      rw [List.length_append, List.length_singleton, ← Nat.add_assoc] at hskip
      exact ih hi hskip

theorem takeWhile_name {name : Bytes} {off : Nat} (hnul : (0 : UInt8) ∉ name)
    (h : Behind data off (name ++ (0 :: rest))) :
    (data.drop off).takeWhile (· != 0) = name := by
  rw [h.2, List.takeWhile_append_of_pos]
  · simp
  · intro b hb
    have hne : b ≠ 0 := fun hzero => hnul (hzero ▸ hb)
    simpa using hne

/-! ## The tables -/

structure Within (d : ModDesc) : Prop where
  exports : d.exports.length ≤ 64
  imports : d.imports.length ≤ 64
  resMetas : d.resMetas.length < 2 ^ 16
  apertures : d.apertures.length ≤ 8
  exportNames : ∀ e ∈ d.exports, (0 : UInt8) ∉ e.name
  importNames : ∀ e ∈ d.imports, (0 : UInt8) ∉ e.name
  size : d.block.length < 2 ^ 32

theorem length_placeNames (names : List Bytes) (off : Nat) :
    (placeNames names off).length = names.length := by
  induction names generalizing off with
  | nil => rfl
  | cons name rest ih => rw [placeNames, List.length_cons, List.length_cons, ih]

theorem length_exportEntries (d : ModDesc) : d.exportEntries.length = d.exports.length := by
  unfold exportEntries
  rw [List.length_mapIdx, List.length_zip, length_placeNames, List.length_map, Nat.min_self]

theorem length_importEntries (d : ModDesc) : d.importEntries.length = d.imports.length := by
  unfold importEntries
  rw [List.length_map, List.length_zip, length_placeNames, List.length_map, Nat.min_self]

theorem size_exportEntries (d : ModDesc) : ∀ e ∈ d.exportEntries, e.length = EXPORT_ENTRY_SIZE := by
  intro e he
  obtain ⟨i, hi, rfl⟩ := List.mem_mapIdx.mp he
  simp only [List.length_append, length_put64, length_put32]
  rfl

theorem size_importEntries (d : ModDesc) : ∀ e ∈ d.importEntries, e.length = IMPORT_ENTRY_SIZE := by
  intro e he
  obtain ⟨p, hp, rfl⟩ := List.mem_map.mp he
  simp only [List.length_append, length_put64, length_put32]
  rfl

theorem size_wordMetas (d : ModDesc) : ∀ e ∈ d.wordMetas, e.length = WORD_META_SIZE := by
  intro e he
  obtain ⟨p, hp, rfl⟩ := List.mem_map.mp he
  simp only [List.length_append, length_put64, length_put32, length_put16]
  rfl

theorem size_resEntries (d : ModDesc) : ∀ e ∈ d.resEntries, e.length = RES_META_SIZE := by
  intro e he
  obtain ⟨p, hp, rfl⟩ := List.mem_map.mp he
  simp only [List.length_append, length_put64, length_put32, List.length_cons, List.length_nil]
  rfl

theorem size_apertureEntries (d : ModDesc) :
    ∀ e ∈ d.apertureEntries, e.length = APERTURE_USE_ENTRY_SIZE := by
  intro e he
  obtain ⟨p, hp, rfl⟩ := List.mem_map.mp he
  simp only [List.length_append, length_put64, length_put32, length_put16, List.length_cons,
    List.length_nil]
  rfl

structure Placed (d : ModDesc) : Prop where
  header : ∃ rest, d.block = d.header ++ (d.moduleName ++ rest)
  exportNames : ∃ rest, Behind d.block d.start.length (nameBytes (d.exports.map (·.name)) ++ rest)
  importNames : ∃ rest, Behind d.block d.middle.length (nameBytes (d.imports.map (·.name)) ++ rest)
  exports : ∃ rest, Behind d.block d.names.length (d.exportEntries.flatten ++ rest)
  imports : ∃ rest, Behind d.block (d.names.length + d.exports.length * 16)
    (d.importEntries.flatten ++ rest)
  wordMetas : ∃ rest, Behind d.block d.wordMetaBase (d.wordMetas.flatten ++ rest)
  resMetas : ∃ rest, Behind d.block (d.wordMetaBase + d.exports.length * 16)
    (d.resEntries.flatten ++ rest)
  apertures : Behind d.block
    (d.wordMetaBase + d.exports.length * 16 + d.resMetas.length * 16)
    (d.apertureEntries.flatten ++ [])
  length : d.block.length = d.wordMetaBase + d.exports.length * 16 + d.resMetas.length * 16 +
    d.apertures.length * 16

theorem placed (d : ModDesc) : d.Placed := by
  have hexports : Behind d.block d.names.length _ := .append d.names _
  have himports := hexports.skip
  have hmetas := himports.skip
  have hres := hmetas.skip
  have hapertures := hres.skip
  rw [length_table d.size_exportEntries, d.length_exportEntries] at himports hmetas hres hapertures
  rw [length_table d.size_importEntries, d.length_importEntries] at hmetas hres hapertures
  have hwordMetas : d.wordMetas.length = d.exports.length := List.length_map _
  have hresEntries : d.resEntries.length = d.resMetas.length := List.length_map _
  have hapertureEntries : d.apertureEntries.length = d.apertures.length := List.length_map _
  rw [length_table d.size_wordMetas, hwordMetas] at hres hapertures
  rw [length_table d.size_resEntries, hresEntries] at hapertures
  have hlength := hapertures.length
  rw [length_table d.size_apertureEntries, hapertureEntries] at hlength
  obtain ⟨zeros, hzeros⟩ := padZeros_prefix (d.middle ++ nameBytes (d.imports.map (·.name)))
  obtain ⟨zeros', hzeros'⟩ := padZeros_prefix (d.start ++ nameBytes (d.exports.map (·.name)))
  obtain ⟨zeros'', hzeros''⟩ := padZeros_prefix (d.header ++ d.moduleName)
  obtain ⟨tables, htables⟩ : ∃ tables, d.block = d.names ++ tables := ⟨_, rfl⟩
  have hnames : d.block = d.middle ++ (nameBytes (d.imports.map (·.name)) ++ (zeros ++ tables)) := by
    rw [htables, names, ← hzeros, List.append_assoc, List.append_assoc]
  have hmiddle : d.block = d.start ++ (nameBytes (d.exports.map (·.name)) ++ (zeros' ++
      (nameBytes (d.imports.map (·.name)) ++ (zeros ++ tables)))) := by
    rw [hnames, middle, ← hzeros', List.append_assoc, List.append_assoc]
  have hstart : d.block = d.header ++ (d.moduleName ++ (zeros'' ++
      (nameBytes (d.exports.map (·.name)) ++ (zeros' ++
        (nameBytes (d.imports.map (·.name)) ++ (zeros ++ tables)))))) := by
    rw [hmiddle, start, ← hzeros'', List.append_assoc, List.append_assoc]
  have hbehindExports := Behind.append d.start (nameBytes (d.exports.map (·.name)) ++ (zeros' ++
    (nameBytes (d.imports.map (·.name)) ++ (zeros ++ tables))))
  rw [← hmiddle] at hbehindExports
  have hbehindImports := Behind.append d.middle
    (nameBytes (d.imports.map (·.name)) ++ (zeros ++ tables))
  rw [← hnames] at hbehindImports
  rw [← List.append_nil d.apertureEntries.flatten] at hapertures
  exact ⟨⟨_, hstart⟩, ⟨_, hbehindExports⟩, ⟨_, hbehindImports⟩, ⟨_, hexports⟩, ⟨_, himports⟩,
    ⟨_, hmetas⟩, ⟨_, hres⟩, hapertures, hlength⟩

/-! ## The readers find the tables -/

theorem toNat32 {n : Nat} (h : n < 2 ^ 32) : (UInt32.ofNat n).toNat = n := by
  rw [UInt32.toNat_ofNat', Nat.mod_eq_of_lt h]

theorem toNat16 {n : Nat} (h : n < 2 ^ 16) : (UInt16.ofNat n).toUInt32.toNat = n := by
  rw [UInt16.toNat_toUInt32, UInt16.toNat_ofNat', Nat.mod_eq_of_lt h]

theorem decode_block (h : d.Within) : (ModInfo.decode w d.block).run = some (some d.decoded) := by
  obtain ⟨rest, hrest⟩ := d.placed.header
  exact decode_written hrest h.size

theorem exportEntriesOffset_block (h : d.Within) :
    (exportEntriesOffset w d.block).run = some (some d.names.length) := by
  have hp := d.placed
  have hw := w.le_size
  have hsize := h.size
  have hexports := h.exports
  have himports := h.imports
  obtain ⟨rest₁, hbehindExports⟩ := hp.exportNames
  obtain ⟨rest₂, hbehindImports⟩ := hp.importNames
  obtain ⟨rest₃, hentries⟩ := hp.exports
  have hlen₁ := hbehindExports.length
  have hlen₂ := hbehindImports.length
  have hlen₃ := hentries.length
  rw [List.length_append] at hlen₁ hlen₂ hlen₃
  rw [length_table d.size_exportEntries, d.length_exportEntries] at hlen₃
  obtain ⟨rest, hrest⟩ := hp.header
  have hlen := congrArg List.length hrest
  rw [List.length_append, List.length_append, d.length_header] at hlen
  have hstart : padFour w (usize w (MODINFO_HEADER_SIZE + d.decoded.moduleNameLen.toNat)) =
      d.start.length := by
    have hsum : usize w (MODINFO_HEADER_SIZE + d.decoded.moduleNameLen.toNat) =
        (d.header ++ d.moduleName).length := by
      rw [List.length_append, d.length_header, decoded, toNat32 (by omega)]
      exact Nat.mod_eq_of_lt (by show 48 + _ < _; omega)
    rw [hsum]
    exact padFour_padZeros (by show d.start.length < _; omega)
  have hmiddle : padFour w (d.start.length + (nameBytes (d.exports.map (·.name))).length) =
      d.middle.length := by
    rw [← List.length_append]
    exact padFour_padZeros (by show d.middle.length < _; omega)
  have hnames : padFour w (d.middle.length + (nameBytes (d.imports.map (·.name))).length) =
      d.names.length := by
    rw [← List.length_append]
    exact padFour_padZeros (by show d.names.length < _; omega)
  have hskipExports := skipNames_written (List.forall_mem_map.mpr h.exportNames) hbehindExports
  have hskipImports := skipNames_written (List.forall_mem_map.mpr h.importNames) hbehindImports
  rw [List.length_map] at hskipExports hskipImports
  have hexportCount : d.decoded.exportCount.toNat = d.exports.length := toNat32 (by omega)
  have himportCount : d.decoded.importCount.toNat = d.imports.length := toNat32 (by omega)
  unfold exportEntriesOffset
  refine Read.bind_eq_some.mpr ⟨_, decode_block h, ?_⟩
  dsimp only
  rw [hstart, hexportCount, himportCount, hskipExports]
  refine Read.bind_eq_some.mpr ⟨_, rfl, ?_⟩
  rw [hmiddle, hskipImports]
  refine Read.bind_eq_some.mpr ⟨_, rfl, ?_⟩
  rw [hnames]
  have hsum : d.names.length + d.exports.length * EXPORT_ENTRY_SIZE ≤ d.block.length := by omega
  refine Read.bind_eq_some.mpr ⟨_, checkedUsizeRead_eq_some.mpr ⟨by omega, rfl⟩, ?_⟩
  refine Read.bind_eq_some.mpr ⟨_, checkedUsizeRead_eq_some.mpr ⟨by omega, rfl⟩, ?_⟩
  rw [if_neg (by omega)]
  rfl

theorem resMetaOffset_block (h : d.Within) : (resMetaOffset w d.block).run =
    some (some (d.wordMetaBase + d.exports.length * 16)) := by
  have hw := w.le_size
  have hsize := h.size
  have hexports := h.exports
  have himports := h.imports
  have hres := h.resMetas
  have hlen := d.placed.length
  have hbase : d.wordMetaBase = d.names.length + d.exports.length * EXPORT_ENTRY_SIZE +
    d.imports.length * IMPORT_ENTRY_SIZE := rfl
  have hexportCount : d.decoded.exportCount.toNat = d.exports.length := toNat32 (by omega)
  have himportCount : d.decoded.importCount.toNat = d.imports.length := toNat32 (by omega)
  have hresCount : d.decoded.resMetaCount.toNat = d.resMetas.length := toNat16 hres
  have hE : EXPORT_ENTRY_SIZE = 16 := rfl
  have hI : IMPORT_ENTRY_SIZE = 12 := rfl
  have hM : WORD_META_SIZE = 16 := rfl
  have hR : RES_META_SIZE = 16 := rfl
  rw [hE, hI] at hbase
  unfold resMetaOffset
  refine Read.bind_eq_some.mpr ⟨_, decode_block h, ?_⟩
  refine Read.bind_eq_some.mpr ⟨_, exportEntriesOffset_block h, ?_⟩
  rw [hexportCount, himportCount, hresCount, hE, hI, hM, hR]
  refine Read.bind_eq_some.mpr ⟨_, checkedUsizeRead_eq_some.mpr ⟨by omega, rfl⟩, ?_⟩
  refine Read.bind_eq_some.mpr ⟨_, checkedUsizeRead_eq_some.mpr ⟨by omega, rfl⟩, ?_⟩
  refine Read.bind_eq_some.mpr ⟨_, checkedUsizeRead_eq_some.mpr ⟨by omega, rfl⟩, ?_⟩
  refine Read.bind_eq_some.mpr ⟨_, checkedUsizeRead_eq_some.mpr ⟨by omega, rfl⟩, ?_⟩
  refine Read.bind_eq_some.mpr ⟨_, checkedUsizeRead_eq_some.mpr ⟨by omega, rfl⟩, ?_⟩
  refine Read.bind_eq_some.mpr ⟨_, checkedUsizeRead_eq_some.mpr ⟨by omega, rfl⟩, ?_⟩
  refine Read.bind_eq_some.mpr ⟨_, checkedUsizeRead_eq_some.mpr ⟨by omega, rfl⟩, ?_⟩
  refine Read.bind_eq_some.mpr ⟨_, checkedUsizeRead_eq_some.mpr ⟨by omega, rfl⟩, ?_⟩
  rw [if_neg (by omega), ← hbase]
  rfl

theorem apertureUseOffset_block (h : d.Within) : (apertureUseOffset w d.block).run =
    some (some (d.wordMetaBase + d.exports.length * 16 + d.resMetas.length * 16)) := by
  have hw := w.le_size
  have hsize := h.size
  have hlen := d.placed.length
  have happ := h.apertures
  have hresCount : d.decoded.resMetaCount.toNat = d.resMetas.length := toNat16 h.resMetas
  have hapertureCount : d.decoded.apertureCount.toNat = d.apertures.length :=
    toNat16 (by omega)
  have hR : RES_META_SIZE = 16 := rfl
  have hA : APERTURE_USE_ENTRY_SIZE = 16 := rfl
  unfold apertureUseOffset
  refine Read.bind_eq_some.mpr ⟨_, decode_block h, ?_⟩
  refine Read.bind_eq_some.mpr ⟨_, resMetaOffset_block h, ?_⟩
  rw [hresCount, hapertureCount, hR, hA]
  refine Read.bind_eq_some.mpr ⟨_, checkedUsizeRead_eq_some.mpr ⟨by omega, rfl⟩, ?_⟩
  refine Read.bind_eq_some.mpr ⟨_, checkedUsizeRead_eq_some.mpr ⟨by omega, rfl⟩, ?_⟩
  refine Read.bind_eq_some.mpr ⟨_, checkedUsizeRead_eq_some.mpr ⟨by omega, rfl⟩, ?_⟩
  refine Read.bind_eq_some.mpr ⟨_, checkedUsizeRead_eq_some.mpr ⟨by omega, rfl⟩, ?_⟩
  rw [if_neg (by omega)]
  rfl

/-! ## The readers find the entries -/

theorem lt_of_getElem? {α : Type} {xs : List α} {i : Nat} {x : α} (h : xs[i]? = some x) :
    i < xs.length := (List.getElem?_eq_some_iff.mp h).1

theorem readExport_block (h : d.Within) {i : Nat} {e : ExportEntry}
    (hi : d.exports[i]? = some e) : ∃ p, (readExport w d.block (UInt32.ofNat i)).run =
      some (some p) ∧ p.symHash = e.symHash ∧ p.name = e.name ∧
        p.valueOff.toNat = d.wordMetaBase + i * 16 := by
  have hw := w.le_size
  have hsize := h.size
  have hexports := h.exports
  have hlt := lt_of_getElem? hi
  have hlen := d.placed.length
  have hbase : d.wordMetaBase = d.names.length + d.exports.length * 16 +
    d.imports.length * 12 := rfl
  have hcount : d.decoded.exportCount.toNat = d.exports.length := toNat32 (by omega)
  obtain ⟨rest₁, hnames⟩ := d.placed.exportNames
  obtain ⟨rest₂, htable⟩ := d.placed.exports
  have hname : (d.exports.map (·.name))[i]? = some e.name := by
    rw [List.getElem?_map, hi]
    rfl
  obtain ⟨off, hplace, rest₃, hoff⟩ := name_written hname hnames
  have hoffLen := hoff.length
  rw [List.length_append, List.length_cons] at hoffLen
  have hentry : d.exportEntries[i]? = some (put64 e.symHash ++ put32 (UInt32.ofNat off) ++
      put32 (UInt32.ofNat (d.wordMetaBase + i * WORD_META_SIZE))) := by
    have hzip : (d.exports.zip (placeNames (d.exports.map (·.name)) d.start.length))[i]? =
        some (e, off, e.name ++ [0]) := List.getElem?_zip_eq_some.mpr ⟨hi, hplace⟩
    unfold exportEntries
    rw [List.getElem?_mapIdx, hzip]
    rfl
  obtain ⟨rest₄, hat⟩ := htable.entry d.size_exportEntries hentry
  rw [List.append_assoc, List.append_assoc] at hat
  have hval := hat.skip64.skip32
  have hindex : (UInt32.ofNat i).toNat = i := toNat32 (by omega)
  have hoff32 : (UInt32.ofNat off).toNat = off := toNat32 (by omega)
  refine ⟨{ symHash := e.symHash, valueOff := UInt32.ofNat (d.wordMetaBase + i * WORD_META_SIZE)
            name := e.name }, ?_, rfl, rfl, ?_⟩
  · unfold readExport
    refine Read.bind_eq_some.mpr ⟨_, decode_block h, ?_⟩
    have hle : ¬ UInt32.ofNat i ≥ d.decoded.exportCount := by
      rw [ge_iff_le, UInt32.le_iff_toNat_le, hindex, hcount]
      omega
    rw [if_neg hle]
    refine Read.bind_eq_some.mpr ⟨_, exportEntriesOffset_block h, ?_⟩
    have hat' : usize w (d.names.length + (UInt32.ofNat i).toNat * EXPORT_ENTRY_SIZE) =
        d.names.length + i * EXPORT_ENTRY_SIZE := by
      rw [hindex]
      exact Nat.mod_eq_of_lt (by show d.names.length + i * 16 < _; omega)
    dsimp only
    rw [hat', hat.u64]
    refine Read.bind_eq_some.mpr ⟨_, rfl, ?_⟩
    rw [hat.skip64.u32]
    refine Read.bind_eq_some.mpr ⟨_, rfl, ?_⟩
    have hvalue : u32At d.block (d.names.length + i * EXPORT_ENTRY_SIZE + 12) =
        some (UInt32.ofNat (d.wordMetaBase + i * WORD_META_SIZE)) := hval.u32
    rw [hvalue]
    refine Read.bind_eq_some.mpr ⟨_, rfl, ?_⟩
    rw [hoff32, if_neg (by omega),
      takeWhile_name (h.exportNames e (List.mem_of_getElem? hi)) hoff]
    rfl
  · exact toNat32 (by show d.wordMetaBase + i * 16 < _; omega)

theorem wordMeta_block {i : Nat} {e : ExportEntry} (hi : d.exports[i]? = some e) :
    ∃ rest, Behind d.block (d.wordMetaBase + i * 16) (put64 e.symHash ++ (put16 e.effects ++
      (put16 e.requiresCaps ++ (put32 e.stackBound ++ rest)))) := by
  obtain ⟨rest, htable⟩ := d.placed.wordMetas
  have hentry : d.wordMetas[i]? = some (put64 e.symHash ++ put16 e.effects ++
      put16 e.requiresCaps ++ put32 e.stackBound) := by
    unfold wordMetas
    rw [List.getElem?_map, hi]
    rfl
  obtain ⟨rest', hat⟩ := htable.entry d.size_wordMetas hentry
  simp only [List.append_assoc] at hat
  exact ⟨rest', hat⟩

theorem readWordMetaStackBound_block (h : d.Within) {i : Nat} {e : ExportEntry} {off : UInt32}
    (hi : d.exports[i]? = some e) (hoff : off.toNat = d.wordMetaBase + i * 16) :
    readWordMetaStackBound w d.block off = .ok e.stackBound := by
  have hw := w.le_size
  have hsize := h.size
  obtain ⟨rest, hat⟩ := wordMeta_block hi
  have hbound := hat.skip64.skip16.skip16
  have hlen := hbound.length
  rw [List.length_append, length_put32] at hlen
  have hread := hbound.u32
  unfold readWordMetaStackBound
  have h16 : usize w (off.toNat + 16) = off.toNat + 16 := Nat.mod_eq_of_lt (by omega)
  have h12 : usize w (off.toNat + 12) = off.toNat + 12 := Nat.mod_eq_of_lt (by omega)
  unfold u32At at hread
  obtain ⟨field, hslice, hfield⟩ := Option.map_eq_some_iff.mp hread
  have hslice' : slice d.block (off.toNat + 12) (off.toNat + 16) = some field := by
    rw [hoff]
    exact hslice
  rw [bind_eq_ok]
  refine ⟨⟨⟩, require_eq_ok.mpr (by rw [h16]; omega), ?_⟩
  rw [h12, h16, hslice', bind_eq_ok]
  exact ⟨field, rfl, congrArg Except.ok hfield⟩

theorem readResMeta_block (h : d.Within) {i : Nat} {r : ResMetaEntry}
    (hi : d.resMetas[i]? = some r) :
    (readResMeta w d.block (UInt32.ofNat i)).run = some (some r) := by
  have hw := w.le_size
  have hsize := h.size
  have hres := h.resMetas
  have hlt := lt_of_getElem? hi
  have hlen := d.placed.length
  have hcount : d.decoded.resMetaCount.toNat = d.resMetas.length := toNat16 hres
  obtain ⟨rest, htable⟩ := d.placed.resMetas
  have hentry : d.resEntries[i]? = some (put64 r.resHash ++ [r.sharingClass, 0, 0, 0] ++
      put32 r.lockPrim) := by
    unfold resEntries
    rw [List.getElem?_map, hi]
    rfl
  obtain ⟨rest', hat⟩ := htable.entry d.size_resEntries hentry
  simp only [List.append_assoc, List.cons_append, List.nil_append] at hat
  have hclass := hat.skip64
  have hlock := hclass.skip_byte.skip_byte.skip_byte.skip_byte
  have hindex : (UInt32.ofNat i).toNat = i := toNat32 (by omega)
  unfold readResMeta
  refine Read.bind_eq_some.mpr ⟨_, decode_block h, ?_⟩
  have hle : ¬ UInt32.ofNat i ≥ d.decoded.resMetaCount := by
    rw [ge_iff_le, UInt32.le_iff_toNat_le, hindex, hcount]
    omega
  rw [if_neg hle]
  refine Read.bind_eq_some.mpr ⟨_, resMetaOffset_block h, ?_⟩
  have hat' : usize w (d.wordMetaBase + d.exports.length * 16 +
      (UInt32.ofNat i).toNat * RES_META_SIZE) =
        d.wordMetaBase + d.exports.length * 16 + i * RES_META_SIZE := by
    rw [hindex]
    exact Nat.mod_eq_of_lt (by show d.wordMetaBase + d.exports.length * 16 + i * 16 < _; omega)
  dsimp only
  rw [hat', hat.u64]
  refine Read.bind_eq_some.mpr ⟨_, rfl, ?_⟩
  rw [hclass.byte]
  refine Read.bind_eq_some.mpr ⟨_, rfl, ?_⟩
  have hlock' : u32At d.block (d.wordMetaBase + d.exports.length * 16 + i * RES_META_SIZE + 12) =
      some r.lockPrim := hlock.u32
  rw [hlock']
  exact Read.bind_eq_some.mpr ⟨_, rfl, rfl⟩

theorem readApertureUse_block (h : d.Within) {i : Nat} {a : ApertureUseEntry}
    (hi : d.apertures[i]? = some a) :
    (readApertureUse w d.block (UInt32.ofNat i)).run = some (some a) := by
  have hw := w.le_size
  have hsize := h.size
  have happ := h.apertures
  have hlt := lt_of_getElem? hi
  have hlen := d.placed.length
  have hcount : d.decoded.apertureCount.toNat = d.apertures.length := toNat16 (by omega)
  have hentry : d.apertureEntries[i]? = some (put64 a.nameHash ++ put32 a.size ++
      put16 a.apertureId ++ [a.accessMask, 0]) := by
    unfold apertureEntries
    rw [List.getElem?_map, hi]
    rfl
  obtain ⟨rest', hat⟩ := d.placed.apertures.entry d.size_apertureEntries hentry
  simp only [List.append_assoc, List.cons_append, List.nil_append] at hat
  have hmask := hat.skip64.skip32.skip16
  have hindex : (UInt32.ofNat i).toNat = i := toNat32 (by omega)
  unfold readApertureUse
  refine Read.bind_eq_some.mpr ⟨_, decode_block h, ?_⟩
  have hle : ¬ UInt32.ofNat i ≥ d.decoded.apertureCount := by
    rw [ge_iff_le, UInt32.le_iff_toNat_le, hindex, hcount]
    omega
  rw [if_neg hle]
  refine Read.bind_eq_some.mpr ⟨_, apertureUseOffset_block h, ?_⟩
  have hat' : usize w (d.wordMetaBase + d.exports.length * 16 + d.resMetas.length * 16 +
      (UInt32.ofNat i).toNat * APERTURE_USE_ENTRY_SIZE) = d.wordMetaBase + d.exports.length * 16 +
        d.resMetas.length * 16 + i * APERTURE_USE_ENTRY_SIZE := by
    rw [hindex]
    refine Nat.mod_eq_of_lt ?_
    show d.wordMetaBase + d.exports.length * 16 + d.resMetas.length * 16 + i * 16 < _
    omega
  dsimp only
  rw [hat', hat.u64]
  refine Read.bind_eq_some.mpr ⟨_, rfl, ?_⟩
  rw [hat.skip64.u32]
  refine Read.bind_eq_some.mpr ⟨_, rfl, ?_⟩
  have hid : u16At d.block (d.wordMetaBase + d.exports.length * 16 + d.resMetas.length * 16 +
      i * APERTURE_USE_ENTRY_SIZE + 12) = some a.apertureId := hat.skip64.skip32.u16
  rw [hid]
  refine Read.bind_eq_some.mpr ⟨_, rfl, ?_⟩
  have hmask' : d.block[d.wordMetaBase + d.exports.length * 16 + d.resMetas.length * 16 +
      i * APERTURE_USE_ENTRY_SIZE + 14]? = some a.accessMask := hmask.byte
  rw [hmask']
  exact Read.bind_eq_some.mpr ⟨_, rfl, rfl⟩

theorem import_block (h : d.Within) {i : Nat} {e : ImportEntry} (hi : d.imports[i]? = some e) :
    ∃ nameOff rest, Behind d.block (d.names.length + d.exports.length * 16 + i * 12)
      (put64 e.symHash ++ (put32 nameOff ++ rest)) ∧
        (d.block.drop nameOff.toNat).takeWhile (· != 0) = e.name := by
  have hsize := h.size
  obtain ⟨rest₁, hnames⟩ := d.placed.importNames
  obtain ⟨rest₂, htable⟩ := d.placed.imports
  have hname : (d.imports.map (·.name))[i]? = some e.name := by
    rw [List.getElem?_map, hi]
    rfl
  obtain ⟨off, hplace, rest₃, hoff⟩ := name_written hname hnames
  have hoffLen := hoff.length
  have hentry : d.importEntries[i]? = some (put64 e.symHash ++ put32 (UInt32.ofNat off)) := by
    have hzip : (d.imports.zip (placeNames (d.imports.map (·.name)) d.middle.length))[i]? =
        some (e, off, e.name ++ [0]) := List.getElem?_zip_eq_some.mpr ⟨hi, hplace⟩
    unfold importEntries
    rw [List.getElem?_map, hzip]
    rfl
  obtain ⟨rest₄, hat⟩ := htable.entry d.size_importEntries hentry
  rw [List.append_assoc] at hat
  refine ⟨UInt32.ofNat off, rest₄, hat, ?_⟩
  rw [toNat32 (by omega)]
  exact takeWhile_name (h.importNames e (List.mem_of_getElem? hi)) hoff

end ModDesc

/-! ## Shortened sections

What a reader finds in a section it finds in every longer one. -/

section Longer

variable {w : PtrWidth} {data xs : Bytes} {a b off : Nat}

theorem slice_longer (tail : Bytes) (h : slice data a b = some xs) :
    slice (data ++ tail) a b = some xs := by
  obtain ⟨hle, hstop, rfl⟩ := slice_eq_some h
  unfold slice
  rw [if_pos ⟨hle, by rw [List.length_append]; omega⟩, List.take_append_of_le_length hstop]

theorem u16At_longer (tail : Bytes) {v : UInt16} (h : u16At data off = some v) :
    u16At (data ++ tail) off = some v := by
  obtain ⟨xs, hxs, hv⟩ := Option.map_eq_some_iff.mp h
  exact Option.map_eq_some_iff.mpr ⟨xs, slice_longer tail hxs, hv⟩

theorem u32At_longer (tail : Bytes) {v : UInt32} (h : u32At data off = some v) :
    u32At (data ++ tail) off = some v := by
  obtain ⟨xs, hxs, hv⟩ := Option.map_eq_some_iff.mp h
  exact Option.map_eq_some_iff.mpr ⟨xs, slice_longer tail hxs, hv⟩

theorem u64At_longer (tail : Bytes) {v : UInt64} (h : u64At data off = some v) :
    u64At (data ++ tail) off = some v := by
  obtain ⟨xs, hxs, hv⟩ := Option.map_eq_some_iff.mp h
  exact Option.map_eq_some_iff.mpr ⟨xs, slice_longer tail hxs, hv⟩

theorem decode_longer (tail : Bytes) {mi : ModInfo}
    (h : (ModInfo.decode w data).run = some (some mi)) :
    (ModInfo.decode w (data ++ tail)).run = some (some mi) := by
  unfold ModInfo.decode at h ⊢
  simp only [Read.unless_eq_some, Read.bind_eq_some, Read.index_eq_some, Read.pure_eq_some] at h ⊢
  obtain ⟨hlen, magic, hmagic, hmagic', ver, hver, flags, hflags, abi, habi, nameOff, hnameOff,
    nameLen, hnameLen, exports, hexports, imports, himports, apertures, hapertures, res, hres,
    platform, hplatform, hend, name, hname, rfl⟩ := h
  rw [List.length_append]
  refine ⟨by omega, magic, u32At_longer tail hmagic, hmagic', ver, u16At_longer tail hver, flags,
    u16At_longer tail hflags, abi, u64At_longer tail habi, nameOff, u32At_longer tail hnameOff,
    nameLen, u32At_longer tail hnameLen, exports, u32At_longer tail hexports, imports,
    u32At_longer tail himports, apertures, u16At_longer tail hapertures, res,
    u16At_longer tail hres, platform, u64At_longer tail hplatform, by omega, name,
    slice_longer tail hname, rfl⟩

theorem name_in_section {mi : ModInfo} (h : (ModInfo.decode w data).run = some (some mi)) :
    usize w (mi.moduleNameOff.toNat + mi.moduleNameLen.toNat) ≤ data.length := by
  unfold ModInfo.decode at h
  simp only [Read.unless_eq_some, Read.bind_eq_some, Read.index_eq_some, Read.pure_eq_some] at h
  obtain ⟨-, _, -, -, _, -, _, -, _, -, nameOff, -, nameLen, -, _, -, _, -, _, -, _, -, _, -, hend,
    _, -, rfl⟩ := h
  exact Nat.le_of_not_lt hend

theorem skipNames_longer (tail : Bytes) {n stop : Nat} (h : skipNames data n off = some stop) :
    skipNames (data ++ tail) n off = some stop := by
  induction n generalizing off with
  | zero => exact h
  | succ n ih =>
    unfold skipNames at h ⊢
    cases hfind : (data.drop off).findIdx? (· == 0) with
    | none =>
      rw [hfind] at h
      cases h
    | some i =>
      rw [hfind] at h
      have hle : off ≤ data.length := by
        have hlt := (List.findIdx?_eq_some_iff_getElem.mp hfind).1
        rw [List.length_drop] at hlt
        omega
      have hfind' : ((data ++ tail).drop off).findIdx? (· == 0) = some i := by
        rw [List.drop_append_of_le_length hle, List.findIdx?_append, hfind]
        rfl
      rw [hfind']
      exact ih h

theorem exportEntriesOffset_longer (tail : Bytes)
    (h : (exportEntriesOffset w data).run = some (some off)) :
    (exportEntriesOffset w (data ++ tail)).run = some (some off) := by
  unfold exportEntriesOffset at h ⊢
  simp only [Read.unless_eq_some, Read.bind_eq_some, Read.orDecline_eq_some,
    checkedUsizeRead_eq_some, Read.pure_eq_some] at h ⊢
  obtain ⟨hdr, hdecode, off₁, hexports, off₂, himports, size, hsize, stop, hstop, hend, rfl⟩ := h
  rw [List.length_append]
  exact ⟨hdr, decode_longer tail hdecode, off₁, skipNames_longer tail hexports, off₂,
    skipNames_longer tail himports, size, hsize, stop, hstop, by omega, rfl⟩

theorem resMetaOffset_longer (tail : Bytes)
    (h : (resMetaOffset w data).run = some (some off)) :
    (resMetaOffset w (data ++ tail)).run = some (some off) := by
  unfold resMetaOffset at h ⊢
  simp only [Read.unless_eq_some, Read.bind_eq_some, checkedUsizeRead_eq_some,
    Read.pure_eq_some] at h ⊢
  obtain ⟨hdr, hdecode, off₁, hexports, s₁, hs₁, o₁, ho₁, s₂, hs₂, o₂, ho₂, s₃, hs₃, o₃, ho₃, s₄,
    hs₄, stop, hstop, hend, rfl⟩ := h
  rw [List.length_append]
  exact ⟨hdr, decode_longer tail hdecode, off₁, exportEntriesOffset_longer tail hexports, s₁, hs₁,
    o₁, ho₁, s₂, hs₂, o₂, ho₂, s₃, hs₃, o₃, ho₃, s₄, hs₄, stop, hstop, by omega, rfl⟩

theorem valueOff_longer (tail : Bytes) {i : UInt32} {p p' : ParsedExport}
    (h : (readExport w data i).run = some (some p))
    (h' : (readExport w (data ++ tail) i).run = some (some p')) : p.valueOff = p'.valueOff := by
  unfold readExport at h h'
  simp only [Read.unless_eq_some, Read.bind_eq_some, Read.index_eq_some, Read.pure_eq_some] at h h'
  obtain ⟨hdr, -, -, start, hstart, -, -, -, -, value, hvalue, -, rfl⟩ := h
  obtain ⟨hdr', -, -, start', hstart', -, -, -, -, value', hvalue', -, rfl⟩ := h'
  rw [exportEntriesOffset_longer tail hstart] at hstart'
  cases hstart'
  rw [u32At_longer tail hvalue] at hvalue'
  exact Option.some.inj hvalue'

end Longer

/-- The header can be read and every entry of the tables, with the stack bounds of the words. -/
def EntriesReadable (w : PtrWidth) (data : Bytes) : Prop :=
  ∃ hdr, (ModInfo.decode w data).run = some (some hdr) ∧
    (∀ i < hdr.exportCount, ∃ p, (readExport w data i).run = some (some p) ∧
      ∃ bound, readWordMetaStackBound w data p.valueOff = .ok bound) ∧
    (∀ i < hdr.resMetaCount, ∃ r, (readResMeta w data i).run = some (some r)) ∧
    (∀ i < hdr.apertureCount, ∃ a, (readApertureUse w data i).run = some (some a))

namespace ModDesc

variable {d : ModDesc} {w : PtrWidth} {data tail : Bytes}

theorem lt_count {n : Nat} {count : UInt32} {i : Nat} (hcount : count.toNat = n) (hi : i < n)
    (hn : n < 2 ^ 32) : UInt32.ofNat i < count := by
  rw [UInt32.lt_iff_toNat_lt, toNat32 (by omega), hcount]
  exact hi

theorem whole_of_apertures (h : d.Within) (hdata : data ++ tail = d.block)
    (hread : EntriesReadable w data) (hsome : 0 < d.apertures.length) :
    d.block.length ≤ data.length := by
  obtain ⟨hdr, hdecode, -, -, hapertures⟩ := hread
  have hdr_eq := decode_longer tail hdecode
  rw [hdata, decode_block h] at hdr_eq
  cases hdr_eq
  have happ := h.apertures
  have hcount : d.decoded.apertureCount.toNat = d.apertures.length := toNat16 (by omega)
  have hresCount : d.decoded.resMetaCount.toNat = d.resMetas.length := toNat16 h.resMetas
  obtain ⟨a, ha⟩ := hapertures _ (lt_count hcount hsome (by omega))
  unfold readApertureUse at ha
  simp only [Read.unless_eq_some, Read.bind_eq_some] at ha
  obtain ⟨_, -, -, off, hoff, -⟩ := ha
  unfold apertureUseOffset at hoff
  simp only [Read.unless_eq_some, Read.bind_eq_some, checkedUsizeRead_eq_some,
    Read.pure_eq_some] at hoff
  obtain ⟨hdr, hhdr, start, hstart, _, ⟨-, rfl⟩, _, ⟨-, rfl⟩, _, ⟨-, rfl⟩, stop, ⟨-, rfl⟩, hend,
    -⟩ := hoff
  rw [hdecode] at hhdr
  cases hhdr
  have hstart' := resMetaOffset_longer tail hstart
  rw [hdata, resMetaOffset_block h] at hstart'
  cases hstart'
  have hlen := d.placed.length
  have hR : RES_META_SIZE = 16 := rfl
  have hA : APERTURE_USE_ENTRY_SIZE = 16 := rfl
  rw [hcount, hresCount, hR, hA] at hend
  omega

theorem whole_of_resMetas (h : d.Within) (hdata : data ++ tail = d.block)
    (hread : EntriesReadable w data) (hsome : 0 < d.resMetas.length) (hnone : d.apertures = []) :
    d.block.length ≤ data.length := by
  obtain ⟨hdr, hdecode, -, hres, -⟩ := hread
  have hdr_eq := decode_longer tail hdecode
  rw [hdata, decode_block h] at hdr_eq
  cases hdr_eq
  have hlt := h.resMetas
  have hcount : d.decoded.resMetaCount.toNat = d.resMetas.length := toNat16 hlt
  obtain ⟨r, hr⟩ := hres _ (lt_count hcount hsome (by omega))
  unfold readResMeta at hr
  simp only [Read.unless_eq_some, Read.bind_eq_some] at hr
  obtain ⟨_, -, -, off, hoff, -⟩ := hr
  have hend := (resMetaOffset_bounds hdecode hoff).2
  have hoff' := resMetaOffset_longer tail hoff
  rw [hdata, resMetaOffset_block h] at hoff'
  cases hoff'
  have hlen := d.placed.length
  have hR : RES_META_SIZE = 16 := rfl
  rw [hnone, List.length_nil] at hlen
  rw [hcount, hR] at hend
  omega

theorem whole_of_exports (h : d.Within) (hdata : data ++ tail = d.block)
    (hread : EntriesReadable w data) (hsome : 0 < d.exports.length) (hres : d.resMetas = [])
    (hnone : d.apertures = []) : d.block.length ≤ data.length := by
  obtain ⟨hdr, hdecode, hexports, -, -⟩ := hread
  have hdr_eq := decode_longer tail hdecode
  rw [hdata, decode_block h] at hdr_eq
  cases hdr_eq
  have hle := h.exports
  have hsize := h.size
  have hw := w.le_size
  have hlen := d.placed.length
  rw [hres, hnone, List.length_nil, List.length_nil] at hlen
  have hcount : d.decoded.exportCount.toNat = d.exports.length := toNat32 (by omega)
  have hlast : d.exports.length - 1 < d.exports.length := by omega
  obtain ⟨p, hp, bound, hbound⟩ := hexports _ (lt_count hcount hlast (by omega))
  obtain ⟨p', hp', -, -, hvalue⟩ :=
    readExport_block (w := w) h (List.getElem?_eq_getElem hlast)
  rw [← hdata] at hp'
  rw [← valueOff_longer tail hp hp'] at hvalue
  unfold readWordMetaStackBound at hbound
  obtain ⟨_, hend, -⟩ := bind_eq_ok.mp hbound
  rw [require_eq_ok, hvalue, usize, Nat.mod_eq_of_lt (by omega)] at hend
  omega

def Ended (d : ModDesc) : Prop :=
  d.exports ≠ [] ∨ d.resMetas ≠ [] ∨ d.apertures ≠ [] ∨
    (d.imports = [] ∧ d.moduleName.length % 4 = 0)

theorem length_start (d : ModDesc) :
    d.start.length = (48 + d.moduleName.length + 3) / 4 * 4 := by
  unfold start
  rw [length_padZeros, List.length_append, d.length_header]

theorem readable_cut (h : d.Within) (hexports : d.exports = []) (hres : d.resMetas = [])
    (hapertures : d.apertures = []) :
    EntriesReadable w (d.block.take (48 + d.moduleName.length)) := by
  obtain ⟨rest, hrest⟩ := d.placed.header
  have hcut : d.block.take (48 + d.moduleName.length) = d.header ++ (d.moduleName ++ []) := by
    have hlen : (d.header ++ d.moduleName).length = 48 + d.moduleName.length := by
      rw [List.length_append, d.length_header]
    rw [hrest, ← List.append_assoc, List.take_left' hlen, List.append_nil]
  have hsize := h.size
  have hdecode : (ModInfo.decode w (d.block.take (48 + d.moduleName.length))).run =
      some (some d.decoded) := by
    refine decode_written hcut ?_
    rw [List.length_take]
    omega
  refine ⟨d.decoded, hdecode, ?_, ?_, ?_⟩
  · intro i hi
    rw [decoded, hexports] at hi
    exact absurd hi (UInt32.not_lt.mpr (UInt32.zero_le))
  · intro i hi
    rw [decoded, hres] at hi
    exact absurd hi (UInt32.not_lt.mpr (UInt32.zero_le))
  · intro i hi
    rw [decoded, hapertures] at hi
    exact absurd hi (UInt32.not_lt.mpr (UInt32.zero_le))

/-- Without those tables the section ends at the name exactly where nothing is imported and
the name needs no padding. -/
theorem length_block_of_empty (hexports : d.exports = []) (hres : d.resMetas = [])
    (hapertures : d.apertures = []) : d.block.length = 48 + d.moduleName.length ↔
      d.imports = [] ∧ d.moduleName.length % 4 = 0 := by
  have hlen := d.placed.length
  have hbase : d.wordMetaBase = d.names.length + d.exports.length * 16 +
    d.imports.length * 12 := rfl
  have hmiddle : d.middle.length = (d.start.length + 3) / 4 * 4 := by
    unfold middle
    have hnone : nameBytes (([] : List ExportEntry).map (·.name)) = [] := rfl
    rw [length_padZeros, hexports, hnone, List.append_nil]
  have hnames : d.names.length =
      (d.middle.length + (nameBytes (d.imports.map (·.name))).length + 3) / 4 * 4 := by
    unfold names
    rw [length_padZeros, List.length_append]
  have hstart := d.length_start
  rw [hexports, hres, hapertures, List.length_nil, List.length_nil, List.length_nil] at hlen
  rw [hexports, List.length_nil] at hbase
  constructor
  · intro heq
    refine ⟨List.eq_nil_of_length_eq_zero (by omega), by omega⟩
  · rintro ⟨himports, hmod⟩
    rw [himports] at hnames hbase
    have hnone : (nameBytes (([] : List ImportEntry).map (·.name))).length = 0 := rfl
    rw [hnone] at hnames
    rw [List.length_nil] at hbase
    omega

theorem truncations_refused_iff (w : PtrWidth) (h : d.Within) :
    (∀ n < d.block.length, ¬ EntriesReadable w (d.block.take n)) ↔ d.Ended := by
  constructor
  · intro hrefused
    by_cases hexports : d.exports = []
    · by_cases hres : d.resMetas = []
      · by_cases hapertures : d.apertures = []
        · refine .inr (.inr (.inr ?_))
          rw [← length_block_of_empty hexports hres hapertures]
          have hnot := hrefused (48 + d.moduleName.length)
          have hread : EntriesReadable w (d.block.take (48 + d.moduleName.length)) :=
            readable_cut h hexports hres hapertures
          obtain ⟨rest, hrest⟩ := d.placed.header
          have hlen := congrArg List.length hrest
          rw [List.length_append, List.length_append, d.length_header] at hlen
          have hle : ¬ 48 + d.moduleName.length < d.block.length := fun hlt => hnot hlt hread
          omega
        · exact .inr (.inr (.inl hapertures))
      · exact .inr (.inl hres)
    · exact .inl hexports
  · intro hended n hn hread
    have hdata := List.take_append_drop n d.block
    have hlen : (d.block.take n).length = n := List.length_take_of_le (Nat.le_of_lt hn)
    have hwhole : d.block.length ≤ (d.block.take n).length ∨
        d.exports = [] ∧ d.resMetas = [] ∧ d.apertures = [] := by
      by_cases hapertures : d.apertures = []
      · by_cases hres : d.resMetas = []
        · by_cases hexports : d.exports = []
          · exact .inr ⟨hexports, hres, hapertures⟩
          · exact .inl (whole_of_exports h hdata hread (List.length_pos_of_ne_nil hexports) hres
              hapertures)
        · exact .inl (whole_of_resMetas h hdata hread (List.length_pos_of_ne_nil hres) hapertures)
      · exact .inl (whole_of_apertures h hdata hread (List.length_pos_of_ne_nil hapertures))
    rcases hwhole with hwhole | ⟨hexports, hres, hapertures⟩
    · omega
    · have hname : d.imports = [] ∧ d.moduleName.length % 4 = 0 := by
        rcases hended with hne | hne | hne | hname
        · exact absurd hexports hne
        · exact absurd hres hne
        · exact absurd hapertures hne
        · exact hname
      rw [← length_block_of_empty hexports hres hapertures] at hname
      obtain ⟨hdr, hdecode, -⟩ := hread
      have hdr_eq := decode_longer (d.block.drop n) hdecode
      rw [hdata, decode_block h] at hdr_eq
      cases hdr_eq
      have hend := name_in_section hdecode
      have hw := w.le_size
      have hsize := h.size
      have hoff : d.decoded.moduleNameOff.toNat = 48 := rfl
      have hlen' : d.decoded.moduleNameLen.toNat = d.moduleName.length := toNat32 (by omega)
      rw [hoff, hlen', usize, Nat.mod_eq_of_lt (by omega)] at hend
      omega

end ModDesc

structure RoundTrips (w : PtrWidth) (d : ModDesc) (data : Bytes) : Prop where
  header : ∃ hdr, (ModInfo.decode w data).run = some (some hdr) ∧
    hdr.moduleName = d.moduleName ∧ hdr.exportCount.toNat = d.exports.length ∧
    hdr.importCount.toNat = d.imports.length ∧ hdr.resMetaCount.toNat = d.resMetas.length ∧
    hdr.apertureCount.toNat = d.apertures.length ∧ hdr.abiHash = d.abiHash ∧
    hdr.flags = d.flags ∧ hdr.modinfoVer = MODINFO_VER ∧ hdr.platformHash = d.platformHash
  /-- An export, and the entry of its word at the offset that is its value. -/
  exports : ∀ i e, d.exports[i]? = some e → ∃ p,
    (readExport w data (UInt32.ofNat i)).run = some (some p) ∧ p.symHash = e.symHash ∧
    p.name = e.name ∧ u64At data p.valueOff.toNat = some e.symHash ∧
    u16At data (p.valueOff.toNat + 8) = some e.effects ∧
    u16At data (p.valueOff.toNat + 10) = some e.requiresCaps ∧
    readWordMetaStackBound w data p.valueOff = .ok e.stackBound
  /-- The imports have no reader; their entries stand behind those of the exports. -/
  imports : ∃ off, (exportEntriesOffset w data).run = some (some off) ∧
    ∀ i e, d.imports[i]? = some e →
      u64At data (off + d.exports.length * 16 + i * 12) = some e.symHash ∧
      ∃ nameOff, u32At data (off + d.exports.length * 16 + i * 12 + 8) = some nameOff ∧
        (data.drop nameOff.toNat).takeWhile (· != 0) = e.name
  resMetas : ∀ i r, d.resMetas[i]? = some r →
    (readResMeta w data (UInt32.ofNat i)).run = some (some r)
  apertures : ∀ i a, d.apertures[i]? = some a →
    (readApertureUse w data (UInt32.ofNat i)).run = some (some a)

theorem roundTrips_block (w : PtrWidth) {d : ModDesc} (h : d.Within) :
    RoundTrips w d d.block := by
  have hexports := h.exports
  have himports := h.imports
  have happ := h.apertures
  refine ⟨⟨d.decoded, ModDesc.decode_block h, rfl, ModDesc.toNat32 (by omega),
    ModDesc.toNat32 (by omega), ModDesc.toNat16 h.resMetas, ModDesc.toNat16 (by omega), rfl, rfl,
    rfl, rfl⟩, ?_, ?_, ?_, ?_⟩
  · intro i e hi
    obtain ⟨p, hp, hhash, hname, hvalue⟩ := ModDesc.readExport_block (w := w) h hi
    obtain ⟨rest, hmeta⟩ := ModDesc.wordMeta_block hi
    rw [← hvalue] at hmeta
    exact ⟨p, hp, hhash, hname, hmeta.u64, hmeta.skip64.u16, hmeta.skip64.skip16.u16,
      ModDesc.readWordMetaStackBound_block h hi hvalue⟩
  · refine ⟨_, ModDesc.exportEntriesOffset_block h, fun i e hi => ?_⟩
    obtain ⟨nameOff, rest, hentry, hname⟩ := ModDesc.import_block h hi
    exact ⟨hentry.u64, nameOff, hentry.skip64.u32, hname⟩
  · exact fun i r hi => ModDesc.readResMeta_block h hi
  · exact fun i a hi => ModDesc.readApertureUse_block h hi

/-- The section of a module within the limits of the format is read back whole; and every
truncation of it is refused exactly where the last thing in it is one that is read to its
end. -/
theorem modinfo_round_trip_iff (w : PtrWidth) (d : ModDesc) (cap : Nat) (block : Bytes)
    (h : d.Within) (hencode : d.encode cap = some block) :
    (RoundTrips w d block ∧ ∀ n < block.length, ¬ EntriesReadable w (block.take n)) ↔ d.Ended := by
  obtain ⟨-, -, -, rfl⟩ := ModDesc.encode_eq_some hencode
  rw [← ModDesc.truncations_refused_iff w h]
  exact and_iff_right (roundTrips_block w h)

def importingDesc : ModDesc where
  moduleName := [0x6d]
  exports := []
  imports := [⟨0x1234, [0x66]⟩]
  abiHash := 0
  flags := 0
  resMetas := []
  platformHash := 0
  apertures := []

def exportingDesc : ModDesc :=
  { importingDesc with
    exports := [⟨0x5678, [0x67], 2, 1, 42⟩]
    resMetas := [⟨7, 1, 2⟩] }

theorem exportingDesc_round_trip : RoundTrips .w32 exportingDesc exportingDesc.block ∧
    ∀ n < exportingDesc.block.length, ¬ EntriesReadable .w32 (exportingDesc.block.take n) := by
  have hwithin : exportingDesc.Within :=
    ⟨by decide, by decide, by decide, by decide, by decide, by decide, by decide +kernel⟩
  have hencode : exportingDesc.encode 1024 = some exportingDesc.block := by decide +kernel
  exact (modinfo_round_trip_iff .w32 exportingDesc 1024 _ hwithin hencode).mpr
    (.inl (List.cons_ne_nil _ _))

/-- The section of a module that imports and does nothing else, without its imports: the
readers see nothing wrong. -/
theorem importingDesc_cut : importingDesc.encode 1024 = some importingDesc.block ∧
    importingDesc.Within ∧ 49 < importingDesc.block.length ∧
      EntriesReadable .w32 (importingDesc.block.take 49) := by
  have hwithin : importingDesc.Within :=
    ⟨by decide, by decide, by decide, by decide, by decide, by decide, by decide⟩
  exact ⟨by decide, hwithin, by decide,
    ModDesc.readable_cut (d := importingDesc) hwithin rfl rfl rfl⟩

end Tyu

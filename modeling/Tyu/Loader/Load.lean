import Tyu.Loader.Reloc
import Tyu.Loader.VerifyManifest

/-!
# Loading a module

The stages of a load in their order: what is checked before anything is allocated, the
placement of the sections, the call of the module's initialiser, and what is checked and
recorded after it.
-/

namespace Tyu

open Lib.Wire

/-!
## The stack bound, derived again

At the highest trust level the loader scans a module's code for the instructions that move
the data stack pointer and compares the peak that it finds with the recorded bounds.  A
scanner works on the bytes that are left; it is given as many steps as there are bytes.
-/

def TOP_SENTINEL : UInt32 := 0xFFFFFFFF

inductive Arch where
  | x86_64
  | armThumb
  | riscV

def Arch.slotBytes : Arch → UInt32
  | .x86_64 => 8
  | .armThumb => 4
  | .riscV => 4

/-- An addition or subtraction of a small constant on `r4`. -/
def isThumbStackOp (insn : UInt16) : Bool :=
  let rd : UInt16 := insn &&& 7
  let rn : UInt16 := insn >>> 4 &&& 7
  insn >>> 11 == 3 && rd == rn && rd == 4

/-- An addition of a constant on `s2`. -/
def isRiscVStackOp (insn : UInt32) : Bool :=
  (insn &&& 0x7f) == 0x13 && (insn >>> 12 &&& 7) == 0 && (insn >>> 7 &&& 0x1f) == 18 &&
    (insn >>> 15 &&& 0x1f) == 18

/-- The first instruction set of whose stack instructions the code has one, at any byte. -/
def Arch.detectFromCode (code : Bytes) : Arch :=
  if (List.range (code.length - 1)).any fun i => (u16At code i).any isThumbStackOp then .armThumb
  else if (List.range (code.length - 3)).any fun i => (u32At code i).any isRiscVStackOp then .riscV
  else .x86_64

def updatePeak (peak : UInt32) (off : Int) (slotBytes : UInt32) : UInt32 :=
  if off > 0 ∧ slotBytes > 0 then
    let depth := UInt32.ofNat (off.toNat / slotBytes.toNat)
    if depth > peak then depth else peak
  else peak

def signedByte (b : UInt8) : Int := b.toInt8.toInt

/-- The opcodes that change `r15` in a way that the scanner does not follow. -/
def movesR15 (opc : UInt8) : Bool :=
  [0x01, 0x03, 0x29, 0x89, 0x8B, 0x85, 0x09, 0x21, 0x31, 0x39].contains opc

def rederiveX86 : Nat → Bytes → Int → UInt32 → UInt32 → UInt32
  | 0, _, _, peak, _ => peak
  | _ + 1, [], _, peak, _ => peak
  | n + 1, b :: rest, off, peak, slotBytes =>
    let at' := fun i => rest.getD i 0
    -- a jump back is a loop
    if b == 0xEB && rest.length ≥ 1 && signedByte (at' 0) < 0 then TOP_SENTINEL
    else if 0x70 ≤ b && b ≤ 0x7F && rest.length ≥ 1 && signedByte (at' 0) < 0 then TOP_SENTINEL
    else if rest.length ≥ 3 && b == 0x49 && at' 0 == 0x83 && at' 1 == 0xc7 then
      let off := off + signedByte (at' 2)
      rederiveX86 n (rest.drop 3) off (updatePeak peak off slotBytes) slotBytes
    else if rest.length ≥ 3 && b == 0x49 && at' 0 == 0x83 && at' 1 == 0xef then
      let off := off - signedByte (at' 2)
      rederiveX86 n (rest.drop 3) (if off < 0 then 0 else off) peak slotBytes
    else if rest.length ≥ 6 && b == 0x49 && at' 0 == 0x81 && at' 1 == 0xc7 then TOP_SENTINEL
    else if (b &&& 0xEF) == 0x49 && rest.length ≥ 2 && (at' 1 &&& 7) == 7 && movesR15 (at' 0) then
      TOP_SENTINEL
    else rederiveX86 n rest off peak slotBytes

def rederiveArmThumb : Nat → Bytes → Int → UInt32 → UInt32 → UInt32
  | n + 1, b₀ :: b₁ :: rest, off, peak, slotBytes =>
    let insn := b₀.toUInt16 ||| b₁.toUInt16 <<< 8
    if isThumbStackOp insn then
      let imm3 : Int := (insn >>> 7 &&& 7).toNat
      if (insn >>> 10 &&& 1) == 0 then
        let off := off + imm3
        rederiveArmThumb n rest off (updatePeak peak off slotBytes) slotBytes
      else
        let off := off - imm3
        rederiveArmThumb n rest (if off < 0 then 0 else off) peak slotBytes
    else rederiveArmThumb n (b₁ :: rest) off peak slotBytes
  | _, _, _, peak, _ => peak

def rederiveRiscV : Nat → Bytes → Int → UInt32 → UInt32 → UInt32
  | n + 1, b₀ :: b₁ :: b₂ :: b₃ :: rest, off, peak, slotBytes =>
    let insn := b₀.toUInt32 ||| b₁.toUInt32 <<< 8 ||| b₂.toUInt32 <<< 16 ||| b₃.toUInt32 <<< 24
    if isRiscVStackOp insn then
      let imm12 := (insn >>> 20).toNat
      let imm : Int := if imm12 < 2048 then imm12 else imm12 - 4096
      if imm > 0 then
        let off := off + imm
        rederiveRiscV n rest off (updatePeak peak off slotBytes) slotBytes
      else if imm < 0 then
        let off := off + imm
        rederiveRiscV n rest (if off < 0 then 0 else off) peak slotBytes
      else rederiveRiscV n rest off peak slotBytes
    else rederiveRiscV n rest off peak slotBytes
  | _, _, _, peak, _ => peak

def rederiveStackHigh (code : Bytes) (arch : Arch) (slotBytes : UInt32) : UInt32 :=
  match arch with
  | .x86_64 => rederiveX86 code.length code 0 0 slotBytes
  | .armThumb => rederiveArmThumb code.length code 0 0 slotBytes
  | .riscV => rederiveRiscV code.length code 0 0 slotBytes

end Tyu

/-!
## Loading a module

The stages of a load in their order: what is checked before anything is allocated, the
placement of the sections, the call of the module's initialiser, and what is checked and
recorded after it.
-/

namespace Tyu

open Lib Lib.Wire Container

structure Build (σ : Type) where
  ops : Platform σ
  width : PtrWidth
  arm : Bool
  encryption : Bool
  verifyManifest : Bool
  sha256 : Bytes → Bytes
  /-- Decryption with a key, a nonce, a tag and associated data. -/
  decryptPayload : Bytes → Bytes → Bytes → Bytes → Bytes → Option Bytes

variable {σ : Type}

def MOD_INIT_NAME : Bytes :=
  ['_', '_', 'l', 'a', 'n', 'g', '_', 'm', 'o', 'd', '_', 'i', 'n', 'i', 't'].map
    fun c => UInt8.ofNat c.toNat

def moduleFnAddr (b : Build σ) (base : UInt64) : UInt64 := if b.arm then base ||| 1 else base

def verifySignatureIfRequired (b : Build σ) (platform : σ) (hdr : LmodHeader) (raw : Bytes) :
    Except Stop Unit :=
  if (b.ops.trustLevel platform).rank < TrustLevel.one.rank then pure ()
  else do
    let regionLen := signedRegionLen hdr
    require (regionLen ≤ raw.length) (.error .badContainer)
    let trailer ← expect (SigTrailer.parse (raw.drop regionLen)) (.error .sigInvalid)
    require (trailer.scheme ≠ SCHEME_NONE) (.error .sigInvalid)
    require (b.ops.verifySig platform (raw.take regionLen) trailer.sigBytes = true)
      (.error .sigInvalid)

def validateVerifyManifest (b : Build σ) (platform : σ) (modinfo : Bytes) : Except Stop Unit := do
  let policy := b.ops.verifyPolicy platform
  match ← (scanVerifyManifest modinfo).orError .verifyManifestMalformed with
  | none => require (policy = .off) (.error .verifyPolicyReject)
  | some vm =>
    if b.verifyManifest then
      let region ← expect (slice modinfo vm.obligationsStart vm.obligationsEnd) .panic
      require (b.sha256 region = vm.digest) (.error .verifyManifestDigest)
    require (satisfies vm.policy policy.code = true) (.error .verifyPolicyReject)

def readWordMetaStackBound (w : PtrWidth) (modinfo : Bytes) (valueOff : UInt32) :
    Except Stop UInt32 := do
  let off := valueOff.toNat
  require (usize w (off + 16) ≤ modinfo.length) (.error .badContainer)
  let field ← expect (slice modinfo (usize w (off + 12)) (usize w (off + 16))) .panic
  pure (UInt32.ofNat (getLE field))

def readExportOrFail (w : PtrWidth) (modinfo : Bytes) (index : UInt32) :
    Except Stop ParsedExport :=
  (readExport w modinfo index).orError .badContainer

def enforceStackBound (w : PtrWidth) (modinfo : Bytes) (remaining : UInt32) (index : UInt32) :
    Except Stop PUnit := do
  let exp ← readExportOrFail w modinfo index
  if exp.name = MOD_INIT_NAME then pure ⟨⟩
  else
    let stackBound ← readWordMetaStackBound w modinfo exp.valueOff
    require (stackBound ≤ remaining) (.error .stackBoundUnverifiable)

def enforceStackBoundBudget (w : PtrWidth) (modinfo : Bytes) (remaining : UInt32) :
    Except Stop PUnit :=
  if modinfo.isEmpty then pure ⟨⟩
  else do
    let mi ← (ModInfo.decode w modinfo).orError .badContainer
    (indices mi.exportCount).forM (enforceStackBound w modinfo remaining)

def validateModinfoForLoad (w : PtrWidth) (modinfo : Bytes) (remaining : UInt32) :
    Except Stop PUnit :=
  if modinfo.isEmpty then pure ⟨⟩
  else do
    let mi ← (ModInfo.decode w modinfo).orError .badContainer
    require (mi.hasIsr = false) (.error .moduleDeclaresIsr)
    enforceStackBoundBudget w modinfo remaining

structure DecryptionContext where
  cek : Bytes
  nonce : Bytes
  tag : Bytes
  aad : Bytes

/-- `src` written at the cursor. -/
def appendBytes (dst : Bytes) (cursor : Nat) (src : Bytes) : Except Stop (Bytes × Nat) := do
  require (cursor + src.length ≤ dst.length) (.error .badContainer)
  pure (patch dst cursor src, cursor + src.length)

def findCek (b : Build σ) (platform : σ) (slots : List WrappedSlot) : Option Bytes :=
  slots.findSome? fun slot =>
    if slot.wrapScheme ≠ WRAP_SCHEME_SYMMETRIC_CHACHA20POLY1305 then none
    else b.ops.unwrapCek platform slot.keyId slot.wrapped

def aadHeader (hdr : LmodHeader) (raw : Bytes) : Option Bytes := do
  let bytes ← slice raw 0 HEADER_SIZE.toNat
  let flags ← u16At bytes 6
  let bytes := patch bytes 16 (put32 hdr.sigOff)
  let bytes := patch bytes 6 (put16 (flags &&& ~~~LMOD_FLAG_SIGNED))
  some (patch bytes 68 (put32 0))

def relocSlice (w : PtrWidth) (hdr : LmodHeader) (raw : Bytes) : Except Stop Bytes := do
  let relocBytes := hdr.relocCount.toNat * RELOC_ENTRY_SIZE
  require (relocBytes < w.size) (.error .badContainer)
  if relocBytes = 0 then pure []
  else do
    let stop := hdr.relocOff.toNat + relocBytes
    require (stop < w.size) (.error .badContainer)
    expect (slice raw hdr.relocOff.toNat stop) (.error .badContainer)

def fillAad (header encHeader modinfo reloc scratch : Bytes) : Except Stop Bytes := do
  let (aad, cursor) ← appendBytes scratch 0 header
  let (aad, cursor) ← appendBytes aad cursor encHeader
  let aad := patch aad (header.length + 4 + NONCE_LEN) (List.replicate TAG_LEN 0)
  let (aad, cursor) ← appendBytes aad cursor modinfo
  let (aad, cursor) ← appendBytes aad cursor reloc
  require (cursor = header.length + encHeader.length + modinfo.length + reloc.length)
    (.error .badContainer)
  pure aad

def prepareDecryption (b : Build σ) (hdr : LmodHeader) (raw modinfo : Bytes) :
    Load σ (Option DecryptionContext) :=
  if hdr.flags &&& LMOD_FLAG_ENCRYPTED = 0 then pure none
  else do
    let trust ← Load.ask b.ops.trustLevel
    Load.check (¬ trust.rank < TrustLevel.one.rank) .encRequiresSigned
    Load.check (HEADER_SIZE.toNat ≤ raw.length) .encBadHeader
    let ehBytes := raw.drop HEADER_SIZE.toNat
    let eh ← Stoppable.ofExcept <| (parseEncHeaderView ehBytes).mapError Stop.error
    let cek ← Load.ask fun p => findCek b p eh.wrappedSlots
    let cek ← Stoppable.ofExcept <| expect cek (.error .encNoKey)
    let header ← Load.orPanic (aadHeader hdr raw)
    let reloc ← Stoppable.ofExcept <| relocSlice b.width hdr raw
    let encHeader ← Load.orPanic (slice ehBytes 0 eh.wireLen)
    let aadLen := header.length + encHeader.length + modinfo.length + reloc.length
    Load.check (aadLen < b.width.size) .badContainer
    let scratch ← Load.operate (b.ops.allocRw aadLen)
    let aad ← Stoppable.ofExcept <| fillAad header encHeader modinfo reloc scratch.bytes
    pure (some { cek, nonce := eh.nonce, tag := eh.tag, aad })

def rejectEncryptedWithoutFeature (hdr : LmodHeader) : Load σ (Option DecryptionContext) := do
  Load.check (hdr.flags &&& LMOD_FLAG_ENCRYPTED = 0) .encUnsupported
  pure none

def prepareForBuild (b : Build σ) (hdr : LmodHeader) (raw modinfo : Bytes) :
    Load σ (Option DecryptionContext) :=
  if b.encryption then prepareDecryption b hdr raw modinfo else rejectEncryptedWithoutFeature hdr

/-! ## Placement -/

structure PlacedLens where
  code : Nat
  rodata : Nat
  data : Nat
  bss : Nat

def PlacedLens.fromHeader (hdr : LmodHeader) : PlacedLens :=
  { code := hdr.codeLen.toNat
    rodata := hdr.rodataLen.toNat
    data := hdr.dataLen.toNat
    bss := hdr.bssLen.toNat }

structure PlacedSections where
  code : Region
  rodata : Option Region
  data : Option Region

/-- `copy_from_slice`, which stops where the lengths differ. -/
def Region.copyFrom (r : Region) (src : Bytes) : Option Region :=
  if r.bytes.length = src.length then some { r with bytes := src } else .none

def Region.copyPrefix (r : Region) (src : Bytes) : Option Region :=
  if src.length ≤ r.bytes.length then some { r with bytes := patch r.bytes 0 src } else .none

def allocSection (op : Nat → σ → Except UInt32 Region × σ) (len : Nat) :
    Load σ (Option Region) :=
  if len > 0 then do
    let r ← Load.operate (op len)
    pure (some r)
  else pure none

def copyCode (b : Build σ) (c : Container) (lens : PlacedLens) (code : Region) : Load σ Region :=
  if lens.code > 0 then do
    let bytes ← Load.orPanic (c.code b.width)
    Load.orPanic (code.copyFrom bytes)
  else pure code

def copyRodata (b : Build σ) (c : Container) : Option Region → Load σ (Option Region)
  | some ro => do
    let bytes ← Load.orPanic (c.rodata b.width)
    let ro ← Load.orPanic (ro.copyFrom bytes)
    pure (some ro)
  | none => pure none

/-- The data, copied to the start of its region; the rest is for zeroed data. -/
def copyData (b : Build σ) (c : Container) (lens : PlacedLens) :
    Option Region → Load σ (Option Region)
  | some rw =>
    if lens.data > 0 then do
      let bytes ← Load.orPanic (c.data b.width)
      let rw ← Load.orPanic (rw.copyPrefix bytes)
      pure (some rw)
    else pure (some rw)
  | none => pure none

def placeSections (b : Build σ) (c : Container) (lens : PlacedLens) : Load σ PlacedSections := do
  let code ← Load.operate (b.ops.allocExec lens.code)
  let rodata ← allocSection b.ops.allocRo lens.rodata
  let data ← allocSection b.ops.allocRw (usize b.width (lens.data + lens.bss))
  let code ← copyCode b c lens code
  let rodata ← copyRodata b c rodata
  let data ← copyData b c lens data
  pure { code, rodata, data }

/-- The first `n` bytes of an optional region. -/
def sectionStart (region : Option Region) (n : Nat) : Except Stop Bytes :=
  if n = 0 then pure []
  else do
    let r ← expect region (.error .badContainer)
    expect (slice r.bytes 0 n) .panic

def restoreSection (region : Option Region) (plain : Bytes) : Except Stop (Option Region) :=
  if plain.length = 0 then pure region
  else do
    let r ← expect region (.error .badContainer)
    let r ← expect (r.copyPrefix plain) .panic
    pure (some r)

def decryptSections (b : Build σ) (sections : PlacedSections) (lens : PlacedLens)
    (decrypt : Option DecryptionContext) : Load σ PlacedSections :=
  match decrypt with
  | none => pure sections
  | some ctx => do
    let payloadLen := lens.code + lens.rodata + lens.data
    Load.check (payloadLen < b.width.size) .badContainer
    if payloadLen = 0 then pure sections
    else do
      let scratch ← Load.operate (b.ops.allocRw payloadLen)
      let code ← Load.orPanic (slice sections.code.bytes 0 lens.code)
      let (payload, cursor) ← Stoppable.ofExcept <| appendBytes scratch.bytes 0 code
      let rodata ← Stoppable.ofExcept <| sectionStart sections.rodata lens.rodata
      let (payload, cursor) ← Stoppable.ofExcept <| appendBytes payload cursor rodata
      let data ← Stoppable.ofExcept <| sectionStart sections.data lens.data
      let (payload, cursor) ← Stoppable.ofExcept <| appendBytes payload cursor data
      Load.check (cursor = payloadLen) .badContainer
      let plain ← Stoppable.ofExcept <|
        expect (b.decryptPayload ctx.cek ctx.nonce ctx.tag ctx.aad payload) (.error .encAuthFail)
      let code ← Load.orPanic (sections.code.copyPrefix (plain.take lens.code))
      let rodata ← Stoppable.ofExcept <|
        restoreSection sections.rodata ((plain.drop lens.code).take lens.rodata)
      let data ← Stoppable.ofExcept <|
        restoreSection sections.data ((plain.drop (lens.code + lens.rodata)).take lens.data)
      pure { code, rodata, data }

def decryptForBuild (b : Build σ) (sections : PlacedSections) (lens : PlacedLens)
    (decrypt : Option DecryptionContext) : Load σ PlacedSections :=
  if b.encryption then decryptSections b sections lens decrypt else pure sections

def bindApertureSite (bases : List UInt32) (id : UInt16) (off : Nat) (code : Bytes) :
    Except Stop Bytes :=
  match bases[id.toNat]? with
  | none => .error (.error .apertureUnresolved)
  | some base => do
    require (base ≠ 0) (.error .apertureUnresolved)
    -- a site that holds another address was packed for another board
    require ((u32At code off).all fun claimed => claimed = 0 ∨ claimed = base)
      (.error .apertureBaseMismatch)
    require (off + 4 ≤ code.length) (.error .badContainer)
    pure (patch code off (put32 base))

def applyImportRelocation (w : PtrWidth) (hdr : LmodHeader) (map : SymMap) (bases : List UInt32)
    (base : UInt64) (entry : RelocEntry) (code : Bytes) : Except Stop Bytes :=
  if entry.siteOff < hdr.codeOff then pure code
  else do
    let localOff := (entry.siteOff - hdr.codeOff).toNat
    let need := if entry.kind = 1 then 8 else 4
    require (usize w (localOff + need) ≤ hdr.codeLen.toNat) (.error .badContainer)
    if entry.kind = MMIO_APERTURE_BASE then
      bindApertureSite bases entry.symHash.toUInt16 localOff code
    else do
      let sym ← expect (map.lookupByHash entry.symHash) (.error .symbolUnresolved)
      match dispatchImportReloc w base localOff entry.kind sym.addr code with
      | (.ok _, code) => pure code
      | (.error .panic, _) => .error .panic
      | (.error (.error _), _) => .error (.error .relocUnsupported)

def applyImportRelocations (w : PtrWidth) (c : Container) (map : SymMap) (bases : List UInt32)
    (base : UInt64) (is : List UInt32) (code : Bytes) : Except Stop Bytes :=
  is.foldlM (fun code i => do
    let entry ← expect (c.relocEntry w i) (.error .badContainer)
    applyImportRelocation w c.hdr map bases base entry code) code

def exportsInit (w : PtrWidth) (modinfo : Bytes) : List UInt32 → Except Stop Bool
  | [] => pure false
  | i :: rest =>
    match (readExport w modinfo i).run with
    | none => .error .panic
    | some none => exportsInit w modinfo rest
    | some (some exp) =>
      if exp.name = MOD_INIT_NAME then pure true else exportsInit w modinfo rest

def lookupModInit (b : Build σ) (modinfo : Bytes) (codeBase : UInt64) : Except Stop UInt64 :=
  if modinfo.isEmpty then pure 0
  else
    match (ModInfo.decode b.width modinfo).run with
    | none => .error .panic
    | some none => pure 0
    | some (some mi) => do
      let found ← exportsInit b.width modinfo (indices mi.exportCount)
      pure (if found then moduleFnAddr b codeBase else 0)

def Load.call (b : Build σ) (addr : UInt64) : Load σ Unit := fun s =>
  (.ok (), { s with platform := b.ops.call addr s.platform, calls := s.calls ++ [addr] })

def runInitIfPresent (b : Build σ) (modinfo : Bytes) (codeBase : UInt64) (code : Region) :
    Load σ UInt64 := do
  let initAddr ← Stoppable.ofExcept <| lookupModInit b modinfo codeBase
  if initAddr = 0 then pure 0
  else do
    Load.check (codeBase ≤ initAddr) .badContainer
    let initPtr ← Stoppable.ofExcept <|
      expect (code.entry (initAddr - codeBase).toNat) (.error .badContainer)
    Load.call b initPtr
    pure initAddr

def Load.register (hash : UInt64) (name : Bytes) (addr : UInt64) : Load σ PUnit := fun s =>
  match s.map.registerWithHash hash name addr with
  | .ok map => (.ok ⟨⟩, { s with map })
  | .error e => (.error (.error (LoadError.ofCode e.code)), s)

def registerExport (b : Build σ) (modinfo : Bytes) (codeBase : UInt64) (index : UInt32) :
    Load σ PUnit := do
  let exp ← Stoppable.ofExcept <| readExportOrFail b.width modinfo index
  if exp.name = MOD_INIT_NAME then pure ⟨⟩
  else Load.register exp.symHash exp.name (moduleFnAddr b codeBase)

def registerExports (b : Build σ) (modinfo : Bytes) (codeBase : UInt64) : Load σ PUnit :=
  if modinfo.isEmpty then pure ⟨⟩
  else do
    let mi ← Stoppable.ofExcept <| (ModInfo.decode b.width modinfo).orError .badContainer
    (indices mi.exportCount).forM (registerExport b modinfo codeBase)

def checkStackBound (w : PtrWidth) (modinfo : Bytes) (rederived : UInt32) (index : UInt32) :
    Except Stop PUnit := do
  let exp ← readExportOrFail w modinfo index
  if exp.name = MOD_INIT_NAME then pure ⟨⟩
  else do
    let stamped ← readWordMetaStackBound w modinfo exp.valueOff
    require (stamped ≠ TOP_SENTINEL) (.error .badContainer)
    require (rederived ≠ TOP_SENTINEL) (.error .stackBoundUnverifiable)
    require (rederived ≤ stamped) (.error .badContainer)

def rederived (code : Bytes) : UInt32 :=
  rederiveStackHigh code (Arch.detectFromCode code) (Arch.detectFromCode code).slotBytes

def verifyTrustTwoStackBounds (w : PtrWidth) (trust : TrustLevel) (code modinfo : Bytes) :
    Except Stop PUnit :=
  if trust.rank < TrustLevel.two.rank then pure ⟨⟩
  else if modinfo.isEmpty then pure ⟨⟩
  else do
    let mi ← (ModInfo.decode w modinfo).orError .badContainer
    (indices mi.exportCount).forM (checkStackBound w modinfo (rederived code))

/-- The resources from `index` on, as far as they can be read, are not shared. -/
def checkSharingFrom (w : PtrWidth) (modinfo : Bytes) : Nat → UInt32 → Except Stop Unit
  | 0, _ => pure ()
  | n + 1, index =>
    match (readResMeta w modinfo index).run with
    | none => .error .panic
    | some none => pure ()
    | some (some rm) => do
      require (rm.sharingClass = 0) (.error .resourceSharingMismatch)
      checkSharingFrom w modinfo n (index + 1)

def checkResourceSharing (w : PtrWidth) (modinfo : Bytes) : Except Stop Unit :=
  if modinfo.isEmpty then pure () else checkSharingFrom w modinfo (2 ^ 16) 0

def Load.insert (id : UInt64) : Load σ Unit := fun s =>
  match s.loaded.insert id with
  | .ok loaded => (.ok (), { s with loaded })
  | .error e => (.error (.error e), s)

structure LoadedModule where
  code : Region
  rodata : Region
  data : Region
  initAddr : UInt64
  abiHash : UInt64
deriving DecidableEq

structure Admitted where
  modinfo : Bytes
  moduleId : UInt64
  decrypt : Option DecryptionContext

def admission (b : Build σ) (c : Container) : Load σ Admitted := do
  let expected ← Load.ask b.ops.expectedAbiHash
  Load.check (c.hdr.abiHash = expected) .abiMismatch
  let modinfo ← Load.orPanic (c.modinfo b.width)
  let mi ← Stoppable.ofExcept <| (ModInfo.decode b.width modinfo).orError .badContainer
  let moduleId := fnv1aU64 mi.moduleName
  let s ← Stoppable.get
  Load.check (s.loaded.contains moduleId = false) .moduleAlreadyLoaded
  let trust ← Load.ask b.ops.trustLevel
  Load.check (¬ (c.hdr.flags &&& LMOD_FLAG_SIGNED ≠ 0 ∧ trust.rank < TrustLevel.one.rank))
    .sigInvalid
  let platform ← Load.ask id
  Stoppable.ofExcept <| verifySignatureIfRequired b platform c.hdr c.bytes
  let decrypt ← prepareForBuild b c.hdr c.bytes modinfo
  let platform ← Load.ask id
  Stoppable.ofExcept <| validateModinfoForLoad b.width modinfo (b.ops.dsRemainingSlots platform)
  Stoppable.ofExcept <| validateVerifyManifest b platform modinfo
  pure { modinfo, moduleId, decrypt }

structure Ready where
  codeBase : UInt64
  code : Region
  rodata : Option Region
  data : Option Region

def place (b : Build σ) (c : Container) (m : Admitted) : Load σ Ready := do
  let platform ← Load.ask id
  let bases ← bindApertures b.width m.modinfo (b.ops.platformHash platform)
    (b.ops.apertureTable platform) c.hdr.abiHash
  Load.check (b.ops.placementPolicy platform = .copyToRam) .badContainer
  let lens := PlacedLens.fromHeader c.hdr
  let sections ← placeSections b c lens
  let sections ← decryptForBuild b sections lens m.decrypt
  let s ← Stoppable.get
  let codeBytes ← Stoppable.ofExcept <| applyImportRelocations b.width c s.map bases
    sections.code.base (indices c.hdr.relocCount) sections.code.bytes
  let code ← Load.operate (b.ops.makeExec { sections.code with bytes := codeBytes })
  pure { codeBase := sections.code.base, code, rodata := sections.rodata, data := sections.data }

def settle (b : Build σ) (m : Admitted) (r : Ready) : Load σ Unit := do
  registerExports b m.modinfo r.codeBase
  let trust ← Load.ask b.ops.trustLevel
  Stoppable.ofExcept <| verifyTrustTwoStackBounds b.width trust r.code.bytes m.modinfo
  Stoppable.ofExcept <| checkResourceSharing b.width m.modinfo
  Load.insert m.moduleId

def rollbackMap (s s' : Loader σ) : Loader σ :=
  { s' with map := s'.map.truncate s.map.length }

def rollbackRegistry (s s' : Loader σ) : Loader σ :=
  { s' with registry := s'.registry.truncate s.registry.length }

def install (b : Build σ) (c : Container) (m : Admitted) : Load σ LoadedModule := do
  let r ← place b c m
  let initAddr ← runInitIfPresent b m.modinfo r.codeBase r.code
  settle b m r
  pure {
    code := r.code
    rodata := r.rodata.getD Region.none
    data := r.data.getD Region.none
    initAddr
    abiHash := c.hdr.abiHash }

def loadModule (b : Build σ) (c : Container) : Load σ LoadedModule := do
  let m ← admission b c
  Stoppable.guarded rollbackMap <| Stoppable.guarded rollbackRegistry <| install b c m

end Tyu

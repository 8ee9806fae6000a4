import Tyu.Loader.ContainerRoundTrip

/-! # Encrypting and signing a container -/

namespace Tyu.Seal

open Lib Lib.Wire Container

inductive EncError where
  | invalidContainer
  | payloadEncryptionFailed

inductive EncStop where
  | error (e : EncError)
  | panic

def host : PtrWidth := .w64

inductive EncMode where
  | none
  | fleet
  | device

def EncMode.toByte : EncMode → UInt8
  | none => 0
  | fleet => 1
  | device => 2

structure EncHeader where
  encMode : EncMode
  aeadId : UInt8
  nonce : Bytes
  tag : Bytes
  wrappedSlots : List WrappedSlot

def EncHeader.wireLen (eh : EncHeader) : Nat := encHeaderLen eh.wrappedSlots.length

def slotBytes (s : WrappedSlot) : Bytes :=
  put64 s.keyId ++ (s.wrapScheme :: (List.replicate 7 0 ++ s.wrapped))

def encHeaderBytes (eh : EncHeader) : Bytes :=
  eh.encMode.toByte :: eh.aeadId :: 0 :: 0 :: (eh.nonce ++ (eh.tag ++
    (put32 (UInt32.ofNat eh.wrappedSlots.length) ++ eh.wrappedSlots.flatMap slotBytes)))

/-- Sealing with a key, a nonce and associated data: the sealed text and its tag. -/
abbrev SealFn := Bytes → Bytes → Bytes → Bytes → Option (Bytes × Bytes)

structure Entropy where
  cek : Bytes
  nonce : Bytes
  wrapNonce : Nat → Bytes
  length_cek : cek.length = CEK_LEN
  length_nonce : nonce.length = NONCE_LEN
  length_wrapNonce : ∀ i, (wrapNonce i).length = NONCE_LEN

def wrapCek (sealText : SealFn) (kek cek nonce : Bytes) (keyId : UInt64) :
    Except EncStop WrappedSlot := do
  let (text, tag) ← expect (sealText kek nonce [] cek) .panic
  pure { keyId, wrapScheme := WRAP_SCHEME_SYMMETRIC_CHACHA20POLY1305
         wrapped := nonce ++ (text ++ tag) }

/-- `copy_from_slice` into a range of the buffer. -/
def copyInto (off : Nat) (bytes out : Bytes) : Except EncStop Bytes := do
  require (off + bytes.length ≤ out.length) .panic
  pure (patch out off bytes)

def range (bs : Bytes) (start stop : Nat) : Except EncStop Bytes := expect (slice bs start stop) .panic

/-- The sites of `n` entries from an offset on, moved with the code. -/
def shiftSites (delta : UInt32) : Nat → Nat → Bytes → Except EncStop Bytes
  | _, 0, out => pure out
  | off, n + 1, out => do
    let site ← expect (u32At out off) .panic
    let out ← copyInto off (put32 (site + delta)) out
    shiftSites delta (off + RELOC_ENTRY_SIZE) n out

def copyRelocs (c : Container) (layout : LmodHeader) (out : Bytes) : Except EncStop Bytes := do
  let n := c.hdr.relocCount.toNat * RELOC_ENTRY_SIZE
  if n > 0 ∧ c.hdr.relocOff.toNat + n ≤ c.bytes.length then
    let raw ← range c.bytes c.hdr.relocOff.toNat (c.hdr.relocOff.toNat + n)
    let out ← copyInto layout.relocOff.toNat raw out
    if layout.codeOff ≠ c.hdr.codeOff then
      shiftSites (layout.codeOff - c.hdr.codeOff) layout.relocOff.toNat c.hdr.relocCount.toNat out
    else pure out
  else pure out

def sealedLens (hdr : LmodHeader) (encHeader : Nat) : SectionLens where
  encHeader := UInt32.ofNat encHeader
  modinfo := hdr.modinfoLen
  code := hdr.codeLen
  rodata := hdr.rodataLen
  data := hdr.dataLen
  bss := hdr.bssLen
  relocCount := hdr.relocCount

def sealedHeader (hdr layout : LmodHeader) : LmodHeader :=
  { layout with formatVer := FORMAT_VER, flags := hdr.flags ||| LMOD_FLAG_ENCRYPTED }

def frame (c : Container) (layout : LmodHeader) (ehBytes : Bytes) :
    Except EncStop (Bytes × Bytes) := do
  let out ← copyInto 0 (headerBytes (sealedHeader c.hdr layout))
    (List.replicate layout.totalLen.toNat 0)
  let out ← copyInto HEADER_SIZE.toNat ehBytes out
  let mi ← expect (c.modinfo host) .panic
  let out ← copyInto layout.modinfoOff.toNat mi out
  let out ← copyRelocs c layout out
  let header ← range out 0 HEADER_SIZE.toNat
  let n := c.hdr.relocCount.toNat * RELOC_ENTRY_SIZE
  let relocs ← if n > 0 then range out layout.relocOff.toNat (layout.relocOff.toNat + n)
    else pure []
  let ehBytes := patch ehBytes (4 + NONCE_LEN) (List.replicate TAG_LEN 0)
  pure (out, header ++ (ehBytes ++ (mi ++ relocs)))

def writeRodata (hdr layout : LmodHeader) (ciphertext out : Bytes) : Except EncStop Bytes :=
  if hdr.rodataLen > 0 then do
    let start := layout.codeOff.toNat + hdr.codeLen.toNat
    let bytes ← range ciphertext hdr.codeLen.toNat (hdr.codeLen.toNat + hdr.rodataLen.toNat)
    copyInto start bytes out
  else pure out

def writeData (mode : Overflow) (hdr layout : LmodHeader) (ciphertext out : Bytes) :
    Except EncStop Bytes :=
  if hdr.dataLen > 0 then do
    let payloadOff ← expect (addU32 mode hdr.codeLen hdr.rodataLen) .panic
    let bytes ← range ciphertext payloadOff.toNat (payloadOff.toNat + hdr.dataLen.toNat)
    copyInto layout.dataOff.toNat bytes out
  else pure out

/-- The pieces of the sealed text at their places, and its tag in the envelope. -/
def writeSealed (mode : Overflow) (hdr layout : LmodHeader) (ciphertext out : Bytes) :
    Except EncStop Bytes := do
  let code ← range ciphertext 0 hdr.codeLen.toNat
  let out ← copyInto layout.codeOff.toNat code out
  let out ← writeRodata hdr layout ciphertext out
  let out ← writeData mode hdr layout ciphertext out
  let tag ← range ciphertext (ciphertext.length - TAG_LEN) ciphertext.length
  copyInto (HEADER_SIZE.toNat + (4 + NONCE_LEN)) tag out

def buildEncryptedContainer (mode : Overflow) (sealText : SealFn) (c : Container)
    (payload : Bytes) (eh : EncHeader) (cek : Bytes) : Except EncStop Bytes := do
  let ehBytes := encHeaderBytes eh
  let layout ← expect (computeLayout mode c.hdr.abiHash (sealedLens c.hdr eh.wireLen)) .panic
  let (out, aad) ← frame c layout ehBytes
  let (text, tag) ← expect (sealText cek eh.nonce aad payload) (.error .payloadEncryptionFailed)
  writeSealed mode c.hdr layout (text ++ tag) out

def payloadOf (c : Container) : Except EncStop Bytes := do
  let code ← expect (c.code host) .panic
  let rodata ← expect (c.rodata host) .panic
  let data ← expect (c.data host) .panic
  pure (code ++ (rodata ++ data))

/-- A container, sealed for several keys; each slot has the position of its key. -/
def encryptFor (mode : Overflow) (sealText : SealFn) (rng : Entropy) (encMode : EncMode)
    (input : Bytes) (keks : List Bytes) : Except EncStop Bytes := do
  let c ← (Container.parse host input).mapError fun _ => EncStop.error .invalidContainer
  let payload ← payloadOf c
  let wrappedSlots ← keks.zipIdx.mapM fun (kek, i) =>
    wrapCek sealText kek rng.cek (rng.wrapNonce i) (UInt64.ofNat i)
  let eh : EncHeader := {
    encMode, aeadId := AEAD_CHACHA20POLY1305, nonce := rng.nonce
    tag := List.replicate TAG_LEN 0, wrappedSlots }
  buildEncryptedContainer mode sealText c payload eh rng.cek

def encryptFleet (mode : Overflow) (sealText : SealFn) (rng : Entropy) (input kek : Bytes) :
    Except EncStop Bytes :=
  encryptFor mode sealText rng .fleet input [kek]

def encryptDevice (mode : Overflow) (sealText : SealFn) (rng : Entropy) (input : Bytes)
    (deviceKeys : List Bytes) : Except EncStop Bytes :=
  encryptFor mode sealText rng .device input deviceKeys

/-!
## Signing a container

The signer marks the header, moves the end of the container behind a trailer and appends
the trailer.  The message authentication code is a parameter.
-/

inductive SignStop where
  | invalidHeader
  | panic

def TRAILER_HEADER_SIZE : UInt32 := 1

def trailerLen : UInt32 := TRAILER_HEADER_SIZE + UInt32.ofNat HMAC_SHA256_LEN

def signedHeader (hdr : LmodHeader) (newTotal : UInt32) : LmodHeader :=
  { hdr with
    flags := hdr.flags ||| LMOD_FLAG_SIGNED
    totalLen := newTotal
    sigOff := hdr.totalLen
    sigLen := trailerLen }

def patchHeader (hdr : LmodHeader) (region : Bytes) : Bytes :=
  let region := patch region 6 (put16 hdr.flags)
  let region := patch region 16 (put32 hdr.totalLen)
  let region := patch region 64 (put32 hdr.sigOff)
  patch region 68 (put32 hdr.sigLen)

def sign (mode : Overflow) (mac : Bytes → Bytes) (input : Bytes) : Except SignStop Bytes := do
  let hdr ← expect (decodeHeader input) .invalidHeader
  let newTotal ← expect (addU32 mode hdr.totalLen trailerLen) .panic
  let region ← expect (slice input 0 hdr.totalLen.toNat) .panic
  require (HEADER_SIZE.toNat ≤ region.length) .panic
  let region := patchHeader (signedHeader hdr newTotal) region
  pure (region ++ (SCHEME_HMAC_SHA256 :: mac region))

end Tyu.Seal

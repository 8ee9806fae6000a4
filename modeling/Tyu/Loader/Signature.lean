import Tyu.Loader.Container

/-! # The loader's platform -/

namespace Tyu

open Lib.Wire

inductive LoadError where
  | abiMismatch
  | badContainer
  | sigInvalid
  | relocUnsupported
  | symbolUnresolved
  | symbolConflict
  | moduleDeclaresIsr
  | resourceSharingMismatch
  | containerEncrypted
  | moduleAlreadyLoaded
  | stackBoundUnverifiable
  | encUnsupported
  | encRequiresSigned
  | encNoKey
  | encAuthFail
  | encBadHeader
  | apertureBaseMismatch
  | platformHashMismatch
  | apertureConflict
  | apertureUnresolved
  | apertureTableMalformed
  | modinfoVersionUnsupported
  | verifyManifestMalformed
  | verifyManifestDigest
  | verifyPolicyReject
deriving DecidableEq

def LoadError.ofCode (_code : UInt32) : LoadError := .badContainer

structure Region where
  base : UInt64
  bytes : Bytes
deriving DecidableEq

def Region.none : Region := { base := 0, bytes := [] }

def Region.entry (r : Region) (off : Nat) : Option UInt64 :=
  if off ≥ r.bytes.length then .none else some (r.base + UInt64.ofNat off)

inductive PlacementPolicy where
  | copyToRam
  | xipFromFlash
deriving DecidableEq

inductive TrustLevel where
  | zero
  | one
  | two

def TrustLevel.rank : TrustLevel → Nat
  | .zero => 0
  | .one => 1
  | .two => 2

inductive VerifyPolicy where
  | off
  | requireNoOpen
  | requireProven
deriving DecidableEq

def VerifyPolicy.code : VerifyPolicy → UInt8
  | .off => 0
  | .requireNoOpen => 1
  | .requireProven => 2

structure BoardAperture where
  nameHash : UInt64
  base : UInt32
  size : UInt32
  capability : UInt8

structure Platform (σ : Type) where
  allocExec : Nat → σ → Except UInt32 Region × σ
  allocRo : Nat → σ → Except UInt32 Region × σ
  allocRw : Nat → σ → Except UInt32 Region × σ
  makeExec : Region → σ → Except UInt32 Region × σ
  verifySig : σ → Bytes → Bytes → Bool
  expectedAbiHash : σ → UInt64
  dsRemainingSlots : σ → UInt32
  platformHash : σ → Option UInt64
  apertureTable : σ → List BoardAperture
  trustLevel : σ → TrustLevel
  verifyPolicy : σ → VerifyPolicy
  placementPolicy : σ → PlacementPolicy
  unwrapCek : σ → UInt64 → Bytes → Option Bytes
  /-- What the code at an address does to the platform when it is called. -/
  call : UInt64 → σ → σ

/-!
## The signature trailer and the encryption envelope

The signed region of a container is the prefix up to its trailer.  The envelope of an
encrypted container lies behind the fixed header, without a length of its own in that
header: the reader finds its end from the number of wrapped keys it counts.
-/

def SCHEME_NONE : UInt8 := 0
def SCHEME_HMAC_SHA256 : UInt8 := 1
def HMAC_SHA256_LEN : Nat := 32

structure SigTrailer where
  scheme : UInt8
  sigBytes : Bytes

def sigLenForScheme (scheme : UInt8) : Option Nat :=
  if scheme = SCHEME_NONE then some 0
  else if scheme = SCHEME_HMAC_SHA256 then some HMAC_SHA256_LEN
  else none

def SigTrailer.parse : Bytes → Option SigTrailer
  | [] => none
  | scheme :: rest => do
    let sigLen ← sigLenForScheme scheme
    if rest.length < sigLen then none
    else some { scheme, sigBytes := rest.take sigLen }

def signedRegionLen (hdr : LmodHeader) : Nat :=
  if hdr.sigLen > 0 then hdr.sigOff.toNat else hdr.totalLen.toNat

def NONCE_LEN : Nat := 12
def TAG_LEN : Nat := 16
def CEK_LEN : Nat := 32
def WRAP_LEN : Nat := NONCE_LEN + CEK_LEN + TAG_LEN
def WRAPPED_SLOT_SIZE : Nat := 8 + 1 + 7 + WRAP_LEN
def AEAD_CHACHA20POLY1305 : UInt8 := 1
def WRAP_SCHEME_SYMMETRIC_CHACHA20POLY1305 : UInt8 := 1

/-- The size of an envelope with `wrappedCount` slots. -/
def encHeaderLen (wrappedCount : Nat) : Nat := 36 + wrappedCount * WRAPPED_SLOT_SIZE

structure EncHeaderView where
  nonce : Bytes
  tag : Bytes
  wrappedCount : Nat
  slots : Bytes

def EncHeaderView.wireLen (v : EncHeaderView) : Nat := encHeaderLen v.wrappedCount

def encModeKnown (mode : UInt8) : Bool := mode = 0 || mode = 1 || mode = 2

def parseEncHeaderView (bytes : Bytes) : Except LoadError EncHeaderView :=
  if bytes.length < 36 then .error .encBadHeader
  else if encModeKnown (bytes.getD 0 0) = false then .error .encBadHeader
  else if bytes.getD 1 0 ≠ AEAD_CHACHA20POLY1305 then .error .encUnsupported
  else
    let wrappedCount := getLE ((bytes.take 36).drop 32)
    if wrappedCount > 64 then .error .encBadHeader
    else if bytes.length < encHeaderLen wrappedCount then .error .encBadHeader
    else .ok {
      nonce := (bytes.take 16).drop 4
      tag := (bytes.take 32).drop 16
      wrappedCount
      slots := (bytes.take (encHeaderLen wrappedCount)).drop 36 }

structure WrappedSlot where
  keyId : UInt64
  wrapScheme : UInt8
  wrapped : Bytes

/-- The slots of an envelope, `n` of them at most. -/
def wrappedSlots : Nat → Bytes → List WrappedSlot
  | 0, _ => []
  | n + 1, bytes =>
    if bytes.length < WRAPPED_SLOT_SIZE then []
    else
      { keyId := UInt64.ofNat (getLE (bytes.take 8))
        wrapScheme := bytes.getD 8 0
        wrapped := (bytes.take (16 + WRAP_LEN)).drop 16 } ::
          wrappedSlots n (bytes.drop WRAPPED_SLOT_SIZE)

def EncHeaderView.wrappedSlots (v : EncHeaderView) : List WrappedSlot :=
  Tyu.wrappedSlots v.wrappedCount v.slots

/-- How many bytes of the envelope the reader looks at: it stops at the first byte it
rejects. -/
def envelopeReads (bytes : Bytes) : Nat :=
  if bytes.length < 36 then 0
  else if encModeKnown (bytes.getD 0 0) = false then 1
  else if bytes.getD 1 0 ≠ AEAD_CHACHA20POLY1305 then 2
  else
    let wrappedCount := getLE ((bytes.take 36).drop 32)
    if wrappedCount > 64 ∨ bytes.length < encHeaderLen wrappedCount then 36
    else encHeaderLen wrappedCount

end Tyu

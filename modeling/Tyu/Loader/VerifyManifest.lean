import Tyu.Lib.Bisect
import Tyu.Loader.ModInfo

/-! # The verification record -/

namespace Tyu

open Lib.Wire

def VM_TAG : UInt32 := 0x31564d31
def VM_POLICY_NO_OPEN : UInt8 := 1
def VM_POLICY_PROVEN : UInt8 := 3
def VM_CERTIFIER_PORT : UInt8 := 1
def VM_STATUS_ASSUMED : UInt8 := 2
def VM_TRUST_PROOF : UInt8 := 3
def VM_MAX_ID_LEN : Nat := 512
def VM_MAX_RECORD : Nat := 4 * 1024 * 1024
def VM_MAX_COUNT : Nat := 4096

/-- Whether a declared policy meets a requirement; an unknown requirement admits nothing. -/
def satisfies (declared require : UInt8) : Bool :=
  if require = 0 then true
  else if require = 1 then declared ≥ VM_POLICY_NO_OPEN
  else if require = 2 then declared = VM_POLICY_PROVEN
  else false

structure VerifyManifest where
  semantics : Bytes
  stmt : Bytes
  target : Bytes
  model : Bytes
  policy : UInt8
  certifierClass : UInt8
  certifierName : Bytes
  certifierRecognition : Bytes
  candidateRatio : UInt16
  count : Nat
  counts : List UInt32
  obligationsStart : Nat
  obligationsEnd : Nat
  digest : Bytes
deriving DecidableEq

structure ObligationRef where
  id : Bytes
  idHash : UInt64
  status : UInt8
  trust : UInt8
  statementHash : Bytes
deriving DecidableEq

def parseObligation (data : Bytes) (off : Nat) : Read ObligationRef := do
  if off + 2 > data.length then Read.decline
  else
    let idLen ← Read.index (u16At data off)
    if idLen.toNat > VM_MAX_ID_LEN then Read.decline
    else
      let idStart := off + 2
      let idEnd := idStart + idLen.toNat
      if idEnd + 8 + 1 + 1 + 32 > data.length then Read.decline
      else
        let id ← Read.index (slice data idStart idEnd)
        let idHash ← Read.index (u64At data idEnd)
        let status ← Read.index data[idEnd + 8]?
        let trust ← Read.index data[idEnd + 9]?
        let statementHash ← Read.index (slice data (idEnd + 10) (idEnd + 10 + 32))
        pure { id, idHash, status, trust, statementHash }

def nextObligationOffset (data : Bytes) (off : Nat) : Read Nat := do
  if off + 2 > data.length then Read.decline
  else
    let idLen ← Read.index (u16At data off)
    let total := 2 + idLen.toNat + 8 + 1 + 1 + 32
    if total > data.length - off then Read.decline else pure (off + total)

/-- The offset behind `n` obligations, whose ids do not decrease. -/
def walkObligations (data : Bytes) : Nat → Nat → Option Bytes → Read Nat
  | 0, off, _ => pure off
  | n + 1, off, prev => do
    let entry ← parseObligation data off
    if entry.status > VM_STATUS_ASSUMED ∨ entry.trust > VM_TRUST_PROOF then Read.decline
    else if prev.any (fun prevId => entry.id < prevId) then Read.decline
    else
      let off ← nextObligationOffset data off
      walkObligations data n off (some entry.id)

def readLenBytes (payload : Bytes) (p : Nat) : Read (Bytes × Nat) := do
  if p + 2 > payload.length then Read.decline
  else
    let len ← Read.index (u16At payload p)
    if p + 2 + len.toNat > payload.length then Read.decline
    else
      let bytes ← Read.index (slice payload (p + 2) (p + 2 + len.toNat))
      pure (bytes, p + 2 + len.toNat)

/-- The payload of a record that starts at `start`. -/
def scanPayload (payload : Bytes) (start : Nat) : Read VerifyManifest := do
  let (semantics, p) ← readLenBytes payload 0
  let (stmt, p) ← readLenBytes payload p
  let (target, p) ← readLenBytes payload p
  let (model, p) ← readLenBytes payload p
  if p + 1 > payload.length then Read.decline
  else
    let policy ← Read.index payload[p]?
    if p + 1 + 1 > payload.length then Read.decline
    else
      let certifierClass ← Read.index payload[p + 1]?
      let (certifierName, p) ← readLenBytes payload (p + 2)
      let (certifierRecognition, p) ← readLenBytes payload p
      if p + 2 > payload.length then Read.decline
      else
        let candidateRatio ← Read.index (u16At payload p)
        if p + 2 + 4 > payload.length then Read.decline
        else
          let count ← Read.index (u32At payload (p + 2))
          let p := p + 6
          if count.toNat > VM_MAX_COUNT then Read.decline
          else if p + 16 > payload.length then Read.decline
          else
            let proof ← Read.index (u32At payload p)
            let checked ← Read.index (u32At payload (p + 4))
            let assumed ← Read.index (u32At payload (p + 8))
            let open' ← Read.index (u32At payload (p + 12))
            let p := p + 16
            if policy > VM_POLICY_PROVEN ∨ certifierClass > VM_CERTIFIER_PORT then Read.decline
            else
              let off ← walkObligations payload count.toNat p none
              if off + 32 > payload.length then Read.decline
              else
                let digest ← Read.index (slice payload off (off + 32))
                pure {
                  semantics, stmt, target, model, policy, certifierClass, certifierName
                  certifierRecognition, candidateRatio, digest
                  count := count.toNat
                  counts := [proof, checked, assumed, open']
                  obligationsStart := start + p
                  obligationsEnd := start + off }

def scanVerifyManifest (data : Bytes) : Read (Option VerifyManifest) := do
  let total := data.length
  if total < 8 then pure none
  else
    let tag ← Read.index (u32At data (total - 4))
    if tag ≠ VM_TAG then pure none
    else
      let size ← Read.index (u32At data (total - 8))
      if size.toNat > VM_MAX_RECORD then Read.decline
      else if size.toNat + 8 > total then Read.decline
      else
        let start := total - 8 - size.toNat
        let payload ← Read.index (slice data start (start + size.toNat))
        let vm ← scanPayload payload start
        pure (some vm)

/-- The offset behind `n` obligations. -/
def skipObligations (data : Bytes) : Nat → Nat → Read Nat
  | 0, off => pure off
  | n + 1, off => do
    let off ← nextObligationOffset data off
    skipObligations data n off

def obligation (vm : VerifyManifest) (data : Bytes) (idx : Nat) : Read ObligationRef := do
  if idx ≥ vm.count then Read.decline
  else
    let off ← skipObligations data idx vm.obligationsStart
    parseObligation data off

def compareIds (a b : Bytes) : Ordering := if a < b then .lt else if b < a then .gt else .eq

/-- The place of an obligation with an id; it is declined where there is none. -/
def findObligation (vm : VerifyManifest) (data id : Bytes) : Read Nat := do
  let probe := fun mid => do
    let e ← obligation vm data mid
    pure (compareIds e.id id)
  let found ← Lib.bisect probe (vm.count + 1) 0 vm.count
  Read.orDecline found

end Tyu

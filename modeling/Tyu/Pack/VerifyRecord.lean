import Tyu.Lib.Cursor
import Tyu.Loader.VerifyManifest

/-!
# Writing the verification record

The packer sorts the obligations of a summary by their ids, writes them behind the header fields,
and closes the record with the digest of the obligations, the size and the tag.
-/

namespace Tyu

open Lib Lib.Wire

abbrev Sha256Digest := { bytes : Bytes // bytes.length = 32 }

structure ObligationSpec where
  id : Bytes
  idHash : UInt64
  status : UInt8
  trust : UInt8
  statementHash : Sha256Digest

structure VerifyManifestSpec where
  semantics : Bytes
  stmt : Bytes
  target : Bytes
  model : Bytes
  policy : UInt8
  certifierClass : UInt8
  certifierName : Bytes
  certifierRecognition : Bytes
  candidateRatio : UInt16
  counts : Vector UInt32 4
  obligations : List ObligationSpec

def lenBytes (bytes : Bytes) : Bytes := put16 (UInt16.ofNat bytes.length) ++ bytes

def pushLenBytes (out bytes : Bytes) : Except String Bytes :=
  if bytes.length > 0xFFFF then .error "verify_manifest: field exceeds 64 KiB"
  else .ok (out ++ lenBytes bytes)

def sortObligations (obligations : List ObligationSpec) : List ObligationSpec :=
  obligations.mergeSort fun a b => !decide (b.id < a.id)

def pushObligation (region : Bytes) (o : ObligationSpec) : Except String Bytes := do
  require (o.id.length ≤ VM_MAX_ID_LEN) "verify_manifest: obligation id exceeds 512 B"
  require (o.status ≤ VM_STATUS_ASSUMED ∧ o.trust ≤ VM_TRUST_PROOF)
    "verify_manifest: obligation status/trust out of the closed set"
  let region ← pushLenBytes region o.id
  pure (region ++ put64 o.idHash ++ [o.status, o.trust] ++ o.statementHash.1)

def encodeVerifyManifest (sha256 : Bytes → Sha256Digest) (spec : VerifyManifestSpec) :
    Except String Bytes := do
  require (spec.policy ≤ VM_POLICY_PROVEN ∧ spec.certifierClass ≤ VM_CERTIFIER_PORT)
    "verify_manifest: policy/certifier class out of the closed set"
  require (spec.obligations.length ≤ VM_MAX_COUNT)
    "verify_manifest: obligation count exceeds the cap"
  let ob := sortObligations spec.obligations
  let region ← ob.foldlM pushObligation []
  let payload ← pushLenBytes [] spec.semantics
  let payload ← pushLenBytes payload spec.stmt
  let payload ← pushLenBytes payload spec.target
  let payload ← pushLenBytes payload spec.model
  let payload := payload ++ [spec.policy, spec.certifierClass]
  let payload ← pushLenBytes payload spec.certifierName
  let payload ← pushLenBytes payload spec.certifierRecognition
  let payload := payload ++ put16 spec.candidateRatio ++ put32 (UInt32.ofNat ob.length) ++
    put32 spec.counts[0] ++ put32 spec.counts[1] ++ put32 spec.counts[2] ++
    put32 spec.counts[3] ++ region ++ (sha256 region).1
  require ((UInt32.ofNat payload.length).toNat ≤ VM_MAX_RECORD)
    "verify_manifest: record exceeds the 4 MiB cap"
  pure (payload ++ put32 (UInt32.ofNat payload.length) ++ put32 VM_TAG)

def ObligationSpec.toRef (o : ObligationSpec) : ObligationRef :=
  { id := o.id, idHash := o.idHash, status := o.status, trust := o.trust
    statementHash := o.statementHash.1 }

structure ObligationSpec.Accepted (o : ObligationSpec) : Prop where
  id : o.id.length ≤ VM_MAX_ID_LEN
  status : o.status ≤ VM_STATUS_ASSUMED
  trust : o.trust ≤ VM_TRUST_PROOF

def ObligationSpec.entry (o : ObligationSpec) : Bytes :=
  lenBytes o.id ++ (put64 o.idHash ++ (o.status :: o.trust :: o.statementHash.1))

def entries (obligations : List ObligationSpec) : Bytes := obligations.flatMap (·.entry)

theorem length_lenBytes (bytes : Bytes) : (lenBytes bytes).length = 2 + bytes.length := by
  unfold lenBytes
  rw [List.length_append, length_put16]

theorem ObligationSpec.length_entry (o : ObligationSpec) : o.entry.length = o.id.length + 44 := by
  unfold entry
  simp only [List.length_append, List.length_cons, length_lenBytes, length_put64,
    o.statementHash.2]
  omega

theorem pushLenBytes_eq_ok {out bytes out' : Bytes} :
    pushLenBytes out bytes = .ok out' ↔ bytes.length ≤ 0xFFFF ∧ out' = out ++ lenBytes bytes := by
  unfold pushLenBytes
  by_cases h : bytes.length > 0xFFFF
  · rw [if_pos h]
    constructor
    · intro hok
      cases hok
    · intro hok
      omega
  · rw [if_neg h, Except.ok.injEq]
    constructor
    · rintro rfl
      exact ⟨by omega, rfl⟩
    · exact fun hok => hok.2.symm

theorem pushObligation_eq_ok {region region' : Bytes} {o : ObligationSpec} :
    pushObligation region o = .ok region' ↔ o.Accepted ∧ region' = region ++ o.entry := by
  have hentry : region ++ lenBytes o.id ++ put64 o.idHash ++ [o.status, o.trust] ++
      o.statementHash.1 = region ++ o.entry := by
    unfold ObligationSpec.entry
    simp only [List.append_assoc, List.cons_append, List.nil_append]
  unfold pushObligation
  simp only [bind_eq_ok, require_eq_ok, pushLenBytes_eq_ok, pure_eq_ok]
  constructor
  · rintro ⟨-, hid, -, ⟨hstatus, htrust⟩, r, ⟨-, rfl⟩, rfl⟩
    exact ⟨⟨hid, hstatus, htrust⟩, hentry⟩
  · rintro ⟨ho, rfl⟩
    have hid : o.id.length ≤ 512 := ho.id
    exact ⟨⟨⟩, ho.id, ⟨⟩, ⟨ho.status, ho.trust⟩, _, ⟨by omega, rfl⟩, hentry⟩

theorem pushObligations_eq_ok {obligations : List ObligationSpec} {region region' : Bytes} :
    obligations.foldlM pushObligation region = .ok region' ↔
      (∀ o ∈ obligations, o.Accepted) ∧ region' = region ++ entries obligations := by
  induction obligations generalizing region with
  | nil =>
    rw [List.foldlM_nil, pure_eq_ok, entries, List.flatMap_nil, List.append_nil]
    exact ⟨fun h => ⟨fun o ho => absurd ho List.not_mem_nil, h.symm⟩, fun h => h.2.symm⟩
  | cons o rest ih =>
    rw [List.foldlM_cons, bind_eq_ok, entries, List.flatMap_cons, ← List.append_assoc,
      List.forall_mem_cons]
    constructor
    · rintro ⟨r, hr, h⟩
      obtain ⟨ho, rfl⟩ := pushObligation_eq_ok.mp hr
      obtain ⟨hrest, rfl⟩ := ih.mp h
      exact ⟨⟨ho, hrest⟩, rfl⟩
    · rintro ⟨⟨ho, hrest⟩, rfl⟩
      exact ⟨_, pushObligation_eq_ok.mpr ⟨ho, rfl⟩, ih.mpr ⟨hrest, rfl⟩⟩

/-! ## The payload -/

def VerifyManifestSpec.header (spec : VerifyManifestSpec) : Bytes :=
  lenBytes spec.semantics ++ (lenBytes spec.stmt ++ (lenBytes spec.target ++
    (lenBytes spec.model ++ (spec.policy :: spec.certifierClass ::
      (lenBytes spec.certifierName ++ (lenBytes spec.certifierRecognition ++
        (put16 spec.candidateRatio ++ (put32 (UInt32.ofNat spec.obligations.length) ++
          (put32 spec.counts[0] ++ (put32 spec.counts[1] ++ (put32 spec.counts[2] ++
            put32 spec.counts[3])))))))))))

def VerifyManifestSpec.region (spec : VerifyManifestSpec) : Bytes :=
  entries (sortObligations spec.obligations)

structure VerifyManifestSpec.Fits (spec : VerifyManifestSpec) : Prop where
  semantics : spec.semantics.length ≤ 0xFFFF
  stmt : spec.stmt.length ≤ 0xFFFF
  target : spec.target.length ≤ 0xFFFF
  model : spec.model.length ≤ 0xFFFF
  certifierName : spec.certifierName.length ≤ 0xFFFF
  certifierRecognition : spec.certifierRecognition.length ≤ 0xFFFF
  policy : spec.policy ≤ VM_POLICY_PROVEN
  certifierClass : spec.certifierClass ≤ VM_CERTIFIER_PORT
  count : spec.obligations.length ≤ VM_MAX_COUNT
  accepted : ∀ o ∈ sortObligations spec.obligations, o.Accepted

theorem length_sortObligations (obligations : List ObligationSpec) :
    (sortObligations obligations).length = obligations.length := List.length_mergeSort _

def VerifyManifestSpec.payload (sha256 : Bytes → Sha256Digest) (spec : VerifyManifestSpec) :
    Bytes :=
  spec.header ++ (spec.region ++ (sha256 spec.region).1)

theorem length_entries_le {obligations : List ObligationSpec}
    (h : ∀ o ∈ obligations, o.Accepted) :
    (entries obligations).length ≤ 556 * obligations.length := by
  induction obligations with
  | nil => exact Nat.le_refl _
  | cons o rest ih =>
    have hid : o.id.length ≤ 512 := (h o List.mem_cons_self).id
    have hrest := ih fun o' ho' => h o' (List.mem_cons_of_mem _ ho')
    unfold entries at hrest ⊢
    rw [List.flatMap_cons, List.length_append, o.length_entry, List.length_cons]
    omega

variable {sha256 : Bytes → Sha256Digest} {spec : VerifyManifestSpec} {a b : Bytes}

theorem VerifyManifestSpec.Fits.length_payload (h : spec.Fits) :
    (spec.payload sha256).length ≤ VM_MAX_RECORD := by
  have hregion := length_entries_le h.accepted
  rw [length_sortObligations] at hregion
  have hcount : spec.obligations.length ≤ 4096 := h.count
  have hdigest := (sha256 spec.region).2
  have hsemantics := h.semantics
  have hstmt := h.stmt
  have htarget := h.target
  have hmodel := h.model
  have hname := h.certifierName
  have hrecognition := h.certifierRecognition
  unfold payload header
  simp only [List.length_append, List.length_cons, length_lenBytes, length_put16, length_put32]
  rw [hdigest]
  show _ ≤ 4 * 1024 * 1024
  unfold region
  omega

theorem encodeVerifyManifest_eq_ok {record : Bytes} :
    encodeVerifyManifest sha256 spec = .ok record ↔
      spec.Fits ∧ record = spec.payload sha256 ++
        (put32 (UInt32.ofNat (spec.payload sha256).length) ++ put32 VM_TAG) := by
  have hpayload : [] ++ lenBytes spec.semantics ++ lenBytes spec.stmt ++
      lenBytes spec.target ++ lenBytes spec.model ++ [spec.policy, spec.certifierClass] ++
      lenBytes spec.certifierName ++ lenBytes spec.certifierRecognition ++
      put16 spec.candidateRatio ++
      put32 (UInt32.ofNat (sortObligations spec.obligations).length) ++ put32 spec.counts[0] ++
      put32 spec.counts[1] ++ put32 spec.counts[2] ++ put32 spec.counts[3] ++
      ([] ++ spec.region) ++ (sha256 ([] ++ spec.region)).1 = spec.payload sha256 := by
    unfold VerifyManifestSpec.payload VerifyManifestSpec.header
    rw [length_sortObligations]
    simp only [List.append_assoc, List.cons_append, List.nil_append]
  unfold encodeVerifyManifest
  simp only [bind_eq_ok, require_eq_ok, pushLenBytes_eq_ok, pushObligations_eq_ok, pure_eq_ok]
  constructor
  · rintro ⟨-, ⟨hpolicy, hclass⟩, -, hcount, region, ⟨haccepted, rfl⟩, p₁, ⟨hsemantics, rfl⟩, p₂,
      ⟨hstmt, rfl⟩, p₃, ⟨htarget, rfl⟩, p₄, ⟨hmodel, rfl⟩, p₅, ⟨hname, rfl⟩, p₆,
      ⟨hrecognition, rfl⟩, -, -, rfl⟩
    refine ⟨⟨hsemantics, hstmt, htarget, hmodel, hname, hrecognition, hpolicy, hclass, hcount,
      haccepted⟩, ?_⟩
    rw [← hpayload]
    simp only [VerifyManifestSpec.region, List.append_assoc]
  · rintro ⟨h, rfl⟩
    refine ⟨⟨⟩, ⟨h.policy, h.certifierClass⟩, ⟨⟩, h.count, _, ⟨h.accepted, rfl⟩, _,
      ⟨h.semantics, rfl⟩, _, ⟨h.stmt, rfl⟩, _, ⟨h.target, rfl⟩, _, ⟨h.model, rfl⟩, _,
      ⟨h.certifierName, rfl⟩, _, ⟨h.certifierRecognition, rfl⟩, ⟨⟩, ?_, ?_⟩
    · have hcap : (spec.payload sha256).length ≤ 4194304 := h.length_payload
      unfold VerifyManifestSpec.region at hpayload
      rw [hpayload, UInt32.toNat_ofNat', Nat.mod_eq_of_lt (by omega)]
      exact hcap
    · unfold VerifyManifestSpec.region at hpayload
      rw [hpayload, List.append_assoc]

/-! ## Reading an obligation back -/

theorem toNat_length16 {n : Nat} (h : n ≤ 0xFFFF) : (UInt16.ofNat n).toNat = n := by
  rw [UInt16.toNat_ofNat', Nat.mod_eq_of_lt (by omega)]

section Reading

variable {bs rest : Bytes} {off : Nat}

theorem readLenBytes_written {bytes : Bytes} (hlen : bytes.length ≤ 0xFFFF)
    (h : Behind bs off (lenBytes bytes ++ rest)) :
    (readLenBytes bs off).run = some (some (bytes, off + 2 + bytes.length)) ∧
      Behind bs (off + 2 + bytes.length) rest := by
  unfold lenBytes at h
  rw [List.append_assoc] at h
  have hbytes : Behind bs (off + 2) (bytes ++ rest) := h.skip16
  have htotal := hbytes.length
  rw [List.length_append] at htotal
  refine ⟨?_, hbytes.skip⟩
  unfold readLenBytes
  rw [if_neg (by omega), h.u16]
  show (if off + 2 + (UInt16.ofNat bytes.length).toNat > bs.length then Read.decline
    else _ : Read (Bytes × Nat)).run = _
  rw [toNat_length16 hlen, if_neg (by omega), hbytes.slice]
  rfl

variable {o : ObligationSpec}

theorem behind_entry (h : Behind bs off (o.entry ++ rest)) :
    Behind bs off (put16 (UInt16.ofNat o.id.length) ++ (o.id ++ (put64 o.idHash ++
      (o.status :: o.trust :: (o.statementHash.1 ++ rest))))) ∧
      Behind bs (off + o.entry.length) rest := by
  refine ⟨?_, h.skip⟩
  unfold ObligationSpec.entry lenBytes at h
  simpa only [List.append_assoc, List.cons_append] using h

theorem parseObligation_written (ho : o.Accepted) (h : Behind bs off (o.entry ++ rest)) :
    (parseObligation bs off).run = some (some o.toRef) := by
  obtain ⟨hid, hrest⟩ := behind_entry h
  have htotal := hrest.length
  rw [o.length_entry] at htotal
  have hlen : o.id.length ≤ 512 := ho.id
  have hhash : Behind bs (off + 2 + o.id.length) _ := hid.skip16.skip
  have hstatus := hhash.skip64
  have hstatement := hstatus.skip_byte.skip_byte
  unfold parseObligation
  rw [if_neg (by omega), hid.u16]
  show (if (UInt16.ofNat o.id.length).toNat > VM_MAX_ID_LEN then Read.decline
    else _ : Read ObligationRef).run = _
  rw [toNat_length16 (by omega), if_neg (Nat.not_lt.mpr ho.id), if_neg (by omega),
    hid.skip16.slice, hhash.u64, hstatus.byte]
  have htrust : bs[off + 2 + o.id.length + 9]? = some o.trust := hstatus.skip_byte.byte
  have hslice := hstatement.slice
  rw [o.statementHash.2] at hslice
  rw [htrust]
  have hdigest : slice bs (off + 2 + o.id.length + 10) (off + 2 + o.id.length + 10 + 32) =
      some o.statementHash.1 := hslice
  rw [hdigest]
  rfl

theorem nextObligationOffset_written (ho : o.Accepted) (h : Behind bs off (o.entry ++ rest)) :
    (nextObligationOffset bs off).run = some (some (off + o.entry.length)) := by
  obtain ⟨hid, hrest⟩ := behind_entry h
  have htotal := hrest.length
  rw [o.length_entry] at htotal ⊢
  have hlen : o.id.length ≤ 512 := ho.id
  unfold nextObligationOffset
  rw [if_neg (by omega), hid.u16]
  show (if 2 + (UInt16.ofNat o.id.length).toNat + 8 + 1 + 1 + 32 > bs.length - off
    then Read.decline else _ : Read Nat).run = _
  rw [toNat_length16 (by omega), if_neg (by omega)]
  show some (some (off + (2 + o.id.length + 8 + 1 + 1 + 32))) = _
  rw [show 2 + o.id.length + 8 + 1 + 1 + 32 = o.id.length + 44 by omega]

theorem walkObligations_written {obligations : List ObligationSpec} {prev : Option Bytes}
    (haccepted : ∀ o ∈ obligations, o.Accepted)
    (hsorted : obligations.Pairwise fun a b => a.id ≤ b.id)
    (hprev : ∀ p, prev = some p → ∀ o ∈ obligations, p ≤ o.id)
    (h : Behind bs off (entries obligations ++ rest)) :
    (walkObligations bs obligations.length off prev).run =
      some (some (off + (entries obligations).length)) := by
  induction obligations generalizing off prev with
  | nil => rfl
  | cons o tail ih =>
    have ho := haccepted o List.mem_cons_self
    rw [List.pairwise_cons] at hsorted
    unfold entries at h
    rw [List.flatMap_cons, List.append_assoc] at h
    have horder : ¬ (prev.any fun prevId => o.id < prevId) = true := by
      cases prev with
      | none => exact Bool.false_ne_true
      | some p =>
        have hle := hprev p rfl o List.mem_cons_self
        simpa using hle
    rw [List.length_cons]
    unfold walkObligations
    refine Read.bind_eq_some.mpr ⟨_, parseObligation_written ho h, ?_⟩
    have hset : ¬ (o.toRef.status > VM_STATUS_ASSUMED ∨ o.toRef.trust > VM_TRUST_PROOF) := by
      rintro (hset | hset)
      · exact UInt8.not_lt.mpr ho.status hset
      · exact UInt8.not_lt.mpr ho.trust hset
    rw [if_neg hset]
    refine (congrArg OptionT.run (if_neg horder)).trans ?_
    refine Read.bind_eq_some.mpr ⟨_, nextObligationOffset_written ho h, ?_⟩
    have hafter : ∀ p, some o.id = some p → ∀ o' ∈ tail, p ≤ o'.id := by
      intro p hp o' ho'
      cases hp
      exact hsorted.1 o' ho'
    have htail := ih (fun o' ho' => haccepted o' (List.mem_cons_of_mem _ ho')) hsorted.2 hafter
      h.skip
    rw [entries, List.flatMap_cons, List.length_append, ← Nat.add_assoc]
    exact htail

theorem skipObligations_written {obligations : List ObligationSpec} {i : Nat}
    (haccepted : ∀ o ∈ obligations, o.Accepted) (hi : i ≤ obligations.length)
    (h : Behind bs off (entries obligations ++ rest)) :
    ∃ at', (skipObligations bs i off).run = some (some at') ∧
      Behind bs at' (entries (obligations.drop i) ++ rest) := by
  induction i generalizing off obligations with
  | zero => exact ⟨off, rfl, h⟩
  | succ i ih =>
    cases obligations with
    | nil => exact absurd hi (Nat.not_succ_le_zero i)
    | cons o tail =>
      unfold entries at h
      rw [List.flatMap_cons, List.append_assoc] at h
      obtain ⟨at', hrun, hat⟩ := ih
        (fun o' ho' => haccepted o' (List.mem_cons_of_mem _ ho')) (Nat.le_of_succ_le_succ hi)
        h.skip
      refine ⟨at', ?_, hat⟩
      unfold skipObligations
      exact Read.bind_eq_some.mpr
        ⟨_, nextObligationOffset_written (haccepted o List.mem_cons_self) h, hrun⟩

theorem obligation_written {obligations : List ObligationSpec} {vm : VerifyManifest}
    (haccepted : ∀ o ∈ obligations, o.Accepted) (hcount : vm.count = obligations.length)
    (h : Behind bs vm.obligationsStart (entries obligations ++ rest)) (i : Nat) :
    (obligation vm bs i).run = some (obligations[i]?.map (·.toRef)) := by
  unfold obligation
  by_cases hi : i < obligations.length
  · rw [if_neg (by omega), List.getElem?_eq_getElem hi]
    obtain ⟨at', hrun, hat⟩ := skipObligations_written haccepted (Nat.le_of_lt hi) h
    rw [List.drop_eq_getElem_cons hi, entries, List.flatMap_cons, List.append_assoc] at hat
    exact Read.bind_eq_some.mpr
      ⟨_, hrun, parseObligation_written (haccepted _ (List.getElem_mem hi)) hat⟩
  · rw [if_pos (by omega), List.getElem?_eq_none (by omega)]
    rfl

end Reading

/-! ## Scanning the record -/

/-- What is read from the record of a summary that starts at `start`. -/
def VerifyManifestSpec.manifest (sha256 : Bytes → Sha256Digest) (spec : VerifyManifestSpec)
    (start : Nat) : VerifyManifest where
  semantics := spec.semantics
  stmt := spec.stmt
  target := spec.target
  model := spec.model
  policy := spec.policy
  certifierClass := spec.certifierClass
  certifierName := spec.certifierName
  certifierRecognition := spec.certifierRecognition
  candidateRatio := spec.candidateRatio
  count := spec.obligations.length
  counts := [spec.counts[0], spec.counts[1], spec.counts[2], spec.counts[3]]
  obligationsStart := start + spec.header.length
  obligationsEnd := start + (spec.header.length + spec.region.length)
  digest := (sha256 spec.region).1

theorem sortObligations_sorted (obligations : List ObligationSpec) :
    (sortObligations obligations).Pairwise fun a b => a.id ≤ b.id := by
  have hsorted : (sortObligations obligations).Pairwise fun a b =>
      (!decide (b.id < a.id)) = true := by
    apply List.pairwise_mergeSort
    · intro a b c hab hbc
      simp only [Bool.not_eq_true', decide_eq_false_iff_not, List.not_lt] at hab hbc ⊢
      exact List.le_trans hab hbc
    · intro a b
      simp only [Bool.or_eq_true, Bool.not_eq_true', decide_eq_false_iff_not, List.not_lt]
      exact List.le_total a.id b.id
  refine hsorted.imp fun {a b} hab => ?_
  simpa only [Bool.not_eq_true', decide_eq_false_iff_not, List.not_lt] using hab

theorem scanPayload_written (h : spec.Fits) (start : Nat) :
    (scanPayload (spec.payload sha256) start).run = some (some (spec.manifest sha256 start)) := by
  obtain ⟨payload, hpayload⟩ : ∃ payload, payload = spec.payload sha256 := ⟨_, rfl⟩
  have hbegin : Behind payload 0 (spec.payload sha256) := by
    rw [← hpayload]
    exact .start payload
  rw [← hpayload]
  unfold VerifyManifestSpec.payload VerifyManifestSpec.header at hbegin
  simp only [List.append_assoc, List.cons_append] at hbegin
  obtain ⟨hsemantics, hbegin⟩ := readLenBytes_written h.semantics hbegin
  obtain ⟨hstmt, hbegin⟩ := readLenBytes_written h.stmt hbegin
  obtain ⟨htarget, hbegin⟩ := readLenBytes_written h.target hbegin
  obtain ⟨hmodel, hpolicy⟩ := readLenBytes_written h.model hbegin
  have hclass := hpolicy.skip_byte
  obtain ⟨hname, hbegin⟩ := readLenBytes_written h.certifierName hclass.skip_byte
  obtain ⟨hrecognition, hratio⟩ := readLenBytes_written h.certifierRecognition hbegin
  have hcount := hratio.skip16
  have hproof := hcount.skip32
  have hchecked := hproof.skip32
  have hassumed := hchecked.skip32
  have hopen := hassumed.skip32
  have hregion := hopen.skip32
  obtain ⟨p, hp⟩ : ∃ p, p = spec.header.length := ⟨_, rfl⟩
  have hoff : 0 + 2 + spec.semantics.length + 2 + spec.stmt.length + 2 + spec.target.length + 2 +
      spec.model.length + 1 + 1 + 2 + spec.certifierName.length + 2 +
      spec.certifierRecognition.length + 2 + 4 + 4 + 4 + 4 + 4 = p := by
    rw [hp]
    unfold VerifyManifestSpec.header
    simp only [List.length_append, List.length_cons, length_lenBytes, length_put16, length_put32]
    omega
  rw [hoff] at hregion
  have hend := hregion.skip
  have hlength := hend.length
  rw [(sha256 spec.region).2] at hlength
  have hdigest : slice payload (p + spec.region.length) (p + spec.region.length + 32) =
      some (sha256 spec.region).1 := by
    rw [← List.append_nil (sha256 spec.region).1] at hend
    rw [← hend.slice, (sha256 spec.region).2]
  have hsorted := sortObligations_sorted spec.obligations
  have hnone : ∀ q, (none : Option Bytes) = some q →
      ∀ o ∈ sortObligations spec.obligations, q ≤ o.id := fun q hq => nomatch hq
  have hwalk := walkObligations_written h.accepted hsorted hnone hregion
  rw [length_sortObligations] at hwalk
  have hcountLe : spec.obligations.length ≤ 4096 := h.count
  have hcount32 : (UInt32.ofNat spec.obligations.length).toNat = spec.obligations.length := by
    rw [UInt32.toNat_ofNat', Nat.mod_eq_of_lt (by omega)]
  unfold scanPayload
  refine Read.bind_eq_some.mpr ⟨_, hsemantics, ?_⟩
  refine Read.bind_eq_some.mpr ⟨_, hstmt, ?_⟩
  refine Read.bind_eq_some.mpr ⟨_, htarget, ?_⟩
  refine Read.bind_eq_some.mpr ⟨_, hmodel, ?_⟩
  dsimp only
  rw [if_neg (by omega), hpolicy.byte]
  refine Read.bind_eq_some.mpr ⟨_, rfl, ?_⟩
  rw [if_neg (by omega), hclass.byte]
  refine Read.bind_eq_some.mpr ⟨_, rfl, ?_⟩
  refine Read.bind_eq_some.mpr ⟨_, hname, ?_⟩
  refine Read.bind_eq_some.mpr ⟨_, hrecognition, ?_⟩
  dsimp only
  rw [if_neg (by omega), hratio.u16]
  refine Read.bind_eq_some.mpr ⟨_, rfl, ?_⟩
  rw [if_neg (by omega), hcount.u32]
  refine Read.bind_eq_some.mpr ⟨_, rfl, ?_⟩
  rw [hcount32, if_neg (Nat.not_lt.mpr h.count), if_neg (by omega), hproof.u32]
  refine Read.bind_eq_some.mpr ⟨_, rfl, ?_⟩
  rw [hchecked.u32]
  refine Read.bind_eq_some.mpr ⟨_, rfl, ?_⟩
  rw [hassumed.u32]
  refine Read.bind_eq_some.mpr ⟨_, rfl, ?_⟩
  rw [hopen.u32]
  refine Read.bind_eq_some.mpr ⟨_, rfl, ?_⟩
  have hset : ¬ (spec.policy > VM_POLICY_PROVEN ∨ spec.certifierClass > VM_CERTIFIER_PORT) := by
    rintro (hset | hset)
    · exact UInt8.not_lt.mpr h.policy hset
    · exact UInt8.not_lt.mpr h.certifierClass hset
  rw [if_neg hset]
  rw [← hoff] at hwalk hdigest hlength
  have hlen : (entries (sortObligations spec.obligations)).length = spec.region.length := rfl
  rw [hlen] at hwalk
  refine Read.bind_eq_some.mpr ⟨_, hwalk, ?_⟩
  rw [if_neg (by omega), hdigest]
  refine Read.bind_eq_some.mpr ⟨_, rfl, ?_⟩
  unfold VerifyManifestSpec.manifest
  rw [← hp, ← hoff]
  rfl

theorem scan_written (h : spec.Fits) (pre : Bytes) :
    (scanVerifyManifest (pre ++ (spec.payload sha256 ++
      (put32 (UInt32.ofNat (spec.payload sha256).length) ++ put32 VM_TAG)))).run =
        some (some (some (spec.manifest sha256 pre.length))) := by
  have hcap : (spec.payload sha256).length ≤ 4194304 := h.length_payload
  have hscan : (scanPayload (spec.payload sha256) pre.length).run = _ :=
    scanPayload_written h pre.length
  generalize spec.payload sha256 = payload at hcap hscan ⊢
  obtain ⟨data, hdata⟩ : ∃ data, data = pre ++ (payload ++
    (put32 (UInt32.ofNat payload.length) ++ put32 VM_TAG)) := ⟨_, rfl⟩
  have hpayload : Behind data pre.length (payload ++
      (put32 (UInt32.ofNat payload.length) ++ put32 VM_TAG)) := by
    rw [hdata]
    exact .append pre _
  rw [← hdata]
  have hsize := hpayload.skip
  have htag : Behind data (pre.length + payload.length + 4) (put32 VM_TAG ++ []) := by
    rw [List.append_nil]
    exact hsize.skip32
  have htotal := htag.skip32.length
  rw [List.length_nil, Nat.add_zero] at htotal
  have hsize32 : (UInt32.ofNat payload.length).toNat = payload.length := by
    rw [UInt32.toNat_ofNat', Nat.mod_eq_of_lt (by omega)]
  unfold scanVerifyManifest
  dsimp only
  rw [if_neg (by omega), show data.length - 4 = pre.length + payload.length + 4 by omega,
    htag.u32]
  refine Read.bind_eq_some.mpr ⟨_, rfl, ?_⟩
  rw [if_neg (not_not_intro rfl), show data.length - 8 = pre.length + payload.length by omega,
    hsize.u32]
  refine Read.bind_eq_some.mpr ⟨_, rfl, ?_⟩
  have hcap' : ¬ payload.length > VM_MAX_RECORD := Nat.not_lt.mpr hcap
  rw [hsize32, if_neg hcap', if_neg (by omega), Nat.add_sub_cancel, hpayload.slice]
  refine Read.bind_eq_some.mpr ⟨_, rfl, ?_⟩
  exact Read.bind_eq_some.mpr ⟨_, hscan, rfl⟩

theorem compareIds_eq_lt : compareIds a b = .lt ↔ a < b := by
  unfold compareIds
  split
  · simp_all
  · split <;> simp_all

theorem compareIds_eq_gt : compareIds a b = .gt ↔ b < a := by
  unfold compareIds
  split
  · next h =>
    refine ⟨fun hgt => (nomatch hgt), fun hlt => ?_⟩
    exact absurd (List.lt_of_le_of_lt (List.le_of_lt h) hlt) (List.lt_irrefl a)
  · split <;> simp_all

theorem compareIds_eq_eq : compareIds a b = .eq ↔ a = b := by
  constructor
  · intro h
    have hlt : ¬ a < b := fun hlt => by
      rw [compareIds_eq_lt.mpr hlt] at h
      cases h
    have hgt : ¬ b < a := fun hgt => by
      rw [compareIds_eq_gt.mpr hgt] at h
      cases h
    exact List.le_antisymm hgt hlt
  · rintro rfl
    unfold compareIds
    rw [if_neg (List.lt_irrefl a), if_neg (List.lt_irrefl a)]

def answerAt (obligations : List ObligationSpec) (id : Bytes) (i : Nat) : Ordering :=
  match obligations[i]? with
  | some o => compareIds o.id id
  | none => .eq

theorem answerAt_of_lt {obligations : List ObligationSpec} {i : Nat} (id : Bytes)
    (hi : i < obligations.length) :
    answerAt obligations id i = compareIds obligations[i].id id := by
  unfold answerAt
  rw [List.getElem?_eq_getElem hi]

theorem ascending_answerAt {obligations : List ObligationSpec}
    (hsorted : obligations.Pairwise fun a b => a.id ≤ b.id) (id : Bytes) :
    Ascending obligations.length (answerAt obligations id) := by
  intro i j hij hj
  have hle : obligations[i].id ≤ obligations[j].id := by
    rcases Nat.lt_or_eq_of_le hij with hlt | rfl
    · exact List.pairwise_iff_getElem.mp hsorted i j (by omega) hj hlt
    · exact List.le_refl _
  rw [answerAt_of_lt id hj, answerAt_of_lt id (Nat.lt_of_le_of_lt hij hj), compareIds_eq_lt,
    compareIds_eq_lt, compareIds_eq_gt, compareIds_eq_gt]
  exact ⟨fun h => List.lt_of_le_of_lt hle h,
    fun h => List.not_le.mp fun hle' => List.le_trans hle hle' h⟩

theorem findObligation_written {obligations : List ObligationSpec} {vm : VerifyManifest}
    {bs rest : Bytes} (haccepted : ∀ o ∈ obligations, o.Accepted)
    (hsorted : obligations.Pairwise fun a b => a.id ≤ b.id)
    (hcount : vm.count = obligations.length)
    (h : Behind bs vm.obligationsStart (entries obligations ++ rest)) (id : Bytes) :
    ∃ r, (findObligation vm bs id).run = some r ∧
      (∀ i, r = some i → ∃ o, obligations[i]? = some o ∧ o.id = id) ∧
      (r = none → ∀ o ∈ obligations, o.id ≠ id) := by
  obtain ⟨probe, hprobe⟩ : ∃ probe : Nat → Read Ordering,
      probe = fun mid => obligation vm bs mid >>= fun e => pure (compareIds e.id id) := ⟨_, rfl⟩
  have hanswers : ∀ i < obligations.length, probe i = pure (answerAt obligations id i) := by
    intro i hi
    have hread := obligation_written haccepted hcount h i
    rw [List.getElem?_eq_getElem hi] at hread
    rw [hprobe, answerAt_of_lt id hi]
    refine OptionT.ext ?_
    exact Read.bind_eq_some.mpr ⟨_, hread, rfl⟩
  have hfuel : vm.count - 0 < vm.count + 1 := by omega
  obtain ⟨r, hr, hfound, hmissed⟩ :=
    bisect_spec hanswers (ascending_answerAt hsorted id) (Nat.le_of_eq hcount) hfuel
  refine ⟨r, ?_, ?_, ?_⟩
  · unfold findObligation
    rw [← hprobe]
    dsimp only
    rw [hr, pure_bind]
    rfl
  · intro i hi
    obtain ⟨hlt, heq⟩ := hfound i hi
    rw [hcount] at hlt
    rw [answerAt_of_lt id hlt, compareIds_eq_eq] at heq
    exact ⟨_, List.getElem?_eq_getElem hlt, heq⟩
  · intro hnone o ho heq
    obtain ⟨i, hi, rfl⟩ := List.getElem_of_mem ho
    refine hmissed hnone i (Nat.zero_le i) (by omega) ?_
    rw [answerAt_of_lt id hi, compareIds_eq_eq]
    exact heq

/-! ## The round trip -/

theorem toList_four (v : Vector UInt32 4) : [v[0], v[1], v[2], v[3]] = v.toList := by
  obtain ⟨⟨l⟩, hl⟩ := v
  match l, hl with
  | [_, _, _, _], _ => rfl

/-- What the loader reads from a section with the record of a summary at its end. -/
structure Carries (sha256 : Bytes → Sha256Digest) (spec : VerifyManifestSpec) (data : Bytes)
    (vm : VerifyManifest) : Prop where
  semantics : vm.semantics = spec.semantics
  stmt : vm.stmt = spec.stmt
  target : vm.target = spec.target
  model : vm.model = spec.model
  policy : vm.policy = spec.policy
  certifierClass : vm.certifierClass = spec.certifierClass
  certifierName : vm.certifierName = spec.certifierName
  certifierRecognition : vm.certifierRecognition = spec.certifierRecognition
  candidateRatio : vm.candidateRatio = spec.candidateRatio
  count : vm.count = spec.obligations.length
  counts : vm.counts = spec.counts.toList
  digest : ∃ region, slice data vm.obligationsStart vm.obligationsEnd = some region ∧
    vm.digest = (sha256 region).1
  /-- The obligations are those of the summary, in the order of their ids. -/
  obligations : ∃ read : List ObligationRef, read.Perm (spec.obligations.map (·.toRef)) ∧
    read.Pairwise (fun a b => a.id ≤ b.id) ∧ ∀ i, (obligation vm data i).run = some read[i]?
  /-- The search finds an obligation with the id exactly where there is one. -/
  find : ∀ id, ∃ found, (findObligation vm data id).run = some found ∧
    (∀ i, found = some i → ∃ o, (obligation vm data i).run = some (some o) ∧ o.id = id) ∧
    (found.isSome = true ↔ ∃ o ∈ spec.obligations, o.id = id)

/-- Whatever stands in front of it, a record that the packer writes is accepted by the scan,
which yields what was packed. -/
theorem verify_manifest_survives (sha256 : Bytes → Sha256Digest) (spec : VerifyManifestSpec)
    (pre record : Bytes) (h : encodeVerifyManifest sha256 spec = .ok record) :
    ∃ vm, (scanVerifyManifest (pre ++ record)).run = some (some (some vm)) ∧
      Carries sha256 spec (pre ++ record) vm := by
  obtain ⟨hfits, rfl⟩ := encodeVerifyManifest_eq_ok.mp h
  refine ⟨spec.manifest sha256 pre.length, scan_written hfits pre, ?_⟩
  have hsorted := sortObligations_sorted spec.obligations
  have hperm : (sortObligations spec.obligations).Perm spec.obligations := List.mergeSort_perm _ _
  have hcount : (spec.manifest sha256 pre.length).count =
      (sortObligations spec.obligations).length := (length_sortObligations _).symm
  generalize hdata : pre ++ (spec.payload sha256 ++ _) = data
  have hregion : Behind data (pre.length + spec.header.length) (spec.region ++
      ((sha256 spec.region).1 ++ (put32 (UInt32.ofNat (spec.payload sha256).length) ++
        put32 VM_TAG))) := by
    rw [← hdata]
    refine Behind.prepend pre ?_
    unfold VerifyManifestSpec.payload
    rw [List.append_assoc, List.append_assoc]
    exact .append _ _
  have hobligation := obligation_written hfits.accepted hcount hregion
  refine {
    semantics := rfl, stmt := rfl, target := rfl, model := rfl, policy := rfl
    certifierClass := rfl, certifierName := rfl, certifierRecognition := rfl
    candidateRatio := rfl, count := rfl, counts := ?_, digest := ⟨spec.region, ?_, rfl⟩
    obligations := ⟨(sortObligations spec.obligations).map (·.toRef), hperm.map _, ?_, ?_⟩
    find := ?_ }
  · exact toList_four spec.counts
  · have hslice := hregion.slice
    rwa [Nat.add_assoc] at hslice
  · exact hsorted.map _ fun _ _ hab => hab
  · intro i
    rw [hobligation i, List.getElem?_map]
  · intro id
    obtain ⟨r, hr, hfound, hmissed⟩ :=
      findObligation_written hfits.accepted hsorted hcount hregion id
    refine ⟨r, hr, ?_, ?_⟩
    · intro i hi
      obtain ⟨o, ho, hid⟩ := hfound i hi
      refine ⟨o.toRef, ?_, hid⟩
      rw [hobligation i, ho]
      rfl
    · constructor
      · intro hsome
        obtain ⟨i, rfl⟩ := Option.isSome_iff_exists.mp hsome
        obtain ⟨o, ho, hid⟩ := hfound i rfl
        exact ⟨o, hperm.mem_iff.mp (List.mem_of_getElem? ho), hid⟩
      · rintro ⟨o, ho, hid⟩
        cases r with
        | none => exact absurd hid (hmissed rfl o (hperm.mem_iff.mpr ho))
        | some i => rfl

def threeObligations : VerifyManifestSpec where
  semantics := [0x73]
  stmt := [0x74]
  target := []
  model := []
  policy := 3
  certifierClass := 1
  certifierName := [0x70]
  certifierRecognition := []
  candidateRatio := 10000
  counts := #v[1, 1, 0, 1]
  obligations :=
    [⟨[0x62], 1, 1, 2, ⟨List.replicate 32 0, rfl⟩⟩, ⟨[0x61], 2, 1, 3, ⟨List.replicate 32 0, rfl⟩⟩,
      ⟨[0x61], 3, 0, 0, ⟨List.replicate 32 0, rfl⟩⟩]

def threeDigest : Sha256Digest :=
  ⟨[0x60, 0x54, 0xbd, 0x82, 0x49, 0x3d, 0x4e, 0x83, 0x0c, 0x7b, 0x4d, 0x5a, 0xe0, 0xb1, 0x67,
    0x7b, 0x57, 0x69, 0x00, 0x9f, 0x3b, 0x47, 0x12, 0x11, 0x64, 0x24, 0x96, 0xd9, 0x4e, 0xe4,
    0x5a, 0x36], rfl⟩

theorem threeObligations_fits : threeObligations.Fits := by
  refine ⟨by decide, by decide, by decide, by decide, by decide, by decide, by decide, by decide,
    by decide, fun o ho => ?_⟩
  have hmem : o ∈ threeObligations.obligations := List.mem_mergeSort.mp ho
  simp only [threeObligations, List.mem_cons, List.not_mem_nil, or_false] at hmem
  rcases hmem with rfl | rfl | rfl
  · exact ⟨by decide, by decide, by decide⟩
  · exact ⟨by decide, by decide, by decide⟩
  · exact ⟨by decide, by decide, by decide⟩

/-- Its record behind four other bytes. -/
theorem threeObligations_survive : ∃ record,
    encodeVerifyManifest (fun _ => threeDigest) threeObligations = .ok record ∧
      ∃ vm, (scanVerifyManifest ([1, 2, 3, 4] ++ record)).run = some (some (some vm)) ∧
        Carries (fun _ => threeDigest) threeObligations ([1, 2, 3, 4] ++ record) vm := by
  have hrecord := encodeVerifyManifest_eq_ok.mpr
    (⟨threeObligations_fits, rfl⟩ : _ ∧ _ = threeObligations.payload (fun _ => threeDigest) ++ _)
  exact ⟨_, hrecord, verify_manifest_survives _ _ _ _ hrecord⟩

end Tyu

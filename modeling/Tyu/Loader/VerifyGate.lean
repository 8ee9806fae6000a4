import Tyu.Loader.Atomic

/-! # What the verification gate establishes -/

namespace Tyu

open Lib Lib.Wire

def VM_STATUS_OPEN : UInt8 := 0
def VM_STATUS_DISCHARGED : UInt8 := 1
def VM_TRUST_OPEN : UInt8 := 0
def VM_TRUST_ASSUMED : UInt8 := 1
def VM_TRUST_CHECKED : UInt8 := 2

namespace ObligationRef

def bytes (e : ObligationRef) : Bytes :=
  put16 (UInt16.ofNat e.id.length) ++ (e.id ++ (put64 e.idHash ++ ([e.status] ++ ([e.trust] ++
    e.statementHash))))

structure Sized (e : ObligationRef) : Prop where
  id : e.id.length ≤ VM_MAX_ID_LEN
  statementHash : e.statementHash.length = 32

structure Closed (e : ObligationRef) : Prop where
  status : e.status ≤ VM_STATUS_ASSUMED
  trust : e.trust ≤ VM_TRUST_PROOF

theorem length_bytes {e : ObligationRef} (h : e.Sized) : e.bytes.length = e.id.length + 44 := by
  have hhash := h.statementHash
  simp only [bytes, List.length_append, length_put16, length_put64, List.length_singleton]
  omega

end ObligationRef

/-! ## Reading one obligation -/

variable {off : Nat} {e : ObligationRef}

theorem slice_of_parseObligation {data : Bytes} (h : (parseObligation data off).run = some (some e))
    :
    e.Sized ∧ slice data off (off + e.bytes.length) = some e.bytes := by
  unfold parseObligation at h
  split at h
  · cases h
  obtain ⟨idLen, hidLen, h⟩ := Read.bind_eq_some.mp h
  split at h
  · cases h
  rename_i hmax
  simp only at h
  split at h
  · cases h
  obtain ⟨id, hid, h⟩ := Read.bind_eq_some.mp h
  obtain ⟨idHash, hidHash, h⟩ := Read.bind_eq_some.mp h
  obtain ⟨status, hstatus, h⟩ := Read.bind_eq_some.mp h
  obtain ⟨trust, htrust, h⟩ := Read.bind_eq_some.mp h
  obtain ⟨statementHash, hhash, h⟩ := Read.bind_eq_some.mp h
  cases h
  rw [Read.index_eq_some] at hidLen hid hidHash hstatus htrust hhash
  have hidLength : id.length = idLen.toNat := by
    rw [length_slice hid]
    omega
  have hsized : ObligationRef.Sized ⟨id, idHash, status, trust, statementHash⟩ := by
    refine ⟨?_, ?_⟩
    · show id.length ≤ VM_MAX_ID_LEN
      omega
    · show statementHash.length = 32
      rw [length_slice hhash]
      omega
  refine ⟨hsized, ?_⟩
  have hparts := slice_concat (u16At_eq_some.mp hidLen) (slice_concat hid (slice_concat
    (u64At_eq_some.mp hidHash) (slice_concat (slice_one hstatus) (slice_concat
      (slice_one htrust) hhash))))
  have hput : UInt16.ofNat id.length = idLen := by
    rw [hidLength, UInt16.ofNat_toNat]
  rw [ObligationRef.length_bytes hsized]
  show slice data off (off + (id.length + 44)) = some (put16 (UInt16.ofNat id.length) ++ _)
  rw [hput, ← hparts]
  congr 1
  omega

theorem idLen_of_slice {data : Bytes} (h : slice data off (off + e.bytes.length) = some e.bytes) :
    u16At data off = some (UInt16.ofNat e.id.length) :=
  u16At_eq_some.mpr (slice_split h).1

theorem toNat_idLen (hs : e.Sized) : (UInt16.ofNat e.id.length).toNat = e.id.length := by
  have hid : e.id.length ≤ 512 := hs.id
  rw [UInt16.toNat_ofNat', Nat.mod_eq_of_lt (by omega)]

theorem parseObligation_of_slice {data : Bytes} (hs : e.Sized)
    (h : slice data off (off + e.bytes.length) = some e.bytes) :
    (parseObligation data off).run = some (some e) := by
  have hlen := e.length_bytes hs
  have hroom := (slice_eq_some h).2.1
  have hidLen := idLen_of_slice h
  have htoNat := toNat_idLen hs
  obtain ⟨-, h⟩ := slice_split h
  obtain ⟨hid, h⟩ := slice_split h
  obtain ⟨hidHash, h⟩ := slice_split h
  obtain ⟨hstatus, h⟩ := slice_split h
  obtain ⟨htrust, hhash⟩ := slice_split h
  simp only [length_put16, length_put64, List.length_singleton] at hid hidHash hstatus htrust hhash
  unfold parseObligation
  rw [if_neg (by omega)]
  refine Read.bind_eq_some.mpr ⟨_, Read.index_eq_some.mpr hidLen, ?_⟩
  rw [htoNat, if_neg (Nat.not_lt.mpr hs.id)]
  dsimp only
  rw [if_neg (by omega)]
  refine Read.bind_eq_some.mpr ⟨e.id, Read.index_eq_some.mpr hid, ?_⟩
  refine Read.bind_eq_some.mpr ⟨e.idHash, Read.index_eq_some.mpr (u64At_eq_some.mpr hidHash), ?_⟩
  refine Read.bind_eq_some.mpr
    ⟨e.status, Read.index_eq_some.mpr (getElem?_of_slice_one hstatus), ?_⟩
  refine Read.bind_eq_some.mpr
    ⟨e.trust, Read.index_eq_some.mpr (getElem?_of_slice_one htrust), ?_⟩
  refine Read.bind_eq_some.mpr ⟨e.statementHash, Read.index_eq_some.mpr ?_, rfl⟩
  rw [← hhash]
  congr 1
  omega

theorem nextObligationOffset_of_slice {data : Bytes} (hs : e.Sized)
    (h : slice data off (off + e.bytes.length) = some e.bytes) :
    (nextObligationOffset data off).run = some (some (off + e.bytes.length)) := by
  have hlen := e.length_bytes hs
  have hroom := (slice_eq_some h).2.1
  unfold nextObligationOffset
  rw [if_neg (by omega)]
  refine Read.bind_eq_some.mpr ⟨_, Read.index_eq_some.mpr (idLen_of_slice h), ?_⟩
  dsimp only
  rw [toNat_idLen hs, if_neg (by omega), hlen]
  show some (some _) = _
  congr 2
  omega

def region (es : List ObligationRef) : Bytes := es.flatMap ObligationRef.bytes

structure InOrder (prev : Option Bytes) (es : List ObligationRef) : Prop where
  sized : ∀ e ∈ es, e.Sized
  closed : ∀ e ∈ es, e.Closed
  behind : ∀ id ∈ prev, ∀ e ∈ es, id ≤ e.id
  sorted : es.Pairwise fun e e' => e.id ≤ e'.id

theorem slice_of_walkObligations {data : Bytes} {n stop : Nat} {prev : Option Bytes}
    (hoff : off ≤ data.length) (h : (walkObligations data n off prev).run = some (some stop)) :
    ∃ es : List ObligationRef, es.length = n ∧ slice data off stop = some (region es) ∧
      InOrder prev es := by
  induction n generalizing off prev with
  | zero =>
    cases h
    exact ⟨[], rfl, slice_self hoff, by simp, by simp, by simp, .nil⟩
  | succ n ih =>
    unfold walkObligations at h
    obtain ⟨e, he, h⟩ := Read.bind_eq_some.mp h
    split at h
    · cases h
    rename_i hclosed
    split at h
    · cases h
    rename_i hprev
    obtain ⟨next, hnext, h⟩ := Read.bind_eq_some.mp h
    obtain ⟨hsized, hslice⟩ := slice_of_parseObligation he
    rw [nextObligationOffset_of_slice hsized hslice] at hnext
    cases hnext
    obtain ⟨es, hlength, hrest, horder⟩ := ih (slice_eq_some hslice).2.1 h
    rw [not_or] at hclosed
    have hfirst : ∀ id ∈ prev, id ≤ e.id := by
      intro id hid hlt
      cases hid
      exact hprev (decide_eq_true hlt)
    refine ⟨e :: es, by rw [List.length_cons, hlength], slice_concat hslice hrest, ?_, ?_, ?_, ?_⟩
    · exact List.forall_mem_cons.mpr ⟨hsized, horder.sized⟩
    · refine List.forall_mem_cons.mpr ⟨⟨?_, ?_⟩, horder.closed⟩
      · exact UInt8.not_lt.mp hclosed.1
      · exact UInt8.not_lt.mp hclosed.2
    · intro id hid
      refine List.forall_mem_cons.mpr ⟨hfirst id hid, fun e' he' => ?_⟩
      exact List.le_trans (hfirst id hid) (horder.behind e.id rfl e' he')
    · exact List.pairwise_cons.mpr ⟨horder.behind e.id rfl, horder.sorted⟩

theorem read_of_slice {data : Bytes} {es : List ObligationRef} {stop i : Nat}
    (hs : ∀ e ∈ es, e.Sized) (h : slice data off stop = some (region es)) (hi : es[i]? = some e) :
    (do let off ← skipObligations data i off; parseObligation data off : Read ObligationRef).run =
      some (some e) := by
  induction es generalizing off i with
  | nil => cases hi
  | cons e₀ es ih =>
    rw [List.forall_mem_cons] at hs
    obtain ⟨hfirst, hrest⟩ := slice_split h
    cases i with
    | zero =>
      cases hi
      exact Read.bind_eq_some.mpr ⟨off, rfl, parseObligation_of_slice hs.1 hfirst⟩
    | succ i =>
      have hread := ih hs.2 hrest hi
      obtain ⟨off', hskip, hparse⟩ := Read.bind_eq_some.mp hread
      refine Read.bind_eq_some.mpr ⟨off', ?_, hparse⟩
      exact Read.bind_eq_some.mpr ⟨_, nextObligationOffset_of_slice hs.1 hfirst, hskip⟩

/-! ## The record -/

theorem Read.of_bind {α β : Type} {x : Read α} {f : α → Read β} {b : β}
    (h : (x >>= f).run = some (some b)) : ∃ a, (f a).run = some (some b) :=
  let ⟨a, _, hf⟩ := Read.bind_eq_some.mp h
  ⟨a, hf⟩

theorem walk_of_scanPayload {payload : Bytes} {start : Nat} {vm : VerifyManifest}
    (h : (scanPayload payload start).run = some (some vm)) :
    ∃ p off, p ≤ payload.length ∧
      (walkObligations payload vm.count p none).run = some (some off) ∧
      vm.obligationsStart = start + p ∧ vm.obligationsEnd = start + off := by
  unfold scanPayload at h
  obtain ⟨⟨semantics, p⟩, h⟩ := Read.of_bind h
  obtain ⟨⟨stmt, p⟩, h⟩ := Read.of_bind h
  obtain ⟨⟨target, p⟩, h⟩ := Read.of_bind h
  obtain ⟨⟨model, p⟩, h⟩ := Read.of_bind h
  dsimp only at h
  split at h
  · cases h
  obtain ⟨policy, h⟩ := Read.of_bind h
  split at h
  · cases h
  obtain ⟨certifierClass, h⟩ := Read.of_bind h
  obtain ⟨⟨certifierName, p⟩, h⟩ := Read.of_bind h
  obtain ⟨⟨certifierRecognition, p⟩, h⟩ := Read.of_bind h
  dsimp only at h
  split at h
  · cases h
  obtain ⟨candidateRatio, h⟩ := Read.of_bind h
  split at h
  · cases h
  obtain ⟨count, h⟩ := Read.of_bind h
  split at h
  · cases h
  split at h
  · cases h
  rename_i hroom
  obtain ⟨proof, h⟩ := Read.of_bind h
  obtain ⟨checked, h⟩ := Read.of_bind h
  obtain ⟨assumed, h⟩ := Read.of_bind h
  obtain ⟨open', h⟩ := Read.of_bind h
  split at h
  · cases h
  obtain ⟨off, hwalk, h⟩ := Read.bind_eq_some.mp h
  split at h
  · cases h
  obtain ⟨digest, h⟩ := Read.of_bind h
  cases h
  exact ⟨_, off, by omega, hwalk, rfl, rfl⟩

theorem slice_of_slice {data payload xs : Bytes} {start n a b : Nat}
    (h : slice data start (start + n) = some payload) (h' : slice payload a b = some xs) :
    slice data (start + a) (start + b) = some xs := by
  obtain ⟨hab, hb, -⟩ := slice_eq_some h'
  have hlen := length_slice h
  obtain ⟨k, rfl⟩ : ∃ k, b = a + k := ⟨b - a, by omega⟩
  rw [slice_within h (by omega)]
  exact h'

/-- What a record holds: as many obligations as it counts, each where it is looked for, sized,
closed and in the order of the ids, and their bytes are the region of the record. -/
structure Records (data : Bytes) (vm : VerifyManifest) (es : List ObligationRef) : Prop where
  length : es.length = vm.count
  read : ∀ i e, es[i]? = some e → (obligation vm data i).run = some (some e)
  region : slice data vm.obligationsStart vm.obligationsEnd = some (region es)
  sized : ∀ e ∈ es, e.Sized
  closed : ∀ e ∈ es, e.Closed
  sorted : es.Pairwise fun e e' => e.id ≤ e'.id

theorem records_of_scan {data : Bytes} {vm : VerifyManifest}
    (h : (scanVerifyManifest data).run = some (some (some vm))) : ∃ es, Records data vm es := by
  unfold scanVerifyManifest at h
  dsimp only at h
  split at h
  · cases h
  obtain ⟨tag, h⟩ := Read.of_bind h
  split at h
  · cases h
  obtain ⟨size, h⟩ := Read.of_bind h
  split at h
  · cases h
  split at h
  · cases h
  obtain ⟨payload, hpayload, h⟩ := Read.bind_eq_some.mp h
  obtain ⟨vm', hscan, h⟩ := Read.bind_eq_some.mp h
  cases h
  rw [Read.index_eq_some] at hpayload
  obtain ⟨p, off, hp, hwalk, hstart, hend⟩ := walk_of_scanPayload hscan
  obtain ⟨es, hlength, hslice, horder⟩ := slice_of_walkObligations hp hwalk
  have hregion : slice data vm.obligationsStart vm.obligationsEnd = some (region es) := by
    rw [hstart, hend]
    exact slice_of_slice hpayload hslice
  refine ⟨es, hlength, ?_, hregion, horder.sized, horder.closed, horder.sorted⟩
  intro i e hi
  have hlt := (List.getElem?_eq_some_iff.mp hi).1
  unfold obligation
  rw [if_neg (by omega)]
  exact read_of_slice horder.sized hregion hi

variable {σ : Type}

def VerifyPolicy.Allows (policy : VerifyPolicy) (e : ObligationRef) : Prop :=
  match policy with
  | .off => True
  | .requireNoOpen => e.status ≠ VM_STATUS_OPEN
  | .requireProven => e.status = VM_STATUS_DISCHARGED ∧ e.trust = VM_TRUST_PROOF

def trustCounts (es : List ObligationRef) : List UInt32 :=
  [VM_TRUST_PROOF, VM_TRUST_CHECKED, VM_TRUST_ASSUMED, VM_TRUST_OPEN].map fun trust =>
    UInt32.ofNat (es.countP fun e => e.trust = trust)

/-- A record whose obligations bear out a requirement, and whose counts are theirs. -/
structure Honest (policy : VerifyPolicy) (vm : VerifyManifest) (es : List ObligationRef) :
    Prop where
  allowed : ∀ e ∈ es, policy.Allows e
  counts : vm.counts = trustCounts es

/-- What the loader knows of a module it admits under a requirement: the module declares a
policy that meets it, its record holds obligations, and its digest is the hash of these. -/
structure Vouched (b : Build σ) (policy : VerifyPolicy) (data : Bytes) (vm : VerifyManifest)
    (es : List ObligationRef) : Prop where
  declared : satisfies vm.policy policy.code = true
  records : Records data vm es
  digest : b.verifyManifest = true → b.sha256 (region es) = vm.digest

theorem vouched_of_validate {b : Build σ} {platform : σ} {modinfo : Bytes}
    (h : validateVerifyManifest b platform modinfo = .ok ())
    (hpolicy : b.ops.verifyPolicy platform ≠ .off) :
    ∃ vm es, (scanVerifyManifest modinfo).run = some (some (some vm)) ∧
      Vouched b (b.ops.verifyPolicy platform) modinfo vm es := by
  unfold validateVerifyManifest at h
  obtain ⟨scanned, hscan, h⟩ := bind_eq_ok.mp h
  rw [Read.orError_eq_ok] at hscan
  cases scanned with
  | none => exact absurd (require_eq_ok.mp h) hpolicy
  | some vm =>
    obtain ⟨es, hrecords⟩ := records_of_scan hscan
    dsimp only at h
    cases hfeature : b.verifyManifest with
    | false =>
      rw [hfeature] at h
      refine ⟨vm, es, hscan, require_eq_ok.mp h, hrecords, fun hf => ?_⟩
      rw [hfeature] at hf
      cases hf
    | true =>
      rw [hfeature] at h
      obtain ⟨bytes, hbytes, h⟩ := bind_eq_ok.mp h
      obtain ⟨_, hdigest, hdeclared⟩ := bind_eq_ok.mp h
      rw [expect_eq_ok, hrecords.region] at hbytes
      cases hbytes
      exact ⟨vm, es, hscan, require_eq_ok.mp hdeclared, hrecords, fun _ =>
        require_eq_ok.mp hdigest⟩

/-- A module that the loader admits under a requirement carries a record that is vouched for. -/
theorem admitted_record_vouched {b : Build σ} {c : Container} {s s' : Loader σ} {m : Admitted}
    (h : admission b c s = (.ok m, s')) (hpolicy : b.ops.verifyPolicy s'.platform ≠ .off) :
    ∃ vm es, (scanVerifyManifest m.modinfo).run = some (some (some vm)) ∧
      Vouched b (b.ops.verifyPolicy s'.platform) m.modinfo vm es := by
  unfold admission at h
  obtain ⟨_, _, -, h⟩ := Stoppable.bind_eq_ok.mp h
  obtain ⟨_, _, -, h⟩ := Stoppable.bind_eq_ok.mp h
  obtain ⟨modinfo, _, -, h⟩ := Stoppable.bind_eq_ok.mp h
  obtain ⟨_, _, -, h⟩ := Stoppable.bind_eq_ok.mp h
  obtain ⟨_, _, -, h⟩ := Stoppable.bind_eq_ok.mp h
  obtain ⟨_, _, -, h⟩ := Stoppable.bind_eq_ok.mp h
  obtain ⟨_, _, -, h⟩ := Stoppable.bind_eq_ok.mp h
  obtain ⟨_, _, -, h⟩ := Stoppable.bind_eq_ok.mp h
  obtain ⟨_, _, -, h⟩ := Stoppable.bind_eq_ok.mp h
  obtain ⟨_, _, -, h⟩ := Stoppable.bind_eq_ok.mp h
  obtain ⟨_, _, -, h⟩ := Stoppable.bind_eq_ok.mp h
  obtain ⟨platform, _, hplatform, h⟩ := Stoppable.bind_eq_ok.mp h
  obtain ⟨rfl, rfl⟩ := Load.ask_eq_ok.mp hplatform
  obtain ⟨_, _, hvalid, h⟩ := Stoppable.bind_eq_ok.mp h
  obtain ⟨-, rfl⟩ := Stoppable.ofExcept_eq_ok.mp hvalid
  obtain ⟨_, _, hrecord, h⟩ := Stoppable.bind_eq_ok.mp h
  obtain ⟨hvalidated, rfl⟩ := Stoppable.ofExcept_eq_ok.mp hrecord
  obtain ⟨rfl, rfl⟩ := Stoppable.pure_eq_ok.mp h
  exact vouched_of_validate hvalidated hpolicy

/-! ## A record that declares too much -/

def openObligation : ObligationRef where
  id := [0x74]
  idHash := 0xaf63e94c860202a3
  status := VM_STATUS_OPEN
  trust := VM_TRUST_OPEN
  statementHash := List.replicate 32 0

def openDigest : Bytes :=
  [0xb7, 0xab, 0xee, 0x24, 0x80, 0xde, 0xc4, 0x3c, 0xbe, 0x50, 0xa7, 0x9e, 0xbc, 0x0b, 0xe1, 0xeb,
    0x2a, 0xb5, 0x0c, 0xba, 0x61, 0xb4, 0xbc, 0x6e, 0x4a, 0x97, 0xe2, 0x41, 0x63, 0x13, 0xd2, 0xe7]

/-- A record that declares its one obligation proven and counts one proof, while the
obligation is open. -/
def provenRecord : Bytes :=
  let payload := put16 0 ++ put16 0 ++ put16 0 ++ put16 0 ++ [VM_POLICY_PROVEN, 0] ++ put16 0 ++
    put16 0 ++ put16 0 ++ put32 1 ++ put32 1 ++ put32 0 ++ put32 0 ++ put32 0 ++
    openObligation.bytes ++ openDigest
  payload ++ put32 (UInt32.ofNat payload.length) ++ put32 VM_TAG

def provenModule : Option Container := do
  let modinfo ← ModInfo.encodeInto 1024 [0x6d] [] [] 0 0 [] 0 []
  let k : Contents :=
    { abiHash := 0, envelope := [], modinfo := modinfo ++ provenRecord, code := [0xc3]
      rodata := [], data := [], bssLen := 0, relocs := [] }
  let hdr ← computeLayout .wraps k.abiHash k.lens
  (Container.parse .w64 (k.assemble hdr)).toOption

def provenBuild : Build Unit :=
  { ramBuild with
    ops := { ramBuild.ops with verifyPolicy := fun _ => .requireProven }
    verifyManifest := true
    sha256 := fun _ => openDigest }

theorem provenModule_isSome : provenModule.isSome = true := by decide +kernel

def provenContainer : Container := provenModule.get provenModule_isSome

def provenState : Loader Unit := (admission provenBuild provenContainer .start).2

theorem provenContainer_isSome :
    (admission provenBuild provenContainer .start).1.toOption.isSome = true := by decide +kernel

def provenAdmitted : Admitted :=
  (admission provenBuild provenContainer .start).1.toOption.get provenContainer_isSome

theorem eq_ok_of_isSome {ε α : Type} {x : Except ε α} (h : x.toOption.isSome = true) :
    x = .ok (x.toOption.get h) := by
  cases x with
  | error e => cases h
  | ok a => rfl

theorem provenContainer_admitted :
    admission provenBuild provenContainer .start = (.ok provenAdmitted, provenState) := by
  have hresult : (admission provenBuild provenContainer .start).1 = .ok provenAdmitted :=
    eq_ok_of_isSome provenContainer_isSome
  rw [← hresult, provenState, Prod.mk.eta]

def provenManifest : VerifyManifest where
  semantics := []
  stmt := []
  target := []
  model := []
  policy := VM_POLICY_PROVEN
  certifierClass := 0
  certifierName := []
  certifierRecognition := []
  candidateRatio := 0
  count := 1
  counts := [1, 0, 0, 0]
  obligationsStart := 88
  obligationsEnd := 133
  digest := openDigest

theorem provenAdmitted_vouched :
    provenBuild.ops.verifyPolicy provenState.platform ≠ .off ∧
      ∃ vm es, (scanVerifyManifest provenAdmitted.modinfo).run = some (some (some vm)) ∧
        Vouched provenBuild .requireProven provenAdmitted.modinfo vm es :=
  ⟨by decide, admitted_record_vouched provenContainer_admitted (by decide)⟩

/-- The loader admits that module under the requirement of proofs. -/
theorem declared_proven_with_open_obligation : ¬ ∀ (b : Build Unit) (c : Container)
    (s s' : Loader Unit) (m : Admitted), admission b c s = (.ok m, s') →
      b.ops.verifyPolicy s'.platform ≠ .off →
        ∀ vm es, (scanVerifyManifest m.modinfo).run = some (some (some vm)) →
          Records m.modinfo vm es → Honest (b.ops.verifyPolicy s'.platform) vm es := by
  intro h
  have hscan : (scanVerifyManifest provenAdmitted.modinfo).run =
      some (some (some provenManifest)) := by decide +kernel
  have hread : (obligation provenManifest provenAdmitted.modinfo 0).run =
      some (some openObligation) := by decide +kernel
  obtain ⟨es, hrecords⟩ := records_of_scan hscan
  have hhonest := h provenBuild provenContainer .start provenState provenAdmitted
    provenContainer_admitted (by decide) provenManifest es hscan hrecords
  obtain ⟨e, rfl⟩ := List.length_eq_one_iff.mp hrecords.length
  have he := hrecords.read 0 e rfl
  rw [hread] at he
  cases he
  have hallowed := (hhonest.allowed openObligation (List.mem_singleton.mpr rfl)).1
  cases hallowed

end Tyu

import Tyu.Seal.Delivered

/-!
# The loader on a delivered container

On a platform that hands out memory and can open one of the slots, the loader rebuilds the
content key and the associated data, places the sealed sections and opens them as one text.
-/

namespace Tyu.Seal

open Lib Lib.Wire Container

variable {σ : Type} {b : Build σ}

/-- An allocator that hands out regions of the length that it is asked for. -/
def HandsOut (op : Nat → σ → Except UInt32 Region × σ) : Prop :=
  ∀ n p, ∃ r p', op n p = (.ok r, p') ∧ r.bytes.length = n

structure Reliable (b : Build σ) : Prop where
  encryption : b.encryption = true
  trusted : ∀ p, TrustLevel.one.rank ≤ (b.ops.trustLevel p).rank
  allocExec : HandsOut b.ops.allocExec
  allocRo : HandsOut b.ops.allocRo
  allocRw : HandsOut b.ops.allocRw

/-- The loader holds the key of the slot `j`.  It opens no slot before it that was made for
another key. -/
structure HoldsKey (b : Build σ) (sealText : SealFn) (rng : Entropy) (keks : List Bytes) (j : Nat) :
    Prop where
  own : ∀ kek, keks[j]? = some kek → ∀ p wrapped,
    b.ops.unwrapCek p (UInt64.ofNat j) wrapped = unwrapCek b.decryptPayload kek wrapped
  earlier : ∀ i < j, ∀ kek, keks[i]? = some kek → ∀ slot,
    wrapCek sealText kek rng.cek (rng.wrapNonce i) (UInt64.ofNat i) = .ok slot → ∀ p,
      b.ops.unwrapCek p slot.keyId slot.wrapped = none ∨ keks[j]? = some kek ∧
        b.ops.unwrapCek p slot.keyId slot.wrapped = unwrapCek b.decryptPayload kek slot.wrapped

theorem operate_ok {op : Nat → σ → Except UInt32 Region × σ} (h : HandsOut op) (n : Nat)
    (s : Loader σ) : ∃ r s', Load.operate (op n) s = (.ok r, s') ∧ r.bytes.length = n := by
  obtain ⟨r, p', hop, hlen⟩ := h n s.platform
  refine ⟨r, { s with platform := p' }, ?_, hlen⟩
  unfold Load.operate
  rw [hop]

theorem findSome?_of_first {α β : Type} {f : α → Option β} {xs : List α} {j : Nat} {x : α} {v : β}
    (hx : xs[j]? = some x) (hown : f x = some v)
    (hearlier : ∀ i < j, ∀ y, xs[i]? = some y → f y = none ∨ f y = some v) :
    xs.findSome? f = some v := by
  induction xs generalizing j with
  | nil => cases hx
  | cons y xs ih =>
    rw [List.findSome?_cons]
    cases j with
    | zero =>
      rw [Option.some.inj hx, hown]
    | succ j =>
      rcases hearlier 0 (Nat.succ_pos j) y rfl with hnone | hsome
      · rw [hnone]
        exact ih hx fun i hi z hz => hearlier (i + 1) (Nat.succ_lt_succ hi) z hz
      · rw [hsome]

theorem getElem?_mapM {ε α β : Type} {f : α → Except ε β} {xs : List α} {ys : List β}
    (h : xs.mapM f = .ok ys) {i : Nat} {y : β} (hy : ys[i]? = some y) :
    ∃ x, xs[i]? = some x ∧ f x = .ok y := by
  induction xs generalizing ys i with
  | nil =>
    rw [mapM_nil_eq_ok.mp h] at hy
    cases hy
  | cons x xs ih =>
    obtain ⟨y0, rest, hf, hrest, rfl⟩ := mapM_cons_eq_ok.mp h
    cases i with
    | zero => exact ⟨x, rfl, by rw [hf, Option.some.inj hy]⟩
    | succ i => exact ih hrest hy

variable {sealText : SealFn} {rng : Entropy} {keks : List Bytes} {slots : List WrappedSlot}

theorem slot_of_slotsFor (h : slotsFor sealText rng keks = .ok slots) {i : Nat} {slot : WrappedSlot}
    (hslot : slots[i]? = some slot) : ∃ kek, keks[i]? = some kek ∧
      wrapCek sealText kek rng.cek (rng.wrapNonce i) (UInt64.ofNat i) = .ok slot := by
  obtain ⟨⟨kek, n⟩, hget, hwrap⟩ := getElem?_mapM h hslot
  rw [List.getElem?_zipIdx, Option.map_eq_some_iff] at hget
  obtain ⟨kek', hkek, hpair⟩ := hget
  obtain ⟨rfl, rfl⟩ := Prod.mk.inj hpair
  rw [Nat.zero_add] at hwrap
  exact ⟨kek', hkek, hwrap⟩

theorem unwrapCek_wrapCek (hopens : Opens sealText b.decryptPayload) {kek nonce : Bytes}
    {id : UInt64} {slot : WrappedSlot} (hnonce : nonce.length = NONCE_LEN)
    (h : wrapCek sealText kek rng.cek nonce id = .ok slot) :
    unwrapCek b.decryptPayload kek slot.wrapped = some rng.cek := by
  obtain ⟨text, tag, hseal, rfl⟩ := wrapCek_eq_ok h
  rw [unwrapCek_parts hnonce ((hopens.length hseal).1.trans rng.length_cek)]
  exact hopens.opens hseal

theorem scheme_wrapCek {kek nonce : Bytes} {id : UInt64} {slot : WrappedSlot}
    (h : wrapCek sealText kek rng.cek nonce id = .ok slot) :
    slot.wrapScheme = WRAP_SCHEME_SYMMETRIC_CHACHA20POLY1305 ∧ slot.keyId = id := by
  obtain ⟨text, tag, -, rfl⟩ := wrapCek_eq_ok h
  exact ⟨rfl, rfl⟩

theorem findCek_eq (hopens : Opens sealText b.decryptPayload) {j : Nat}
    (hkey : HoldsKey b sealText rng keks j) (h : slotsFor sealText rng keks = .ok slots)
    (hj : j < keks.length) (p : σ) : findCek b p slots = some rng.cek := by
  have hlen := length_slotsFor h
  have hslot : slots[j]? = some slots[j] := List.getElem?_eq_getElem (by omega)
  unfold findCek
  refine findSome?_of_first hslot ?_ ?_
  · obtain ⟨kek, hkek, hwrap⟩ := slot_of_slotsFor h hslot
    obtain ⟨hscheme, hid⟩ := scheme_wrapCek hwrap
    rw [if_neg (not_not_intro hscheme), hid, hkey.own kek hkek p]
    exact unwrapCek_wrapCek hopens (rng.length_wrapNonce j) hwrap
  · intro i hi slot hget
    obtain ⟨kek, hkek, hwrap⟩ := slot_of_slotsFor h hget
    obtain ⟨hscheme, -⟩ := scheme_wrapCek hwrap
    rw [if_neg (not_not_intro hscheme)]
    rcases hkey.earlier i hi kek hkek slot hwrap p with hnone | ⟨-, hsame⟩
    · exact .inl hnone
    · rw [hsame, unwrapCek_wrapCek hopens (rng.length_wrapNonce i) hwrap]
      exact .inr rfl

theorem appendBytes_eq (done : Bytes) {rest src : Bytes} (h : src.length ≤ rest.length) :
    appendBytes (done ++ rest) done.length src =
      .ok (done ++ (src ++ rest.drop src.length), done.length + src.length) := by
  unfold appendBytes
  simp only [bind_eq_ok, require_eq_ok, pure_eq_ok]
  refine ⟨⟨⟩, by rw [List.length_append]; omega, ?_⟩
  rw [patch_skip (Nat.le_refl _), Nat.sub_self]
  unfold patch
  rw [List.take_zero, List.nil_append, Nat.zero_add]

theorem patch_left {xs ys ws : Bytes} {off : Nat} (h : off + ws.length ≤ xs.length) :
    patch (xs ++ ys) off ws = patch xs off ws ++ ys := by
  unfold patch
  rw [List.take_append_of_le_length (by omega), List.drop_append_of_le_length h]
  simp only [List.append_assoc]

theorem fillAad_eq {header modinfo reloc scratch : Bytes} {eh : EncHeader} (heh : eh.Formed)
    (hlen : scratch.length =
      header.length + (encHeaderBytes eh).length + modinfo.length + reloc.length) :
    fillAad header (encHeaderBytes eh) modinfo reloc scratch = .ok (header ++
      (encHeaderBytes { eh with tag := List.replicate TAG_LEN 0 } ++ (modinfo ++ reloc))) := by
  have henvelope := length_encHeaderBytes heh
  have hwire : 36 ≤ eh.wireLen := Nat.le_add_right _ _
  have hzero : (List.replicate TAG_LEN (0 : UInt8)).length = TAG_LEN := List.length_replicate
  let rest1 := scratch.drop header.length
  let rest2 := rest1.drop (encHeaderBytes eh).length
  let rest3 := rest2.drop modinfo.length
  let sealed := encHeaderBytes { eh with tag := List.replicate TAG_LEN 0 }
  have hrest1 : rest1.length = (encHeaderBytes eh).length + modinfo.length + reloc.length := by
    rw [List.length_drop]
    omega
  have hrest2 : rest2.length = modinfo.length + reloc.length := by
    rw [List.length_drop]
    omega
  have hrest3 : rest3.length = reloc.length := by
    rw [List.length_drop]
    omega
  have hheader : appendBytes scratch 0 header = .ok (header ++ rest1, header.length) := by
    have h := appendBytes_eq [] (show header.length ≤ scratch.length by omega)
    simpa using h
  have hsecond := appendBytes_eq header (show (encHeaderBytes eh).length ≤ rest1.length by omega)
  have hclear : patch (header ++ (encHeaderBytes eh ++ rest2)) (header.length + 4 + NONCE_LEN)
      (List.replicate TAG_LEN 0) = header ++ sealed ++ rest2 := by
    rw [patch_skip (by omega), Nat.add_assoc, Nat.add_sub_cancel_left, patch_left (by
      rw [hzero, henvelope]
      show 4 + 12 + 16 ≤ _
      omega), patch_tag heh hzero, List.append_assoc]
  have hsealed : (header ++ sealed).length = header.length + (encHeaderBytes eh).length := by
    rw [List.length_append, length_encHeaderBytes
      (show EncHeader.Formed { eh with tag := List.replicate TAG_LEN 0 } from
        ⟨heh.aead, heh.nonce, hzero, heh.wrapped⟩), henvelope]
    rfl
  have hthird := appendBytes_eq (header ++ sealed) (show modinfo.length ≤ rest2.length by omega)
  have hfourth := appendBytes_eq (header ++ sealed ++ modinfo)
    (show reloc.length ≤ rest3.length by omega)
  rw [hsealed, ← hclear] at hthird
  rw [List.length_append, hsealed, List.drop_of_length_le (Nat.le_of_eq hrest3),
    List.append_nil] at hfourth
  rw [List.append_assoc (header ++ sealed)] at hfourth
  unfold fillAad
  simp only [bind_eq_ok, require_eq_ok, pure_eq_ok]
  refine ⟨_, hheader, _, hsecond, _, hthird, _, hfourth, ⟨⟩, rfl, ?_⟩
  simp only [List.append_assoc]
  rfl

/-! ## Preparing -/

variable {mode : Overflow} {encMode : EncMode} {c : Container} {s : Sections c host}
  {out final : Bytes} {k : LmodHeader}

theorem drop_of_slice {bs xs : Bytes} {a n : Nat} (h : slice bs a (a + n) = some xs) :
    bs.drop a = xs ++ bs.drop (a + n) := by
  obtain ⟨-, hstop, rfl⟩ := slice_eq_some h
  rw [← List.drop_append_of_le_length (by rw [List.length_take]; omega), List.take_append_drop]

theorem envelope_of_delivered (hopens : Opens sealText b.decryptPayload)
    (e : Encrypted mode sealText rng encMode c s keks out)
    (hd : Delivered (sealedHeader c.hdr e.layout) k out final) :
    ∃ rest, final.drop 72 =
      encHeaderBytes { envelopeOf encMode rng e.slots with tag := e.tag } ++ rest := by
  have heh : (envelopeOf encMode rng e.slots).Formed := formed_envelopeOf hopens e.wrapped
  have ho := ordered_of_laid heh e.laid
  have h1 := ho.envelope
  have h2 := ho.modinfo
  have h3 := ho.code
  have h4 := ho.rodata
  have h5 := ho.data
  have h6 := ho.relocs
  have hlen := e.holds.length
  have hslice := hd.rest (a := 72) (n := (envelopeOf encMode rng e.slots).wireLen)
    (Nat.le_refl _) (by omega)
  rw [e.holds.envelope] at hslice
  exact ⟨_, drop_of_slice hslice⟩

theorem formed_tagged (hopens : Opens sealText b.decryptPayload)
    (e : Encrypted mode sealText rng encMode c s keks out) :
    EncHeader.Formed { envelopeOf encMode rng e.slots with tag := e.tag } := by
  have heh : (envelopeOf encMode rng e.slots).Formed := formed_envelopeOf hopens e.wrapped
  exact ⟨heh.aead, heh.nonce, (hopens.length e.sealing).2, heh.wrapped⟩

/-- What decryption needs, for a container that was sealed for this loader. -/
def contextOf (e : Encrypted mode sealText rng encMode c s keks out) : DecryptionContext where
  cek := rng.cek
  nonce := rng.nonce
  tag := e.tag
  aad := associated c.hdr e.layout (envelopeOf encMode rng e.slots) s.modinfo e.relocs

theorem relocSlice_eq {w : PtrWidth} (hopens : Opens sealText b.decryptPayload)
    (e : Encrypted mode sealText rng encMode c s keks out)
    (hd : Delivered (sealedHeader c.hdr e.layout) k out final) :
    relocSlice w k final = .ok e.relocs := by
  have heh : (envelopeOf encMode rng e.slots).Formed := formed_envelopeOf hopens e.wrapped
  have ho := ordered_of_laid heh e.laid
  have h1 := ho.envelope
  have h2 := ho.modinfo
  have h3 := ho.code
  have h4 := ho.rodata
  have h5 := ho.data
  have h6 := ho.relocs
  have hsize := w.le_size
  have htotal := e.layout.totalLen.toNat_lt
  have hlen := e.holds.length
  have hrelocs := e.length_relocs
  have hcount : k.relocCount = c.hdr.relocCount := by
    rw [hd.fields]
    exact e.laid.placed.relocCount.trans (congrArg SectionLens.relocCount (s.lens_contents heh))
  have hoff : k.relocOff = e.layout.relocOff := by
    rw [hd.fields]
    rfl
  unfold relocSlice
  simp only [bind_eq_ok, require_eq_ok, hcount, hoff]
  refine ⟨⟨⟩, by omega, ?_⟩
  by_cases hzero : c.hdr.relocCount.toNat * RELOC_ENTRY_SIZE = 0
  · rw [if_pos hzero, List.eq_nil_of_length_eq_zero (hrelocs.trans hzero)]
    rfl
  · rw [if_neg hzero]
    simp only [bind_eq_ok, require_eq_ok, expect_eq_ok]
    refine ⟨⟨⟩, by omega, ?_⟩
    rw [hd.rest (by omega) (by omega)]
    exact e.holds.relocs

theorem prepareDecryption_eq (hopens : Opens sealText b.decryptPayload) (hr : Reliable b)
    (e : Encrypted mode sealText rng encMode c s keks out)
    (hd : Delivered (sealedHeader c.hdr e.layout) k out final) {j : Nat}
    (hkey : HoldsKey b sealText rng keks j) (hj : j < keks.length) (hcount : keks.length ≤ 64)
    (st : Loader σ) : ∃ st', prepareDecryption b k final s.modinfo st =
      (.ok (some (contextOf e)), st') := by
  have hslots := length_slotsFor e.wrapped
  have heh := formed_tagged hopens e
  obtain ⟨rest, hrest⟩ := envelope_of_delivered hopens e hd
  have hchecked := (parse_eq_ok.mp (hd.parse b.width)).2
  obtain ⟨v, hv, hnonce, htag, hwire, hwrapped⟩ := parseEncHeaderView_encHeaderBytes heh
    (show e.slots.length ≤ 64 by omega) rest
  have henc : slice (final.drop 72) 0 v.wireLen =
      some (encHeaderBytes { envelopeOf encMode rng e.slots with tag := e.tag }) := by
    rw [hrest, hwire, ← length_encHeaderBytes heh]
    exact slice_append_left _ _
  have htrust := hr.trusted st.platform
  have hlens := s.lens.1
  have hrelocs := e.length_relocs
  have heh' : (envelopeOf encMode rng e.slots).Formed := formed_envelopeOf hopens e.wrapped
  have ho := ordered_of_laid heh' e.laid
  have h1 := ho.envelope
  have h2 := ho.modinfo
  have h3 := ho.code
  have h4 := ho.rodata
  have h5 := ho.data
  have h6 := ho.relocs
  have htotal := e.layout.totalLen.toNat_lt
  have hsize := b.width.le_size
  have hheader := length_headerBytes (sealedHeader c.hdr e.layout)
  have henvelope := length_encHeaderBytes heh
  have hwire' : EncHeader.wireLen { envelopeOf encMode rng e.slots with tag := e.tag } =
    (envelopeOf encMode rng e.slots).wireLen := rfl
  obtain ⟨scratch, st', hscratch, hlen⟩ := operate_ok hr.allocRw
    ((headerBytes (sealedHeader c.hdr e.layout)).length +
      (encHeaderBytes { envelopeOf encMode rng e.slots with tag := e.tag }).length +
      s.modinfo.length + e.relocs.length) st
  refine ⟨st', ?_⟩
  unfold prepareDecryption
  rw [if_neg hd.marked]
  simp only [Stoppable.bind_eq_ok, Load.ask_eq_ok, Load.check_eq_ok, Load.orPanic_eq_ok,
    Stoppable.ofExcept_eq_ok, Stoppable.pure_eq_ok]
  refine ⟨_, _, ⟨rfl, rfl⟩, ⟨⟩, _, ⟨by omega, rfl⟩, ⟨⟩, _, ⟨hchecked.headerFits, rfl⟩, v, _, ⟨?_, rfl⟩,
    _, _, ⟨rfl, rfl⟩, rng.cek, _, ⟨?_, rfl⟩, _, _, ⟨hd.header, rfl⟩, _, _,
    ⟨relocSlice_eq hopens e hd, rfl⟩, _, _, ⟨henc, rfl⟩, ⟨⟩, _, ⟨by omega, rfl⟩, scratch, st',
    hscratch, _, _, ⟨fillAad_eq heh hlen, rfl⟩, ?_, rfl⟩
  · rw [show HEADER_SIZE.toNat = 72 from rfl, hrest, hv]
    rfl
  · rw [hwrapped]
    show expect (findCek b st.platform e.slots) _ = _
    rw [findCek_eq hopens hkey e.wrapped hj st.platform]
    rfl
  · rw [hnonce, htag]
    rfl

section Placing

variable {kc : Container} {code rodata data : Bytes}

structure Fits (hdr : LmodHeader) (code rodata data : Bytes) : Prop where
  code : hdr.codeLen.toNat = code.length
  rodata : hdr.rodataLen.toNat = rodata.length
  data : hdr.dataLen.toNat = data.length

theorem allocSection_ok {op : Nat → σ → Except UInt32 Region × σ} (h : HandsOut op) (n : Nat)
    (st : Loader σ) : ∃ region st', allocSection op n st = (.ok region, st') ∧
      ∀ r, region = some r → r.bytes.length = n := by
  unfold allocSection
  by_cases hpos : n > 0
  · obtain ⟨r, st', hop, hlen⟩ := operate_ok h n st
    refine ⟨some r, st', ?_, fun r' hr' => ?_⟩
    · rw [if_pos hpos]
      exact Stoppable.bind_eq_ok.mpr ⟨r, st', hop, rfl⟩
    · rw [← Option.some.inj hr']
      exact hlen
  · refine ⟨none, st, ?_, fun r hr => nomatch hr⟩
    rw [if_neg hpos]
    rfl

theorem copyFrom_of_length {r : Region} {src : Bytes} (h : r.bytes.length = src.length) :
    r.copyFrom src = some { r with bytes := src } := if_pos h

theorem copyPrefix_of_le {r : Region} {src : Bytes} (h : src.length ≤ r.bytes.length) :
    r.copyPrefix src = some { r with bytes := patch r.bytes 0 src } := if_pos h

theorem orPanic_ok {α : Type} {o : Option α} {a : α} (h : o = some a) (st : Loader σ) :
    Load.orPanic o st = (.ok a, st) := Load.orPanic_eq_ok.mpr ⟨h, rfl⟩

theorem exists_placed (hr : Reliable b) (hcode : kc.code b.width = some code)
    (hrodata : kc.rodata b.width = some rodata) (hdata : kc.data b.width = some data)
    (hlens : Fits kc.hdr code rodata data)
    (hfits : kc.hdr.dataLen.toNat + kc.hdr.bssLen.toNat < b.width.size) (st : Loader σ) :
    ∃ sections st', placeSections b kc (.fromHeader kc.hdr) st = (.ok sections, st') ∧
      sections.Stored code rodata data := by
  obtain ⟨codeRegion, s1, hcodeOp, hcodeLen⟩ := operate_ok hr.allocExec kc.hdr.codeLen.toNat st
  obtain ⟨roRegion, s2, hroOp, hroLen⟩ := allocSection_ok hr.allocRo kc.hdr.rodataLen.toNat s1
  obtain ⟨rwRegion, s3, hrwOp, hrwLen⟩ := allocSection_ok hr.allocRw
    (usize b.width (kc.hdr.dataLen.toNat + kc.hdr.bssLen.toNat)) s2
  have hwrap : usize b.width (kc.hdr.dataLen.toNat + kc.hdr.bssLen.toNat) =
      kc.hdr.dataLen.toNat + kc.hdr.bssLen.toNat := Nat.mod_eq_of_lt hfits
  have hcopy : ∃ r, copyCode b kc (.fromHeader kc.hdr) codeRegion s3 = (.ok r, s3) := by
    unfold copyCode
    by_cases hpos : (PlacedLens.fromHeader kc.hdr).code > 0
    · rw [if_pos hpos]
      exact ⟨_, Stoppable.bind_eq_ok.mpr ⟨code, s3, orPanic_ok hcode s3,
        orPanic_ok (copyFrom_of_length (hcodeLen.trans hlens.code)) s3⟩⟩
    · rw [if_neg hpos]
      exact ⟨codeRegion, rfl⟩
  have hcopyRo : ∃ r, copyRodata b kc roRegion s3 = (.ok r, s3) := by
    unfold copyRodata
    cases hro : roRegion with
    | none => exact ⟨none, rfl⟩
    | some ro =>
      have hlen := (hroLen ro hro).trans hlens.rodata
      exact ⟨_, Stoppable.bind_eq_ok.mpr ⟨rodata, s3, orPanic_ok hrodata s3,
        Stoppable.bind_eq_ok.mpr ⟨_, s3, orPanic_ok (copyFrom_of_length hlen) s3, rfl⟩⟩⟩
  have hcopyRw : ∃ r, copyData b kc (.fromHeader kc.hdr) rwRegion s3 = (.ok r, s3) := by
    unfold copyData
    cases hrw : rwRegion with
    | none => exact ⟨none, rfl⟩
    | some ro =>
      have hlen := hrwLen ro hrw
      have hle : data.length ≤ ro.bytes.length := by
        rw [hlen, hwrap, hlens.data]
        exact Nat.le_add_right _ _
      by_cases hpos : (PlacedLens.fromHeader kc.hdr).data > 0
      · simp only [hpos, if_true]
        exact ⟨_, Stoppable.bind_eq_ok.mpr ⟨data, s3, orPanic_ok hdata s3,
          Stoppable.bind_eq_ok.mpr ⟨_, s3, orPanic_ok (copyPrefix_of_le hle) s3, rfl⟩⟩⟩
      · simp only [hpos, if_false]
        exact ⟨_, rfl⟩
  obtain ⟨r1, hr1⟩ := hcopy
  obtain ⟨r2, hr2⟩ := hcopyRo
  obtain ⟨r3, hr3⟩ := hcopyRw
  have hplaced : placeSections b kc (.fromHeader kc.hdr) st =
      (.ok { code := r1, rodata := r2, data := r3 }, s3) := by
    unfold placeSections
    simp only [Stoppable.bind_eq_ok]
    exact ⟨codeRegion, s1, hcodeOp, roRegion, s2, hroOp, rwRegion, s3, hrwOp, r1, s3, hr1, r2, s3,
      hr2, r3, s3, hr3, rfl⟩
  exact ⟨_, s3, hplaced, stored_of_placeSections hcode hrodata hdata hfits hplaced⟩

/-! ## Opening the sections -/

theorem sectionStart_eq {region : Option Region} {bytes : Bytes} (h : StartsWith region bytes) :
    sectionStart region bytes.length = .ok bytes := by
  unfold sectionStart
  by_cases hzero : bytes.length = 0
  · rw [if_pos hzero, List.eq_nil_of_length_eq_zero hzero]
    rfl
  · obtain ⟨r, hr, hslice⟩ := h fun hnil => hzero (congrArg List.length hnil)
    rw [if_neg hzero, hr]
    show expect (slice r.bytes 0 bytes.length) Stop.panic = _
    rw [hslice]
    rfl

theorem length_of_slice_zero {bs xs : Bytes} {n : Nat} (h : slice bs 0 n = some xs) :
    n ≤ bs.length := (slice_eq_some h).2.1

theorem restoreSection_eq {region : Option Region} {bytes plain : Bytes}
    (h : StartsWith region bytes) (hlen : plain.length = bytes.length) :
    ∃ region', restoreSection region plain = .ok region' ∧ StartsWith region' plain := by
  unfold restoreSection
  by_cases hzero : plain.length = 0
  · rw [if_pos hzero]
    exact ⟨region, rfl, fun hne => absurd (List.eq_nil_of_length_eq_zero hzero) hne⟩
  · obtain ⟨r, hr, hslice⟩ := h fun hnil => hzero (hlen.trans (congrArg List.length hnil))
    have hcopy := copyPrefix_of_le (show plain.length ≤ r.bytes.length from
      hlen ▸ length_of_slice_zero hslice)
    rw [if_neg hzero, hr]
    refine ⟨some { r with bytes := patch r.bytes 0 plain }, ?_, fun _ => ⟨_, rfl, ?_⟩⟩
    · simp only [bind_eq_ok, expect_eq_ok, pure_eq_ok]
      exact ⟨r, rfl, _, hcopy, rfl⟩
    · exact copyPrefix_eq_some hcopy

theorem decryptSections_eq (hr : Reliable b) {hdr : LmodHeader} (hlens : Fits hdr code rodata data)
    (hsum : code.length + rodata.length + data.length < b.width.size) {sections : PlacedSections}
    (hs : sections.Stored code rodata data) {ctx : DecryptionContext} {plain : Bytes}
    (hplain : b.decryptPayload ctx.cek ctx.nonce ctx.tag ctx.aad (code ++ (rodata ++ data)) =
      some plain)
    (hlen : plain.length = code.length + rodata.length + data.length) (st : Loader σ) :
    ∃ sections' st', decryptSections b sections (.fromHeader hdr) (some ctx) st =
        (.ok sections', st') ∧
      sections'.Stored (plain.take code.length) ((plain.drop code.length).take rodata.length)
        ((plain.drop (code.length + rodata.length)).take data.length) := by
  have hcodeLen : (plain.take code.length).length = code.length := by
    rw [List.length_take]
    omega
  have hroLen : ((plain.drop code.length).take rodata.length).length = rodata.length := by
    rw [List.length_take, List.length_drop]
    omega
  have hrwLen : ((plain.drop (code.length + rodata.length)).take data.length).length =
      data.length := by
    rw [List.length_take, List.length_drop]
    omega
  have hlens' : PlacedLens.fromHeader hdr =
      ⟨code.length, rodata.length, data.length, hdr.bssLen.toNat⟩ := by
    unfold PlacedLens.fromHeader
    rw [hlens.code, hlens.rodata, hlens.data]
  have hcodeSlice := hs.code
  have hcodeFits := length_of_slice_zero hcodeSlice
  obtain ⟨ro, hro, hroStarts⟩ := restoreSection_eq hs.rodata hroLen
  obtain ⟨rw', hrw, hrwStarts⟩ := restoreSection_eq hs.data hrwLen
  rw [hlens']
  unfold decryptSections
  dsimp only
  by_cases hzero : code.length + rodata.length + data.length = 0
  · refine ⟨sections, st, ?_, ?_⟩
    · simp only [hzero, if_true, Stoppable.bind_eq_ok, Load.check_eq_ok]
      exact ⟨⟨⟩, st, ⟨by omega, rfl⟩, rfl⟩
    · rw [List.eq_nil_of_length_eq_zero (l := plain) (by omega)]
      simp only [List.take_nil, List.drop_nil]
      exact ⟨slice_zero _, fun hne => absurd rfl hne, fun hne => absurd rfl hne⟩
  · obtain ⟨scratch, st', hscratch, hscratchLen⟩ := operate_ok hr.allocRw
      (code.length + rodata.length + data.length) st
    have hfirst : appendBytes scratch.bytes 0 code =
        .ok (code ++ scratch.bytes.drop code.length, code.length) := by
      have h := appendBytes_eq [] (show code.length ≤ scratch.bytes.length by omega)
      simpa using h
    have hsecond := appendBytes_eq code
      (show rodata.length ≤ (scratch.bytes.drop code.length).length by
        rw [List.length_drop]
        omega)
    have hthird := appendBytes_eq (code ++ rodata)
      (show data.length ≤ ((scratch.bytes.drop code.length).drop rodata.length).length by
        rw [List.length_drop, List.length_drop]
        omega)
    rw [List.length_append, List.append_assoc] at hthird
    have hend : (((scratch.bytes.drop code.length).drop rodata.length).drop data.length) = [] :=
      List.drop_of_length_le (by rw [List.length_drop, List.length_drop]; omega)
    rw [hend, List.append_nil, List.append_assoc] at hthird
    have hcodeCopy := copyPrefix_of_le
      (show (plain.take code.length).length ≤ sections.code.bytes.length by omega)
    let opened : Region := { sections.code with
      bytes := patch sections.code.bytes 0 (plain.take code.length) }
    refine ⟨{ code := opened, rodata := ro, data := rw' }, st', ?_, ?_⟩
    · simp only [hzero, if_false, Stoppable.bind_eq_ok, Load.check_eq_ok, Load.orPanic_eq_ok,
        Stoppable.ofExcept_eq_ok, expect_eq_ok]
      exact ⟨⟨⟩, st, ⟨hsum, rfl⟩, scratch, st', hscratch, code, st', ⟨hcodeSlice, rfl⟩, _, st',
        ⟨hfirst, rfl⟩, rodata, st', ⟨sectionStart_eq hs.rodata, rfl⟩, _, st', ⟨hsecond, rfl⟩, data,
        st', ⟨sectionStart_eq hs.data, rfl⟩, _, st', ⟨hthird, rfl⟩, ⟨⟩, st', ⟨rfl, rfl⟩, plain, st',
        ⟨hplain, rfl⟩, opened, st', ⟨hcodeCopy, rfl⟩, ro, st', ⟨hro, rfl⟩, rw', st', ⟨hrw, rfl⟩, rfl⟩
    · exact ⟨copyPrefix_eq_some hcodeCopy, hroStarts, hrwStarts⟩

end Placing

end Tyu.Seal

import Tyu.Seal.Recover

/-!
# Encryption and the loader

The loader recovers the sections of an encrypted container where nothing depends on the
place of the sealed constants: the encryptor puts them right behind the code, and the
loader reads them from the next multiple of eight.
-/

namespace Tyu.Seal

open Lib Lib.Wire Container

variable {σ : Type}

def openSections (b : Build σ) (k : Container) : Load σ PlacedSections := do
  let modinfo ← Load.orPanic (k.modinfo b.width)
  let ctx ← prepareForBuild b k.hdr k.bytes modinfo
  let sections ← placeSections b k (.fromHeader k.hdr)
  decryptForBuild b sections (.fromHeader k.hdr) ctx

/-- The loader accepts the container, and the regions that it fills hold these sections. -/
def Recovered (b : Build σ) (final code rodata data : Bytes) (st : Loader σ) : Prop :=
  ∃ k, Container.parse b.width final = .ok k ∧ Fits k.hdr code rodata data ∧
    ∃ sections st', openSections b k st = (.ok sections, st') ∧ sections.Stored code rodata data

/-- Every loader of width `w` that holds the key of one of the slots recovers the sections of
the input, whatever the cipher and the random bytes, with or without a signing step. -/
def Recovers (w : PtrWidth) (mode : Overflow) (signing : Option (Bytes → Bytes)) (encMode : EncMode)
    (input : Bytes) (keks : List Bytes) {c : Container} (s : Sections c host) : Prop :=
  ∀ (σ : Type) (b : Build σ) (sealText : SealFn) (rng : Entropy) (j : Nat),
    b.width = w → Reliable b → Opens sealText b.decryptPayload → j < keks.length →
    HoldsKey b sealText rng keks j → ∀ out final,
    encryptFor mode sealText rng encMode input keks = .ok out →
    deliver mode signing out = .ok final → ∀ st : Loader σ,
    Recovered b final s.code s.rodata s.data st

def deliveredLen (signing : Option (Bytes → Bytes)) (hdr : LmodHeader) (n : Nat) : Nat :=
  (sealedLengths hdr (encHeaderLen n)).total + if signing.isSome then trailerLen.toNat else 0

structure Recoverable (w : PtrWidth) (signing : Option (Bytes → Bytes)) (hdr : LmodHeader) (n : Nat) :
    Prop where
  fits : deliveredLen signing hdr n < 2 ^ 32
  slots : n ≤ 64
  rodata : hdr.rodataLen = 0 ∨ 8 ∣ (sealedLengths hdr (encHeaderLen n)).codeStart + hdr.codeLen.toNat
  data : hdr.dataLen.toNat + hdr.bssLen.toNat < w.size

/-! ## What the loader reads -/

section Reading

variable {b : Build σ} {sealText : SealFn} {rng : Entropy} {keks : List Bytes} {mode : Overflow}
  {encMode : EncMode} {c : Container} {s : Sections c host} {out final : Bytes} {k : LmodHeader}

theorem Encrypted.starts (hopens : Opens sealText b.decryptPayload)
    (e : Encrypted mode sealText rng encMode c s keks out) :
    e.layout.codeOff.toNat = (sealedLengths c.hdr (encHeaderLen keks.length)).codeStart ∧
      e.layout.rodataOff.toNat = (sealedLengths c.hdr (encHeaderLen keks.length)).rodataStart ∧
      e.layout.totalLen.toNat = (sealedLengths c.hdr (encHeaderLen keks.length)).total := by
  have heh : (envelopeOf encMode rng e.slots).Formed := formed_envelopeOf hopens e.wrapped
  have hwire : (envelopeOf encMode rng e.slots).wireLen = encHeaderLen keks.length :=
    congrArg encHeaderLen (length_slotsFor e.wrapped)
  have hp := e.laid.placed
  rw [hp.codeOff, hp.rodataOff, hp.totalLen, e.laid.lengths, s.lengths_contents heh, hwire]
  exact ⟨rfl, rfl, rfl⟩

/-- The sections of the delivered container.  The constants are read from their place in the
layout. -/
theorem exists_read (hopens : Opens sealText b.decryptPayload)
    (e : Encrypted mode sealText rng encMode c s keks out)
    (hd : Delivered (sealedHeader c.hdr e.layout) k out final) (w : PtrWidth) :
    ∃ ro, (⟨final, k⟩ : Container).modinfo w = some s.modinfo ∧
      (⟨final, k⟩ : Container).code w = some (e.text.take c.hdr.codeLen.toNat) ∧
      (⟨final, k⟩ : Container).rodata w = some ro ∧
      (⟨final, k⟩ : Container).data w = some
        ((e.text.drop (c.hdr.codeLen.toNat + c.hdr.rodataLen.toNat)).take c.hdr.dataLen.toNat) ∧
      slice out e.layout.rodataOff.toNat (e.layout.rodataOff.toNat + c.hdr.rodataLen.toNat) =
        some ro := by
  have heh : (envelopeOf encMode rng e.slots).Formed := formed_envelopeOf hopens e.wrapped
  have ho := ordered_of_laid heh e.laid
  have h1 := ho.envelope
  have h2 := ho.modinfo
  have h3 := ho.code
  have h4 := ho.rodata
  have h5 := ho.data
  have h6 := ho.relocs
  have htotal := e.layout.totalLen.toNat_lt
  have hlen := e.holds.length
  have htext := length_text hopens e.sealing
  have hlens := s.lens_contents heh
  have hp := e.laid.placed
  rw [hlens] at hp
  have hk : k.modinfoOff = e.layout.modinfoOff ∧ k.modinfoLen = c.hdr.modinfoLen ∧
      k.codeOff = e.layout.codeOff ∧ k.codeLen = c.hdr.codeLen ∧
      k.rodataOff = e.layout.rodataOff ∧ k.rodataLen = c.hdr.rodataLen ∧
      k.dataOff = e.layout.dataOff ∧ k.dataLen = c.hdr.dataLen := by
    rw [hd.fields]
    exact ⟨rfl, hp.modinfoLen, rfl, hp.codeLen, rfl, hp.rodataLen, rfl, hp.dataLen⟩
  obtain ⟨hmo, hml, hco, hcl, hro, hrl, hdo, hdl⟩ := hk
  obtain ⟨ro, hroSlice⟩ := Option.isSome_iff_exists.mp (isSome_slice.mpr
    ⟨show e.layout.rodataOff.toNat ≤ e.layout.rodataOff.toNat + c.hdr.rodataLen.toNat by omega,
      show e.layout.rodataOff.toNat + c.hdr.rodataLen.toNat ≤ out.length by omega⟩)
  have hroLen := length_slice hroSlice
  rw [Nat.add_sub_cancel_left] at hroLen
  -- a section whose bytes are known in the encrypted container
  have hread {off len : UInt32} {xs : Bytes} (hxs : xs.length = len.toNat)
      (hstart : 72 ≤ off.toNat) (hstop : off.toNat + len.toNat ≤ e.layout.totalLen.toNat)
      (hslice : slice out off.toNat (off.toNat + len.toNat) = some xs) :
      (⟨final, k⟩ : Container).sectionBytes w off len = some xs := by
    refine Contents.sectionBytes_of_slice hxs.symm (by omega) ?_
    rw [hd.rest hstart (by omega), hxs]
    exact hslice
  refine ⟨ro, ?_, ?_, ?_, ?_, hroSlice⟩
  · unfold Container.modinfo
    dsimp only
    rw [hmo, hml]
    exact hread s.lens.1 (by omega) (by omega) e.holds.modinfo
  · unfold Container.code
    dsimp only
    rw [hco, hcl]
    exact hread (by rw [List.length_take]; omega) (by omega) (by omega) e.holds.code
  · unfold Container.rodata
    dsimp only
    rw [hro, hrl]
    exact hread hroLen (by omega) (by omega) hroSlice
  · unfold Container.data
    dsimp only
    rw [hdo, hdl]
    exact hread (by rw [List.length_take, List.length_drop]; omega) (by omega) (by omega)
      e.holds.data

/-- What the loader has in its regions after it opened the sections: the pieces of the opened
text.  The text that is opened is put together from the regions. -/
theorem openSections_eq (hr : Reliable b) (hopens : Opens sealText b.decryptPayload)
    (e : Encrypted mode sealText rng encMode c s keks out)
    (hd : Delivered (sealedHeader c.hdr e.layout) k out final) {j : Nat}
    (hkey : HoldsKey b sealText rng keks j) (hj : j < keks.length) (hcount : keks.length ≤ 64)
    (hfits : c.hdr.dataLen.toNat + c.hdr.bssLen.toNat < b.width.size) {ro plain : Bytes}
    (hro : (⟨final, k⟩ : Container).rodata b.width = some ro)
    (hroLen : ro.length = c.hdr.rodataLen.toNat)
    (hplain : b.decryptPayload rng.cek rng.nonce e.tag (contextOf e).aad
      (e.text.take c.hdr.codeLen.toNat ++ (ro ++
        (e.text.drop (c.hdr.codeLen.toNat + c.hdr.rodataLen.toNat)).take c.hdr.dataLen.toNat)) =
      some plain)
    (hlen : plain.length = e.text.length) (st : Loader σ) :
    Fits k s.code s.rodata s.data ∧ ∃ sections st',
      openSections b ⟨final, k⟩ st = (.ok sections, st') ∧
      sections.Stored (plain.take s.code.length)
        ((plain.drop s.code.length).take s.rodata.length)
        ((plain.drop (s.code.length + s.rodata.length)).take s.data.length) := by
  obtain ⟨hm, hc, hrl, hdl⟩ := s.lens
  have htext := length_text hopens e.sealing
  have heh : (envelopeOf encMode rng e.slots).Formed := formed_envelopeOf hopens e.wrapped
  have hsize := b.width.le_size
  have hsum := (ordered_of_laid heh e.laid).data
  have hsum' := (ordered_of_laid heh e.laid).rodata
  have hsum'' := (ordered_of_laid heh e.laid).code
  have htotal := e.layout.relocOff.toNat_lt
  obtain ⟨_, hmodinfo, hcode, -, hdata, -⟩ := exists_read hopens e hd b.width
  have hp := e.laid.placed
  rw [s.lens_contents heh] at hp
  have hk : k.codeLen = c.hdr.codeLen ∧ k.rodataLen = c.hdr.rodataLen ∧
      k.dataLen = c.hdr.dataLen ∧ k.bssLen = c.hdr.bssLen := by
    rw [hd.fields]
    exact ⟨hp.codeLen, hp.rodataLen, hp.dataLen, hp.bssLen⟩
  obtain ⟨hkc, hkr, hkd, hkb⟩ := hk
  have hcodeLen : (e.text.take c.hdr.codeLen.toNat).length = c.hdr.codeLen.toNat := by
    rw [List.length_take]
    omega
  have hdataLen : ((e.text.drop (c.hdr.codeLen.toNat + c.hdr.rodataLen.toNat)).take
      c.hdr.dataLen.toNat).length = c.hdr.dataLen.toNat := by
    rw [List.length_take, List.length_drop]
    omega
  have hlens : Fits k (e.text.take c.hdr.codeLen.toNat) ro
      ((e.text.drop (c.hdr.codeLen.toNat + c.hdr.rodataLen.toNat)).take c.hdr.dataLen.toNat) :=
    ⟨by rw [hkc, hcodeLen], by rw [hkr, hroLen], by rw [hkd, hdataLen]⟩
  obtain ⟨st1, hprepare⟩ := prepareDecryption_eq hopens hr e hd hkey hj hcount st
  obtain ⟨placed, st2, hplace, hstored⟩ := exists_placed hr hcode hro hdata hlens
    (by rw [hkd, hkb]; exact hfits) st1
  have hcontext : b.decryptPayload (contextOf e).cek (contextOf e).nonce (contextOf e).tag
      (contextOf e).aad _ = some plain := hplain
  obtain ⟨opened, st3, hopen, hresult⟩ := decryptSections_eq hr hlens
    (by rw [hcodeLen, hroLen, hdataLen]; omega) hstored hcontext
    (by rw [hlen, htext, hcodeLen, hroLen, hdataLen]) st2
  rw [hcodeLen, hroLen, hdataLen, ← hc, ← hrl, ← hdl] at hresult
  refine ⟨⟨by rw [hkc, hc], by rw [hkr, hrl], by rw [hkd, hdl]⟩, opened, st3, ?_, hresult⟩
  unfold openSections
  simp only [Stoppable.bind_eq_ok]
  refine ⟨s.modinfo, st, orPanic_ok hmodinfo st, some (contextOf e), st1, ?_, placed, st2, hplace, ?_⟩
  · unfold prepareForBuild
    rw [if_pos hr.encryption]
    exact hprepare
  · unfold decryptForBuild
    rw [if_pos hr.encryption]
    exact hopen

end Reading

/-! ## Enough -/

section Enough

variable {w : PtrWidth} {mode : Overflow} {signing : Option (Bytes → Bytes)} {encMode : EncMode}
  {c : Container} {input : Bytes} {keks : List Bytes} {s : Sections c host}

theorem delivered_of_deliver {out final : Bytes}
    (hmac : ∀ mac ∈ signing, ∀ m, (mac m).length = HMAC_SHA256_LEN) {h : LmodHeader}
    (hu : Unsigned h out)
    (hfits : h.totalLen.toNat + (if signing.isSome then trailerLen.toNat else 0) < 2 ^ 32)
    (hfinal : deliver mode signing out = .ok final) : ∃ k, Delivered h k out final := by
  cases signing with
  | none =>
    have hsame : out = final := Except.ok.inj hfinal
    rw [← hsame]
    exact ⟨h, hu.delivered⟩
  | some mac =>
    obtain ⟨k, final', hsign, hd⟩ := hu.delivered_signed mode (hmac mac rfl) hfits
    have hsame : final' = final := Except.ok.inj (hsign.symm.trans hfinal)
    rw [← hsame]
    exact ⟨k, hd⟩

theorem take_drop_split (xs : Bytes) (m n l : Nat) (h : xs.length = m + n + l) :
    xs.take m ++ ((xs.drop m).take n ++ (xs.drop (m + n)).take l) = xs := by
  rw [List.take_of_length_le (l := xs.drop (m + n)) (by rw [List.length_drop]; omega),
    ← List.drop_drop, List.take_append_drop, List.take_append_drop]

theorem alignTo_of_dvd {k n : Nat} (hk : 0 < k) (h : k ∣ n) : alignTo k n = n := by
  obtain ⟨m, rfl⟩ := h
  unfold alignTo
  rw [Nat.add_sub_assoc hk, Nat.mul_add_div hk, Nat.div_eq_of_lt (by omega), Nat.add_zero,
    Nat.mul_comm]

theorem rodata_in_place {b : Build σ} {sealText : SealFn} {rng : Entropy} {out : Bytes}
    (hopens : Opens sealText b.decryptPayload)
    (e : Encrypted mode sealText rng encMode c s keks out)
    (h : c.hdr.rodataLen = 0 ∨
      8 ∣ (sealedLengths c.hdr (encHeaderLen keks.length)).codeStart + c.hdr.codeLen.toNat)
    {ro : Bytes}
    (hro : slice out e.layout.rodataOff.toNat
      (e.layout.rodataOff.toNat + c.hdr.rodataLen.toNat) = some ro) :
    ro = (e.text.drop c.hdr.codeLen.toNat).take c.hdr.rodataLen.toNat := by
  rcases h with hzero | hdvd
  · have hlen := length_slice hro
    rw [hzero] at hlen ⊢
    rw [List.eq_nil_of_length_eq_zero (hlen.trans (Nat.add_sub_cancel_left _ _))]
    exact (List.take_zero).symm
  · obtain ⟨hcode, hrodata, -⟩ := e.starts hopens
    have hoff : e.layout.rodataOff.toNat = e.layout.codeOff.toNat + c.hdr.codeLen.toNat := by
      rw [hrodata, hcode]
      exact alignTo_of_dvd (by decide) hdvd
    rw [hoff, e.holds.rodata] at hro
    exact (Option.some.inj hro).symm

theorem recovers_of_recoverable (hparse : Container.parse host input = .ok c)
    (hunsigned : c.hdr.flags &&& LMOD_FLAG_SIGNED = 0)
    (hmac : ∀ mac ∈ signing, ∀ m, (mac m).length = HMAC_SHA256_LEN)
    (h : Recoverable w signing c.hdr keks.length) :
    Recovers w mode signing encMode input keks s := by
  intro σ b sealText rng j hw hr hopens hj hkey out final hout hfinal st
  subst hw
  have hfits := h.fits
  unfold deliveredLen at hfits
  obtain ⟨e⟩ := encrypted_of_ok hopens hparse s (by omega) hout
  have hu := e.unsigned hunsigned
  have htotal : (sealedHeader c.hdr e.layout).totalLen.toNat = _ := (e.starts hopens).2.2
  obtain ⟨k, hd⟩ := delivered_of_deliver hmac hu
    (by rw [htotal]; exact hfits) hfinal
  obtain ⟨hm, hc, hrl, hdl⟩ := s.lens
  have htext := length_text hopens e.sealing
  obtain ⟨ro, -, -, hro, -, hslice⟩ := exists_read hopens e hd b.width
  have hplace := rodata_in_place hopens e h.rodata hslice
  have hwhole := take_drop_split e.text _ _ _ htext
  rw [← hplace] at hwhole
  have hplain : b.decryptPayload rng.cek rng.nonce e.tag (contextOf e).aad
      (e.text.take c.hdr.codeLen.toNat ++ (ro ++
        (e.text.drop (c.hdr.codeLen.toNat + c.hdr.rodataLen.toNat)).take c.hdr.dataLen.toNat)) =
      some (s.code ++ (s.rodata ++ s.data)) := by
    rw [hwhole]
    exact hopens.opens e.sealing
  have hroLen := length_slice hslice
  rw [Nat.add_sub_cancel_left] at hroLen
  obtain ⟨hlens, sections, st', hrun, hstored⟩ := openSections_eq hr hopens e hd hkey hj h.slots
    h.data hro hroLen hplain (hopens.length e.sealing).1.symm st
  refine ⟨⟨final, k⟩, hd.parse b.width, hlens, sections, st', hrun, ?_⟩
  rw [List.take_left, List.drop_left, List.take_left, ← List.drop_drop, List.drop_left,
    List.drop_left, List.take_length] at hstored
  exact hstored

theorem total_lt_of_encryptFor {sealText : SealFn} {openText : OpenFn} {rng : Entropy} {out : Bytes}
    (hopens : Opens sealText openText) (hparse : Container.parse host input = .ok c)
    (h : encryptFor .stops sealText rng encMode input keks = .ok out) :
    (sealedLengths c.hdr (encHeaderLen keks.length)).total < 2 ^ 32 := by
  unfold encryptFor at h
  rw [hparse] at h
  simp only [bind_eq_ok] at h
  obtain ⟨_, hc, _, -, slots, hslots, h⟩ := h
  have hsame := Except.ok.inj hc
  subst hsame
  have hslots' : slotsFor sealText rng keks = .ok slots := hslots
  have heh : (envelopeOf encMode rng slots).Formed := formed_envelopeOf hopens hslots'
  have hwire : (envelopeOf encMode rng slots).wireLen = encHeaderLen keks.length :=
    congrArg encHeaderLen (length_slotsFor hslots')
  unfold buildEncryptedContainer frame at h
  simp only [bind_eq_ok, expect_eq_ok] at h
  obtain ⟨layout, hlayout, _, ⟨out0, hfirst, out1, hsecond, -⟩, -⟩ := h
  -- the envelope was copied into the buffer, so its length is no longer than the buffer's
  unfold copyInto at hfirst hsecond
  simp only [bind_eq_ok, require_eq_ok, pure_eq_ok] at hfirst hsecond
  obtain ⟨_, hin1, hout0⟩ := hfirst
  obtain ⟨_, hin2, -⟩ := hsecond
  rw [← hout0, length_patch hin1, List.length_replicate] at hin2
  have henvelope : (encHeaderBytes (envelopeOf encMode rng slots)).length = _ :=
    length_encHeaderBytes heh
  rw [hwire] at henvelope
  have hshort : encHeaderLen keks.length < 2 ^ 32 := by
    have htotal := layout.totalLen.toNat_lt
    have hin : HEADER_SIZE.toNat + (encHeaderBytes (envelopeOf encMode rng slots)).length ≤
      layout.totalLen.toNat := hin2
    omega
  have hlt := total_lt_of_stops hlayout
  have hlengths : (sealedLens c.hdr (encHeaderLen keks.length)).lengths =
      sealedLengths c.hdr (encHeaderLen keks.length) := by
    unfold sealedLens SectionLens.lengths sealedLengths
    simp only [UInt32.toNat_ofNat', Nat.mod_eq_of_lt hshort]
  rw [← hlengths, ← hwire]
  exact hlt

theorem recovers_of_stops (hparse : Container.parse host input = .ok c)
    (hunsigned : c.hdr.flags &&& LMOD_FLAG_SIGNED = 0)
    (h : 2 ^ 32 ≤ deliveredLen signing c.hdr keks.length) :
    Recovers w .stops signing encMode input keks s := by
  intro σ b sealText rng j hw hr hopens hj hkey out final hout hfinal st
  exfalso
  have hlt := total_lt_of_encryptFor hopens hparse hout
  obtain ⟨e⟩ := encrypted_of_ok hopens hparse s hlt hout
  have hu := e.unsigned hunsigned
  have htotal := (e.starts hopens).2.2
  unfold deliveredLen at h
  cases signing with
  | none => exact absurd hlt (Nat.not_lt.mpr h)
  | some mac =>
    have hsign : sign .stops mac out = .ok final := hfinal
    unfold sign at hsign
    simp only [bind_eq_ok, expect_eq_ok] at hsign
    obtain ⟨hdr, hdecode, newTotal, hnew, -⟩ := hsign
    rw [(hu.checked .w64).header] at hdecode
    have hsame := Option.some.inj hdecode
    subst hsame
    have hsum := addU32_stops hnew
    have hbound := newTotal.toNat_lt
    have htotal' : (sealedHeader c.hdr e.layout).totalLen.toNat = _ := htotal
    rw [htotal'] at hsum
    have hover : 2 ^ 32 ≤ (sealedLengths c.hdr (encHeaderLen keks.length)).total +
      trailerLen.toNat := h
    omega

end Enough

/-- Each byte with the bits of `x` flipped. -/
def flipSeal (x : UInt8) : SealFn := fun _ _ _ msg =>
  some (msg.map (· ^^^ x), List.replicate TAG_LEN 0)

def flipOpen (x : UInt8) : OpenFn := fun _ _ _ _ text => some (text.map (· ^^^ x))

theorem opens_flip (x : UInt8) : Opens (flipSeal x) (flipOpen x) where
  length := by
    intro key nonce aad msg text tag h
    obtain ⟨rfl, rfl⟩ := Prod.mk.inj (Option.some.inj h)
    exact ⟨List.length_map _, List.length_replicate⟩
  opens := by
    intro key nonce aad msg text tag h
    obtain ⟨rfl, rfl⟩ := Prod.mk.inj (Option.some.inj h)
    unfold flipOpen
    rw [List.map_map]
    have hid : (fun y : UInt8 => y ^^^ x) ∘ (· ^^^ x) = id := by
      funext y
      show y ^^^ x ^^^ x = y
      rw [UInt8.xor_assoc, UInt8.xor_self, UInt8.xor_zero]
    rw [hid, List.map_id]

def flipBuild (w : PtrWidth) (x : UInt8) (kek : Bytes) : Build Unit where
  ops := {
    allocExec := fun n _ => (.ok { base := 0, bytes := List.replicate n 0 }, ())
    allocRo := fun n _ => (.ok { base := 0, bytes := List.replicate n 0 }, ())
    allocRw := fun n _ => (.ok { base := 0, bytes := List.replicate n 0 }, ())
    makeExec := fun r _ => (.ok r, ())
    verifySig := fun _ _ _ => true
    expectedAbiHash := fun _ => 0
    dsRemainingSlots := fun _ => 0
    platformHash := fun _ => none
    apertureTable := fun _ => []
    trustLevel := fun _ => .one
    verifyPolicy := fun _ => .off
    placementPolicy := fun _ => .copyToRam
    unwrapCek := fun _ _ wrapped => unwrapCek (flipOpen x) kek wrapped
    call := fun _ _ => () }
  width := w
  arm := false
  encryption := true
  verifyManifest := false
  sha256 := fun _ => []
  decryptPayload := flipOpen x

theorem reliable_flipBuild (w : PtrWidth) (x : UInt8) (kek : Bytes) :
    Reliable (flipBuild w x kek) where
  encryption := rfl
  trusted := fun _ => Nat.le_refl _
  allocExec := fun _ _ => ⟨_, _, rfl, List.length_replicate⟩
  allocRo := fun _ _ => ⟨_, _, rfl, List.length_replicate⟩
  allocRw := fun _ _ => ⟨_, _, rfl, List.length_replicate⟩

theorem holdsKey_flipBuild (w : PtrWidth) (x : UInt8) (kek : Bytes) (keks : List Bytes)
    (rng : Entropy) : HoldsKey (flipBuild w x kek) (flipSeal x) rng (kek :: keks) 0 where
  own := by
    intro kek' hkek p wrapped
    rw [← Option.some.inj hkek]
    rfl
  earlier := fun i hi => absurd hi (Nat.not_lt_zero i)

def zeroEntropy : Entropy where
  cek := List.replicate CEK_LEN 0
  nonce := List.replicate NONCE_LEN 0
  wrapNonce := fun _ => List.replicate NONCE_LEN 0
  length_cek := List.length_replicate
  length_nonce := List.length_replicate
  length_wrapNonce := fun _ => List.length_replicate

def unitLoader : Loader Unit where
  platform := ()
  map := Journal.empty
  loaded := Journal.empty
  registry := Journal.empty
  calls := []

/-! ## Needed -/

section Needed

variable {w : PtrWidth} {mode : Overflow} {signing : Option (Bytes → Bytes)} {encMode : EncMode}
  {c : Container} {input kek : Bytes} {keks : List Bytes} {s : Sections c host}

theorem recovered_flip (h : Recovers w mode signing encMode input (kek :: keks) s) (x : UInt8)
    {out final : Bytes}
    (hout : encryptFor mode (flipSeal x) zeroEntropy encMode input (kek :: keks) = .ok out)
    (hfinal : deliver mode signing out = .ok final) :
    Recovered (flipBuild w x kek) final s.code s.rodata s.data unitLoader :=
  h Unit (flipBuild w x kek) (flipSeal x) zeroEntropy 0 rfl (reliable_flipBuild w x kek)
    (opens_flip x) (Nat.succ_pos _) (holdsKey_flipBuild w x kek keks zeroEntropy) out final hout
    hfinal unitLoader

theorem fits_of_recovers (hparse : Container.parse host input = .ok c)
    (hunsigned : c.hdr.flags &&& LMOD_FLAG_SIGNED = 0)
    (hmac : ∀ mac ∈ signing, ∀ m, (mac m).length = HMAC_SHA256_LEN)
    (htotal : (sealedLengths c.hdr (encHeaderLen (kek :: keks).length)).total < 2 ^ 32)
    (hsafe : ¬ (mode = .stops ∧ 2 ^ 32 ≤ deliveredLen signing c.hdr (kek :: keks).length))
    (h : Recovers w mode signing encMode input (kek :: keks) s) :
    deliveredLen signing c.hdr (kek :: keks).length < 2 ^ 32 := by
  by_contra hge
  have hlong := Nat.le_of_not_lt hge
  cases hmode : mode with
  | stops => exact hsafe ⟨hmode, hlong⟩
  | wraps =>
    subst hmode
    cases hsigning : signing with
    | none =>
      subst hsigning
      exact hge htotal
    | some mac =>
      subst hsigning
      obtain ⟨out, hout⟩ := exists_encrypted .wraps zeroEntropy encMode (opens_flip 0)
        (fun _ _ _ _ => rfl) hparse s htotal
      obtain ⟨e⟩ := encrypted_of_ok (opens_flip 0) hparse s htotal hout
      have hu := e.unsigned hunsigned
      obtain ⟨trailer, hsign, htrailer⟩ := hu.sign_eq .wraps mac rfl
      obtain ⟨k, hk, -⟩ := recovered_flip h 0 hout hsign
      have hlt := (parse_eq_ok.mp hk).2.length_lt
      have hall := (e.starts (b := flipBuild w 0 kek) (opens_flip 0)).2.2
      have hlen := e.holds.length
      have hheader := (hu.checked .w64).headerFits
      have hover : 2 ^ 32 ≤ (sealedLengths c.hdr (encHeaderLen (kek :: keks).length)).total + 33 :=
        hlong
      rw [List.length_append, length_headerBytes, List.length_append, List.length_drop, htrailer,
        hmac mac rfl, show HMAC_SHA256_LEN = 32 from rfl] at hlt
      omega

variable (mode encMode s) in
theorem exists_delivered (hparse : Container.parse host input = .ok c)
    (hunsigned : c.hdr.flags &&& LMOD_FLAG_SIGNED = 0)
    (hmac : ∀ mac ∈ signing, ∀ m, (mac m).length = HMAC_SHA256_LEN)
    (hfits : deliveredLen signing c.hdr (kek :: keks).length < 2 ^ 32) (x : UInt8) :
    ∃ out final k, ∃ e : Encrypted mode (flipSeal x) zeroEntropy encMode c s (kek :: keks) out,
      encryptFor mode (flipSeal x) zeroEntropy encMode input (kek :: keks) = .ok out ∧
      deliver mode signing out = .ok final ∧
      Delivered (sealedHeader c.hdr e.layout) k out final := by
  unfold deliveredLen at hfits
  obtain ⟨out, hout⟩ := exists_encrypted mode zeroEntropy encMode (opens_flip x)
    (fun _ _ _ _ => rfl) hparse s
    (show (sealedLengths c.hdr (encHeaderLen (kek :: keks).length)).total < 2 ^ 32 by omega)
  obtain ⟨e⟩ := encrypted_of_ok (opens_flip x) hparse s (by omega) hout
  have hu := e.unsigned hunsigned
  have hall : (sealedHeader c.hdr e.layout).totalLen.toNat = _ :=
    (e.starts (b := flipBuild .w64 x kek) (opens_flip x)).2.2
  cases signing with
  | none => exact ⟨out, out, _, e, hout, rfl, hu.delivered⟩
  | some mac =>
    obtain ⟨k, final, hsign, hd⟩ := hu.delivered_signed mode (hmac mac rfl)
      (by rw [hall]; exact hfits)
    exact ⟨out, final, k, e, hout, hsign, hd⟩

theorem slots_of_recovers (hparse : Container.parse host input = .ok c)
    (hunsigned : c.hdr.flags &&& LMOD_FLAG_SIGNED = 0)
    (hmac : ∀ mac ∈ signing, ∀ m, (mac m).length = HMAC_SHA256_LEN)
    (hfits : deliveredLen signing c.hdr (kek :: keks).length < 2 ^ 32)
    (h : Recovers w mode signing encMode input (kek :: keks) s) : (kek :: keks).length ≤ 64 := by
  by_contra hmany
  obtain ⟨out, final, k, e, hout, hfinal, hd⟩ := exists_delivered mode encMode s hparse hunsigned hmac hfits 0
  obtain ⟨k', hk', -, sections, st', hopen, -⟩ := recovered_flip h 0 hout hfinal
  have hsame := Except.ok.inj ((hd.parse w).symm.trans hk')
  subst hsame
  unfold openSections at hopen
  simp only [Stoppable.bind_eq_ok] at hopen
  obtain ⟨_, _, -, _, _, hprepare, -⟩ := hopen
  unfold prepareForBuild at hprepare
  rw [if_pos (show (flipBuild w 0 kek).encryption = true from rfl)] at hprepare
  unfold prepareDecryption at hprepare
  rw [if_neg hd.marked] at hprepare
  simp only [Stoppable.bind_eq_ok, Stoppable.ofExcept_eq_ok] at hprepare
  obtain ⟨_, _, -, _, _, -, _, _, -, v, _, ⟨hv, -⟩, -⟩ := hprepare
  have heh := formed_tagged (b := flipBuild w 0 kek) (opens_flip 0) e
  obtain ⟨rest, hrest⟩ := envelope_of_delivered (b := flipBuild w 0 kek) (opens_flip 0) e hd
  have hslots := length_slotsFor e.wrapped
  have hlen : (kek :: keks).length < 2 ^ 32 := by
    unfold deliveredLen at hfits
    have hwire := (sealedLengths c.hdr (encHeaderLen (kek :: keks).length)).ordered
    have hfirst : (sealedLengths c.hdr (encHeaderLen (kek :: keks).length)).modinfoStart =
      72 + (36 + (kek :: keks).length * 76) := rfl
    omega
  have hbad := parseEncHeaderView_of_many heh
    (show 64 < e.slots.length by omega) (show e.slots.length < 2 ^ 32 by omega) rest
  rw [show HEADER_SIZE.toNat = 72 from rfl, hrest, hbad] at hv
  cases hv

theorem data_of_recovers (hparse : Container.parse host input = .ok c)
    (hunsigned : c.hdr.flags &&& LMOD_FLAG_SIGNED = 0)
    (hmac : ∀ mac ∈ signing, ∀ m, (mac m).length = HMAC_SHA256_LEN)
    (hfits : deliveredLen signing c.hdr (kek :: keks).length < 2 ^ 32)
    (hslots : (kek :: keks).length ≤ 64)
    (h : Recovers w mode signing encMode input (kek :: keks) s) :
    c.hdr.dataLen.toNat + c.hdr.bssLen.toNat < w.size := by
  by_contra hlong
  have hsize := w.le_size
  have hbss := c.hdr.bssLen.toNat_lt
  have hdataLt := c.hdr.dataLen.toNat_lt
  have hpos : c.hdr.dataLen.toNat ≠ 0 := by omega
  have hshort : usize w (c.hdr.dataLen.toNat + c.hdr.bssLen.toNat) < c.hdr.dataLen.toNat := by
    have hmod : usize w (c.hdr.dataLen.toNat + c.hdr.bssLen.toNat) =
        c.hdr.dataLen.toNat + c.hdr.bssLen.toNat - w.size := by
      unfold usize
      rw [Nat.mod_eq_sub_mod (by omega), Nat.mod_eq_of_lt (by omega)]
    omega
  obtain ⟨out, final, k, e, hout, hfinal, hd⟩ := exists_delivered mode encMode s hparse hunsigned hmac hfits 0
  have hr := reliable_flipBuild w 0 kek
  have heh : (envelopeOf encMode zeroEntropy e.slots).Formed :=
    formed_envelopeOf (opens_flip 0) e.wrapped
  have hp := e.laid.placed
  rw [s.lens_contents heh] at hp
  have hk : k.dataLen = c.hdr.dataLen ∧ k.bssLen = c.hdr.bssLen := by
    rw [hd.fields]
    exact ⟨hp.dataLen, hp.bssLen⟩
  obtain ⟨hkd, hkb⟩ := hk
  obtain ⟨k', hk', -, sections, st', hopen, -⟩ := recovered_flip h 0 hout hfinal
  have hsame := Except.ok.inj ((hd.parse w).symm.trans hk')
  subst hsame
  obtain ⟨_, hmodinfo, -, -, hdata, -⟩ := exists_read (b := flipBuild w 0 kek) (opens_flip 0) e hd w
  obtain ⟨st1, hprepare⟩ := prepareDecryption_eq (b := flipBuild w 0 kek) (opens_flip 0) hr e hd
    (holdsKey_flipBuild w 0 kek keks zeroEntropy) (Nat.succ_pos _) hslots unitLoader
  unfold openSections at hopen
  simp only [Stoppable.bind_eq_ok] at hopen
  obtain ⟨modinfo, m, hm, ctx, m1, hctx, placed, m2, hplace, hopen⟩ := hopen
  obtain ⟨hread, rfl⟩ := Load.orPanic_eq_ok.mp hm
  have hmod : modinfo = s.modinfo := Option.some.inj (hread.symm.trans hmodinfo)
  subst hmod
  have hctx' : (Except.ok ctx, m1) = (Except.ok (some (contextOf e)), st1) := hctx.symm.trans hprepare
  obtain ⟨hctx', -⟩ := Prod.mk.inj hctx'
  rw [Except.ok.inj hctx'] at hopen
  -- no data were placed
  have hnone : placed.data = none := by
    unfold placeSections at hplace
    simp only [Stoppable.bind_eq_ok, Stoppable.pure_eq_ok] at hplace
    obtain ⟨_, _, -, _, s2, -, region, s3, hregion, _, _, -, _, _, -, region', _, hcopy, hplaced, -⟩ :=
      hplace
    obtain ⟨r0, s0, halloc, hlen⟩ := allocSection_ok hr.allocRw (usize w
      ((PlacedLens.fromHeader k).data + (PlacedLens.fromHeader k).bss)) s2
    have hsame : (Except.ok region, s3) = (Except.ok r0, s0) := hregion.symm.trans halloc
    obtain ⟨hsame, -⟩ := Prod.mk.inj hsame
    rw [← Except.ok.inj hsame] at hlen
    rw [← hplaced]
    show region' = none
    unfold copyData at hcopy
    cases hsome : region with
    | none =>
      rw [hsome] at hcopy
      exact (Stoppable.pure_eq_ok.mp hcopy).1.symm
    | some r =>
      exfalso
      rw [hsome] at hcopy
      have hdata0 : (PlacedLens.fromHeader k).data > 0 := by
        show 0 < k.dataLen.toNat
        rw [hkd]
        exact Nat.pos_of_ne_zero hpos
      simp only [hdata0, if_true, Stoppable.bind_eq_ok, Load.orPanic_eq_ok] at hcopy
      obtain ⟨bytes, _, ⟨hbytes, rfl⟩, r', _, ⟨hpre, rfl⟩, -⟩ := hcopy
      have hsame' := Option.some.inj (hbytes.symm.trans hdata)
      unfold Region.copyPrefix at hpre
      split at hpre
      · rename_i hle
        have htext := length_text (opens_flip 0) e.sealing
        rw [hsame', hlen r hsome, List.length_take, List.length_drop] at hle
        have hfrom : usize w ((PlacedLens.fromHeader k).data + (PlacedLens.fromHeader k).bss) =
            usize w (c.hdr.dataLen.toNat + c.hdr.bssLen.toNat) := by
          unfold PlacedLens.fromHeader
          rw [hkd, hkb]
        omega
      · cases hpre
  unfold decryptForBuild at hopen
  rw [if_pos (show (flipBuild w 0 kek).encryption = true from rfl)] at hopen
  unfold decryptSections at hopen
  dsimp only at hopen
  simp only [Stoppable.bind_eq_ok, Load.check_eq_ok] at hopen
  obtain ⟨-, _, ⟨-, rfl⟩, hopen⟩ := hopen
  have hlensData : (PlacedLens.fromHeader k).data = c.hdr.dataLen.toNat := by
    unfold PlacedLens.fromHeader
    rw [hkd]
  rw [if_neg (by omega)] at hopen
  simp only [Stoppable.bind_eq_ok, Stoppable.ofExcept_eq_ok] at hopen
  obtain ⟨_, _, -, _, _, -, _, _, -, _, _, -, _, _, -, bytes, _, ⟨hstart, -⟩, -⟩ := hopen
  unfold sectionStart at hstart
  rw [if_neg (by omega), hnone] at hstart
  cases hstart

theorem startsWith_unique {region : Option Region} {xs ys : Bytes} (hx : StartsWith region xs)
    (hy : StartsWith region ys) (hlen : xs.length = ys.length) : xs = ys := by
  by_cases hnil : xs = []
  · rw [hnil] at hlen ⊢
    exact (List.eq_nil_of_length_eq_zero hlen.symm).symm
  · obtain ⟨r, hr, hxs⟩ := hx hnil
    have hne : ys ≠ [] := fun h => hnil (List.eq_nil_of_length_eq_zero (hlen.trans (by rw [h]; rfl)))
    obtain ⟨r', hr', hys⟩ := hy hne
    have hsame := Option.some.inj (hr.symm.trans hr')
    rw [← hsame, ← hlen, hxs] at hys
    exact Option.some.inj hys

theorem lt_alignTo {k n : Nat} (hk : 0 < k) (h : ¬ k ∣ n) : n < alignTo k n := by
  refine Nat.lt_of_le_of_ne (le_alignTo hk) fun heq => h ?_
  rw [heq]
  exact Nat.dvd_mul_left _ _

theorem last_read_zero {x : UInt8} {rng : Entropy} {out : Bytes}
    (e : Encrypted mode (flipSeal x) rng encMode c s keks out)
    (hpos : c.hdr.rodataLen.toNat ≠ 0)
    (hpad : ¬ 8 ∣ (sealedLengths c.hdr (encHeaderLen keks.length)).codeStart + c.hdr.codeLen.toNat)
    {ro : Bytes} (hro : slice out e.layout.rodataOff.toNat
      (e.layout.rodataOff.toNat + c.hdr.rodataLen.toNat) = some ro) :
    ro[c.hdr.rodataLen.toNat - 1]? = some 0 := by
  have heh : (envelopeOf encMode rng e.slots).Formed :=
    formed_envelopeOf (opens_flip x) e.wrapped
  have ho := (ordered_of_laid heh e.laid).rodata
  obtain ⟨hcode, hrodata, -⟩ := e.starts (b := flipBuild .w64 x []) (opens_flip x)
  have hlt : e.layout.codeOff.toNat + c.hdr.codeLen.toNat < e.layout.rodataOff.toNat := by
    rw [hcode, hrodata]
    exact lt_alignTo (by decide) hpad
  have hgap := e.holds.gap (a := e.layout.rodataOff.toNat + (c.hdr.rodataLen.toNat - 1)) (n := 1)
    (by omega) (by omega)
  have hget := getElem?_slice hgap Nat.zero_lt_one
  rw [← getElem?_slice hro (show c.hdr.rodataLen.toNat - 1 < c.hdr.rodataLen.toNat by omega)]
  exact hget

theorem rodata_of_recovers (hparse : Container.parse host input = .ok c)
    (hunsigned : c.hdr.flags &&& LMOD_FLAG_SIGNED = 0)
    (hmac : ∀ mac ∈ signing, ∀ m, (mac m).length = HMAC_SHA256_LEN)
    (hfits : deliveredLen signing c.hdr (kek :: keks).length < 2 ^ 32)
    (hslots : (kek :: keks).length ≤ 64)
    (hdata : c.hdr.dataLen.toNat + c.hdr.bssLen.toNat < w.size)
    (h : Recovers w mode signing encMode input (kek :: keks) s) :
    c.hdr.rodataLen = 0 ∨
      8 ∣ (sealedLengths c.hdr (encHeaderLen (kek :: keks).length)).codeStart +
        c.hdr.codeLen.toNat := by
  by_contra hnot
  obtain ⟨hne, hpad⟩ := not_or.mp hnot
  have hpos : c.hdr.rodataLen.toNat ≠ 0 := fun hzero => hne (UInt32.toNat_inj.mp hzero)
  obtain ⟨hm, hc, hrl, hdl⟩ := s.lens
  -- a mask that does not leave the last constant as the padding gives it
  obtain ⟨y, hy⟩ : ∃ y, s.rodata[c.hdr.rodataLen.toNat - 1]? = some y :=
    ⟨_, List.getElem?_eq_getElem (by omega)⟩
  obtain ⟨out, final, k, e, hout, hfinal, hd⟩ := exists_delivered mode encMode s hparse hunsigned hmac hfits (y + 1)
  have htext := length_text (opens_flip (y + 1)) e.sealing
  obtain ⟨ro, -, -, hro, -, hslice⟩ := exists_read (b := flipBuild w (y + 1) kek)
    (opens_flip (y + 1)) e hd w
  have hroLen := length_slice hslice
  rw [Nat.add_sub_cancel_left] at hroLen
  have hcodeLen : (e.text.take c.hdr.codeLen.toNat).length = s.code.length := by
    rw [List.length_take]
    omega
  obtain ⟨-, sections, st', hrun, hstored⟩ := openSections_eq (b := flipBuild w (y + 1) kek)
    (reliable_flipBuild w (y + 1) kek) (opens_flip (y + 1)) e hd
    (holdsKey_flipBuild w (y + 1) kek keks zeroEntropy) (Nat.succ_pos _) hslots hdata hro hroLen rfl
    (by
      rw [List.length_map, List.length_append, List.length_append, hroLen, List.length_take,
        List.length_take, List.length_drop]
      omega) unitLoader
  obtain ⟨k', hk', -, sections', st'', hrun', hstored'⟩ := recovered_flip h (y + 1) hout hfinal
  have hsame := Except.ok.inj ((hd.parse w).symm.trans hk')
  subst hsame
  have hresult := hrun.symm.trans hrun'
  have hsections := Except.ok.inj (Prod.mk.inj hresult).1
  rw [← hsections] at hstored'
  have hmiddle : ∀ a d : Bytes, a.length = s.code.length →
      (((a ++ (ro ++ d)).map (· ^^^ (y + 1))).drop s.code.length).take s.rodata.length =
        ro.map (· ^^^ (y + 1)) := by
    intro a d ha
    rw [List.map_append, List.map_append, List.drop_left' (by rw [List.length_map]; exact ha),
      List.take_left' (by rw [List.length_map]; omega)]
  have hrodata := hstored.rodata
  rw [hmiddle _ _ hcodeLen] at hrodata
  have heq := startsWith_unique hstored'.rodata hrodata (by rw [List.length_map]; omega)
  have hlast := last_read_zero e hpos hpad hslice
  have hmask := congrArg (fun bs : Bytes => bs[c.hdr.rodataLen.toNat - 1]?) heq
  simp only [hy, List.getElem?_map, hlast, Option.map_some, UInt8.zero_xor, Option.some.injEq] at hmask
  have hnat := congrArg UInt8.toNat hmask
  have hbound := y.toNat_lt
  rw [UInt8.toNat_add] at hnat
  change y.toNat = (y.toNat + 1) % 256 at hnat
  omega

end Needed

/-! ## The whole -/

/-- The loader recovers the sections exactly where the delivered container fits, has at most 64
keys and room for its data, and the constants follow the code without padding; or where a build
with overflow checks accepts nothing.  Without those checks this is told for the layouts that
fit. -/
theorem recovers_iff {w : PtrWidth} {mode : Overflow} {signing : Option (Bytes → Bytes)}
    {encMode : EncMode} {c : Container} {input : Bytes} {keks : List Bytes} (s : Sections c host)
    (hparse : Container.parse host input = .ok c)
    (hunsigned : c.hdr.flags &&& LMOD_FLAG_SIGNED = 0)
    (hmac : ∀ mac ∈ signing, ∀ m, (mac m).length = HMAC_SHA256_LEN) (hkeys : keks ≠ []) :
    (mode = .stops ∧ 2 ^ 32 ≤ deliveredLen signing c.hdr keks.length ∨
        Recoverable w signing c.hdr keks.length →
      Recovers w mode signing encMode input keks s) ∧
    (mode = .stops ∨ (sealedLengths c.hdr (encHeaderLen keks.length)).total < 2 ^ 32 →
      Recovers w mode signing encMode input keks s →
        mode = .stops ∧ 2 ^ 32 ≤ deliveredLen signing c.hdr keks.length ∨
          Recoverable w signing c.hdr keks.length) := by
  constructor
  · rintro (⟨rfl, hover⟩ | hrec)
    · exact recovers_of_stops hparse hunsigned hover
    · exact recovers_of_recoverable hparse hunsigned hmac hrec
  · intro hsafe h
    by_cases hstops : mode = .stops ∧ 2 ^ 32 ≤ deliveredLen signing c.hdr keks.length
    · exact .inl hstops
    · obtain ⟨kek, keks, rfl⟩ := List.exists_cons_of_ne_nil hkeys
      have htotal : (sealedLengths c.hdr (encHeaderLen (kek :: keks).length)).total < 2 ^ 32 := by
        rcases hsafe with hmode | htotal
        · have hlt : ¬ 2 ^ 32 ≤ deliveredLen signing c.hdr (kek :: keks).length :=
            fun hge => hstops ⟨hmode, hge⟩
          unfold deliveredLen at hlt
          omega
        · exact htotal
      have hfits := fits_of_recovers hparse hunsigned hmac htotal hstops h
      have hslots := slots_of_recovers hparse hunsigned hmac hfits h
      have hdata := data_of_recovers hparse hunsigned hmac hfits hslots h
      exact .inr ⟨hfits, hslots, rodata_of_recovers hparse hunsigned hmac hfits hslots hdata h, hdata⟩

/-- A module of `n` bytes of code and one constant. -/
def oneConstant (n : Nat) : Contents where
  abiHash := 0
  envelope := []
  modinfo := []
  code := List.replicate n 1
  rodata := [7]
  data := []
  bssLen := 0
  relocs := []

/-- Its header; the code lies right behind it, and the constant behind the code. -/
def oneConstantHeader (n rodataOff total : UInt32) : LmodHeader where
  totalLen := total
  modinfoOff := 72
  codeOff := 72
  codeLen := n
  rodataOff := rodataOff
  rodataLen := 1
  dataOff := total
  relocOff := total
  sigOff := total

theorem laid_four : (oneConstant 4).Laid (oneConstantHeader 4 80 88) :=
  ⟨⟨rfl, rfl, rfl, rfl, rfl, rfl, rfl, rfl, rfl, rfl, rfl, rfl, rfl, rfl, rfl, rfl⟩, rfl, by decide⟩

theorem laid_eight : (oneConstant 8).Laid (oneConstantHeader 8 80 88) :=
  ⟨⟨rfl, rfl, rfl, rfl, rfl, rfl, rfl, rfl, rfl, rfl, rfl, rfl, rfl, rfl, rfl, rfl⟩, rfl, by decide⟩

def sectionsOf {contents : Contents} {hdr : LmodHeader} (hl : contents.Laid hdr) :
    Sections ⟨contents.assemble hdr, hdr⟩ host where
  modinfo := contents.modinfo
  code := contents.code
  rodata := contents.rodata
  data := contents.data
  modinfo_eq := (hl.holds_assemble.readBack host).modinfo
  code_eq := (hl.holds_assemble.readBack host).code
  rodata_eq := (hl.holds_assemble.readBack host).rodata
  data_eq := (hl.holds_assemble.readBack host).data

/-- Eight bytes of code and a constant come back, signed or not. -/
theorem eight_recovered : Recovers .w32 .wraps (some fun _ => List.replicate HMAC_SHA256_LEN 0) .fleet
    ((oneConstant 8).assemble (oneConstantHeader 8 80 88)) [List.replicate 32 5]
    (sectionsOf laid_eight) := by
  have hmac : ∀ mac ∈ some (fun _ : Bytes => List.replicate HMAC_SHA256_LEN (0 : UInt8)),
      ∀ m, (mac m).length = HMAC_SHA256_LEN := by
    intro mac hmem m
    rw [← Option.some.inj hmem]
    exact List.length_replicate
  exact (recovers_iff (sectionsOf laid_eight) (laid_eight.holds_assemble.parse host) rfl hmac
    (List.cons_ne_nil _ _)).1 (.inr ⟨by decide, by decide, .inr (by decide), by decide⟩)

/-- Four bytes of code and a constant do not. -/
theorem four_lost :
    Container.parse host ((oneConstant 4).assemble (oneConstantHeader 4 80 88)) =
        .ok ⟨(oneConstant 4).assemble (oneConstantHeader 4 80 88), oneConstantHeader 4 80 88⟩ ∧
      (oneConstantHeader 4 80 88).flags &&& LMOD_FLAG_SIGNED = 0 ∧
      ¬ Recovers .w32 .wraps none .fleet ((oneConstant 4).assemble (oneConstantHeader 4 80 88))
        [List.replicate 32 5] (sectionsOf laid_four) := by
  have hparse := laid_four.holds_assemble.parse host
  refine ⟨hparse, rfl, fun h => ?_⟩
  have hrodata := rodata_of_recovers hparse rfl (fun _ hmac => by cases hmac) (by decide)
    (by decide) (by decide) h
  revert hrodata
  decide

end Tyu.Seal

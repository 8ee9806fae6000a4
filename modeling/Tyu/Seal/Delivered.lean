import Tyu.Seal.Sealed
import Tyu.Loader.Stored

/-! # The delivered container -/

namespace Tyu.Seal

open Lib Lib.Wire Container

def deliver (mode : Overflow) (signing : Option (Bytes → Bytes)) (out : Bytes) :
    Except SignStop Bytes :=
  match signing with
  | none => pure out
  | some mac => sign mode mac out

theorem patch_skip {xs : Bytes} {off : Nat} (h : xs.length ≤ off) (ys ws : Bytes) :
    patch (xs ++ ys) off ws = xs ++ patch ys (off - xs.length) ws := by
  obtain ⟨n, rfl⟩ := Nat.exists_eq_add_of_le h
  unfold patch
  rw [Nat.add_sub_cancel_left, List.take_length_add_append, Nat.add_assoc,
    List.drop_length_add_append, List.append_assoc, List.append_assoc, List.append_assoc]

theorem patch_put {xs ws : Bytes} (h : ws.length = xs.length) (ys : Bytes) :
    patch (xs ++ ys) 0 ws = ws ++ ys := by
  have hmid := patch_middle [] xs ys ws h
  exact hmid

theorem patch_flags (h : LmodHeader) (v : UInt16) (rest : Bytes) :
    patch (headerBytes h ++ rest) 6 (put16 v) = headerBytes { h with flags := v } ++ rest := by
  unfold headerBytes
  simp (disch := simp) only [List.append_assoc, patch_skip, length_put16, length_put32,
    Nat.reduceSub, patch_put]

theorem patch_totalLen (h : LmodHeader) (v : UInt32) (rest : Bytes) :
    patch (headerBytes h ++ rest) 16 (put32 v) = headerBytes { h with totalLen := v } ++ rest := by
  unfold headerBytes
  simp (disch := simp) only [List.append_assoc, patch_skip, length_put16, length_put32,
    length_put64, Nat.reduceSub, patch_put]

theorem patch_sigOff (h : LmodHeader) (v : UInt32) (rest : Bytes) :
    patch (headerBytes h ++ rest) 64 (put32 v) = headerBytes { h with sigOff := v } ++ rest := by
  unfold headerBytes
  simp (disch := simp) only [List.append_assoc, patch_skip, length_put16, length_put32,
    length_put64, Nat.reduceSub, patch_put]

theorem patch_sigLen (h : LmodHeader) (v : UInt32) (rest : Bytes) :
    patch (headerBytes h ++ rest) 68 (put32 v) = headerBytes { h with sigLen := v } ++ rest := by
  unfold headerBytes
  simp (disch := simp) only [List.append_assoc, patch_skip, length_put16, length_put32,
    length_put64, Nat.reduceSub, patch_put]

theorem patchHeader_headerBytes (h : LmodHeader) (newTotal : UInt32) (rest : Bytes) :
    patchHeader (signedHeader h newTotal) (headerBytes h ++ rest) =
      headerBytes (signedHeader h newTotal) ++ rest := by
  unfold patchHeader
  dsimp only
  rw [patch_flags, patch_totalLen, patch_sigOff, patch_sigLen]
  rfl

theorem and_not_of_and_eq_zero {f m : UInt16} (h : f &&& m = 0) : f &&& ~~~m = f := by
  apply UInt16.eq_of_toBitVec_eq
  apply BitVec.eq_of_getLsbD_eq
  intro i hi
  have hbit := congrArg (fun g : UInt16 => g.toBitVec.getLsbD i) h
  simp only [UInt16.toBitVec_and, BitVec.getLsbD_and, UInt16.toBitVec_zero,
    BitVec.getLsbD_zero] at hbit
  simp only [UInt16.toBitVec_and, UInt16.toBitVec_not, BitVec.getLsbD_and, BitVec.getLsbD_not, hi,
    decide_true, Bool.true_and]
  cases hf : f.toBitVec.getLsbD i with
  | false => rfl
  | true =>
    rw [hf, Bool.true_and] at hbit
    rw [hbit]
    rfl

theorem or_and_not (f m : UInt16) : (f ||| m) &&& ~~~m = f &&& ~~~m := by
  apply UInt16.eq_of_toBitVec_eq
  apply BitVec.eq_of_getLsbD_eq
  intro i hi
  simp only [UInt16.toBitVec_and, UInt16.toBitVec_or, UInt16.toBitVec_not, BitVec.getLsbD_and,
    BitVec.getLsbD_or, BitVec.getLsbD_not, hi, decide_true, Bool.true_and]
  cases f.toBitVec.getLsbD i <;> cases m.toBitVec.getLsbD i <;> rfl

theorem or_and_self (f m : UInt16) : (f ||| m) &&& m = m := by
  apply UInt16.eq_of_toBitVec_eq
  apply BitVec.eq_of_getLsbD_eq
  intro i hi
  simp only [UInt16.toBitVec_and, UInt16.toBitVec_or, BitVec.getLsbD_and, BitVec.getLsbD_or]
  cases f.toBitVec.getLsbD i <;> cases m.toBitVec.getLsbD i <;> rfl

theorem sealed_unsigned {f : UInt16} (h : f &&& LMOD_FLAG_SIGNED = 0) :
    (f ||| LMOD_FLAG_ENCRYPTED) &&& LMOD_FLAG_SIGNED = 0 := by
  rw [← UInt16.toNat_inj] at *
  simp only [UInt16.toNat_and, UInt16.toNat_or] at *
  rw [Nat.and_or_distrib_right, h]
  rfl

theorem sealed_encrypted (f : UInt16) :
    (f ||| LMOD_FLAG_ENCRYPTED) &&& LMOD_FLAG_ENCRYPTED ≠ 0 := by
  rw [or_and_self]
  decide

theorem sealed_marked (f : UInt16) :
    (f ||| LMOD_FLAG_SIGNED) &&& LMOD_FLAG_ENCRYPTED = f &&& LMOD_FLAG_ENCRYPTED := by
  rw [← UInt16.toNat_inj]
  simp only [UInt16.toNat_and, UInt16.toNat_or]
  rw [Nat.and_or_distrib_right]
  exact Nat.or_zero _

theorem clear_signed {f : UInt16} (h : f &&& LMOD_FLAG_SIGNED = 0) :
    (f ||| LMOD_FLAG_SIGNED) &&& ~~~LMOD_FLAG_SIGNED = f := by
  rw [or_and_not, and_not_of_and_eq_zero h]

/-! ## What is delivered -/

theorem slice_append_left_of_le {xs ys : Bytes} {start stop : Nat} (h : stop ≤ xs.length) :
    slice (xs ++ ys) start stop = slice xs start stop := by
  unfold slice
  by_cases hle : start ≤ stop
  · rw [if_pos ⟨hle, by rw [List.length_append]; omega⟩, if_pos ⟨hle, h⟩,
      List.take_append_of_le_length h]
  · rw [if_neg fun hin => hle hin.1, if_neg fun hin => hle hin.1]

/-- A delivered container: the loader accepts it, takes its header back to the one that was
authenticated, and finds everything else where it was. -/
structure Delivered (h k : LmodHeader) (out final : Bytes) : Prop where
  parse : ∀ w, Container.parse w final = .ok ⟨final, k⟩
  header : aadHeader k final = some (headerBytes h)
  marked : k.flags &&& LMOD_FLAG_ENCRYPTED ≠ 0
  fields : k = { h with
    flags := k.flags, totalLen := k.totalLen, sigOff := k.sigOff, sigLen := k.sigLen }
  length : out.length ≤ final.length
  rest : ∀ {a n}, 72 ≤ a → a + n ≤ out.length → slice final a (a + n) = slice out a (a + n)

theorem aadHeader_eq {k : LmodHeader} {final : Bytes}
    (h : slice final 0 72 = some (headerBytes k)) :
    aadHeader k final = some (headerBytes { k with
      totalLen := k.sigOff, flags := k.flags &&& ~~~LMOD_FLAG_SIGNED, sigLen := 0 }) := by
  have hflags : u16At (headerBytes k) 6 = some k.flags := by
    unfold headerBytes
    simp (disch := simp) only [u16At_skip, length_put16, length_put32, Nat.reduceSub, u16At_put]
  have htotal := patch_totalLen k k.sigOff []
  have hclear := patch_flags { k with totalLen := k.sigOff } (k.flags &&& ~~~LMOD_FLAG_SIGNED) []
  have hsig := patch_sigLen
    { k with totalLen := k.sigOff, flags := k.flags &&& ~~~LMOD_FLAG_SIGNED } 0 []
  simp only [List.append_nil] at htotal hclear hsig
  unfold aadHeader
  simp only [show slice final 0 HEADER_SIZE.toNat = some (headerBytes k) from h, hflags,
    Option.bind_eq_bind, Option.bind_some]
  show some (patch (patch (patch (headerBytes k) 16 (put32 k.sigOff)) 6
    (put16 (k.flags &&& ~~~LMOD_FLAG_SIGNED))) 68 (put32 0)) = _
  rw [htotal, hclear, hsig]

/-- A container with a header that a layout gives; its end is where a trailer would start. -/
structure Unsigned (h : LmodHeader) (out : Bytes) : Prop where
  parse : ∀ w, Container.parse w out = .ok ⟨out, h⟩
  header : slice out 0 72 = some (headerBytes h)
  flags : h.flags &&& LMOD_FLAG_SIGNED = 0
  marked : h.flags &&& LMOD_FLAG_ENCRYPTED ≠ 0
  sigOff : h.sigOff = h.totalLen
  sigLen : h.sigLen = 0

theorem same_header {h : LmodHeader} {total sigLen : UInt32} {flags : UInt16}
    (htotal : total = h.totalLen) (hflags : flags = h.flags) (hsigLen : sigLen = h.sigLen) :
    { h with totalLen := total, flags, sigLen } = h := by
  rw [htotal, hflags, hsigLen]

namespace Unsigned

variable {h : LmodHeader} {out final : Bytes} {mode : Overflow} {mac : Bytes → Bytes}

theorem checked (hu : Unsigned h out) (w : PtrWidth) : Checked w out h :=
  (parse_eq_ok.mp (hu.parse w)).2

theorem delivered (hu : Unsigned h out) : Delivered h h out out where
  parse := hu.parse
  header := by
    rw [aadHeader_eq hu.header]
    exact congrArg (fun k => some (headerBytes k))
      (same_header hu.sigOff (and_not_of_and_eq_zero hu.flags) hu.sigLen.symm)
  marked := hu.marked
  fields := rfl
  length := Nat.le_refl _
  rest := fun _ _ => rfl

theorem sign_eq (hu : Unsigned h out) (mode : Overflow) (mac : Bytes → Bytes) {newTotal : UInt32}
    (hnew : addU32 mode h.totalLen trailerLen = some newTotal) :
    ∃ trailer, sign mode mac out =
        .ok (headerBytes (signedHeader h newTotal) ++ (out.drop 72 ++ trailer)) ∧
      trailer.length = 1 + (mac (headerBytes (signedHeader h newTotal) ++ out.drop 72)).length := by
  have hchecked := hu.checked .w64
  have hsplit := eq_append_of_slice hu.header
  have hregion : slice out 0 h.totalLen.toNat = some out := by
    rw [hchecked.total]
    exact slice_all out
  refine ⟨SCHEME_HMAC_SHA256 :: mac (headerBytes (signedHeader h newTotal) ++ out.drop 72), ?_,
    by rw [List.length_cons, Nat.add_comm]⟩
  unfold sign
  simp only [bind_eq_ok, expect_eq_ok, require_eq_ok, pure_eq_ok]
  refine ⟨h, hchecked.header, newTotal, hnew, out, hregion, ⟨⟩, hchecked.headerFits, ?_⟩
  have hpatch := patchHeader_headerBytes h newTotal (out.drop 72)
  rw [← hsplit] at hpatch
  rw [hpatch, List.append_assoc]

theorem checked_signed (hu : Unsigned h out) (w : PtrWidth) {newTotal : UInt32} {tail : Bytes}
    (hnew : newTotal.toNat = h.totalLen.toNat + 33)
    (hfinal : final = headerBytes (signedHeader h newTotal) ++ tail)
    (hlen : final.length = out.length + 33) : Checked w final (signedHeader h newTotal) := by
  have hc := hu.checked w
  have hsize := w.le_size
  have htotal := hc.total
  have hlong : 72 ≤ out.length := hc.headerFits
  have hlt := newTotal.toNat_lt
  have hrange {off len : UInt32} (hold : checkRange out.length off len = .ok ()) :
      checkRange final.length off len = .ok () := by
    refine checkRange_eq_ok.mpr fun hne => ?_
    obtain ⟨hsum, hstop, hstart⟩ := checkRange_eq_ok.mp hold hne
    exact ⟨hsum, by omega, hstart⟩
  have hreloc : checkTail w final.length h.relocOff (h.relocCount.toNat * RELOC_ENTRY_SIZE) =
      .ok () := by
    refine checkTail_eq_ok.mpr fun hne => ?_
    obtain ⟨hsum, hstop, hstart⟩ := checkTail_eq_ok.mp hc.reloc hne
    exact ⟨hsum, by omega, hstart⟩
  have hsig : checkTail w final.length h.totalLen trailerLen.toNat = .ok () := by
    have htrailer : trailerLen.toNat = 33 := rfl
    rw [htrailer]
    refine checkTail_eq_ok.mpr fun _ => ⟨by omega, by omega, UInt32.le_iff_toNat_le.mpr ?_⟩
    show 72 ≤ _
    omega
  exact {
    header := by
      rw [hfinal]
      exact decodeHeader_headerBytes (h := signedHeader h newTotal) hc.magic tail
    magic := hc.magic
    formatVer := hc.formatVer
    total := by
      rw [hlen, ← htotal]
      exact hnew
    headerFits := by
      show 72 ≤ _
      omega
    modinfo := hrange hc.modinfo
    code := hrange hc.code
    rodata := hrange hc.rodata
    dataSection := hrange hc.dataSection
    relocBytes := hc.relocBytes
    reloc := hreloc
    sig := hsig
    monotone := hc.monotone }

theorem delivered_signed (hu : Unsigned h out) (mode : Overflow)
    (hmac : ∀ m, (mac m).length = HMAC_SHA256_LEN)
    (hfits : h.totalLen.toNat + 33 < 2 ^ 32) :
    ∃ k final, sign mode mac out = .ok final ∧ Delivered h k out final := by
  have hlong : 72 ≤ out.length := (hu.checked .w64).headerFits
  have hnew : (h.totalLen + trailerLen).toNat = h.totalLen.toNat + 33 := toNat_add_of_lt hfits
  obtain ⟨trailer, hsign, htrailer⟩ := hu.sign_eq mode mac (addU32_of_lt hfits)
  have hlen : (headerBytes (signedHeader h (h.totalLen + trailerLen)) ++
      (out.drop 72 ++ trailer)).length = 72 + (out.length - 72 + (1 + 32)) := by
    rw [List.length_append, length_headerBytes, List.length_append, List.length_drop, htrailer, hmac]
    rfl
  generalize hfinal : headerBytes (signedHeader h (h.totalLen + trailerLen)) ++
    (out.drop 72 ++ trailer) = final at hsign hlen
  refine ⟨signedHeader h (h.totalLen + trailerLen), final, hsign, ?_⟩
  exact {
    parse := fun w => parse_eq_ok.mpr ⟨rfl, hu.checked_signed w hnew hfinal.symm (by omega)⟩
    header := by
      have hslice := slice_append_left (headerBytes (signedHeader h (h.totalLen + trailerLen)))
        (out.drop 72 ++ trailer)
      rw [length_headerBytes, hfinal] at hslice
      rw [aadHeader_eq hslice]
      show some (headerBytes { h with
        totalLen := h.totalLen, sigOff := h.totalLen, sigLen := 0
        flags := (h.flags ||| LMOD_FLAG_SIGNED) &&& ~~~LMOD_FLAG_SIGNED }) = _
      rw [← hu.sigOff]
      exact congrArg (fun k => some (headerBytes k))
        (same_header hu.sigOff (clear_signed hu.flags) hu.sigLen.symm)
    marked := by
      show (h.flags ||| LMOD_FLAG_SIGNED) &&& LMOD_FLAG_ENCRYPTED ≠ 0
      rw [sealed_marked]
      exact hu.marked
    fields := rfl
    length := by omega
    rest := by
      intro a n ha hn
      have hright : slice (headerBytes h ++ out.drop 72) a (a + n) =
          slice (out.drop 72) (a - (headerBytes h).length) (a + n - (headerBytes h).length) :=
        slice_append_right (by rw [length_headerBytes]; exact ha) (by omega)
      rw [length_headerBytes, ← eq_append_of_slice hu.header] at hright
      rw [← hfinal, slice_append_right (by rw [length_headerBytes]; exact ha) (by omega),
        length_headerBytes, slice_append_left_of_le (by rw [List.length_drop]; omega), hright] }

end Unsigned

theorem sigOff_of_computeLayout {mode : Overflow} {abiHash : UInt64} {lens : SectionLens}
    {layout : LmodHeader} (h : computeLayout mode abiHash lens = some layout) :
    layout.sigOff = layout.totalLen := by
  unfold computeLayout at h
  simp only [Option.bind_eq_bind, Option.bind_eq_some_iff] at h
  obtain ⟨_, -, _, -, _, -, _, -, _, -, _, -, _, -, _, -, _, -, _, -, _, -, sigOff, -, total, htotal,
    hlayout⟩ := h
  have hsame : sigOff + 0 = total := by
    cases mode with
    | wraps => exact Option.some.inj htotal
    | stops =>
      simp only [addU32] at htotal
      split at htotal
      · exact Option.some.inj htotal
      · cases htotal
  rw [← Option.some.inj hlayout, ← hsame]
  exact (UInt32.add_zero sigOff).symm

variable {mode : Overflow} {sealText : SealFn} {openText : OpenFn} {rng : Entropy}
  {encMode : EncMode} {c : Container} {s : Sections c host} {keks : List Bytes} {out : Bytes}

theorem Encrypted.unsigned (e : Encrypted mode sealText rng encMode c s keks out)
    (hunsigned : c.hdr.flags &&& LMOD_FLAG_SIGNED = 0) :
    Unsigned (sealedHeader c.hdr e.layout) out where
  parse := (Sections.laid_sealedHeader e.laid).parse e.holds.length e.holds.header
  header := e.holds.header
  flags := sealed_unsigned hunsigned
  marked := sealed_encrypted _
  sigOff := by
    show e.layout.sigOff = e.layout.totalLen
    exact sigOff_of_computeLayout e.computed
  sigLen := e.laid.placed.sigLen

end Tyu.Seal

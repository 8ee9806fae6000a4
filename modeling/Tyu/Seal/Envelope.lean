import Tyu.Lib.Rewrites
import Tyu.Seal.Encrypt

/-! # The envelope, written and read -/

namespace Tyu.Seal

open Lib Lib.Wire Container

structure EncHeader.Formed (eh : EncHeader) : Prop where
  aead : eh.aeadId = AEAD_CHACHA20POLY1305
  nonce : eh.nonce.length = NONCE_LEN
  tag : eh.tag.length = TAG_LEN
  wrapped : ∀ s ∈ eh.wrappedSlots, s.wrapped.length = WRAP_LEN

theorem length_slotBytes {s : WrappedSlot} (h : s.wrapped.length = WRAP_LEN) :
    (slotBytes s).length = WRAPPED_SLOT_SIZE := by
  unfold slotBytes WRAPPED_SLOT_SIZE
  simp only [List.length_append, List.length_cons, List.length_replicate, length_put64, h]
  omega

theorem length_slots {slots : List WrappedSlot} (h : ∀ s ∈ slots, s.wrapped.length = WRAP_LEN) :
    (slots.flatMap slotBytes).length = slots.length * WRAPPED_SLOT_SIZE := by
  induction slots with
  | nil => rfl
  | cons s slots ih =>
    rw [List.flatMap_cons, List.length_append, length_slotBytes (h s List.mem_cons_self),
      ih fun t ht => h t (List.mem_cons_of_mem _ ht), List.length_cons, Nat.succ_mul, Nat.add_comm]

theorem length_encHeaderBytes {eh : EncHeader} (h : eh.Formed) :
    (encHeaderBytes eh).length = eh.wireLen := by
  unfold encHeaderBytes EncHeader.wireLen encHeaderLen
  simp only [List.length_cons, List.length_append, length_put32, h.nonce, h.tag,
    length_slots h.wrapped]
  show NONCE_LEN + (TAG_LEN + (4 + _)) + 1 + 1 + 1 + 1 = _
  unfold NONCE_LEN TAG_LEN
  omega

theorem patch_middle (xs ys zs ws : Bytes) (h : ws.length = ys.length) :
    patch (xs ++ (ys ++ zs)) xs.length ws = xs ++ (ws ++ zs) := by
  unfold patch
  rw [List.take_left, ← List.drop_drop, List.drop_left, h, List.drop_left, List.append_assoc]

theorem patch_tag {eh : EncHeader} (h : eh.Formed) {tag : Bytes} (htag : tag.length = TAG_LEN) :
    patch (encHeaderBytes eh) (4 + NONCE_LEN) tag = encHeaderBytes { eh with tag } := by
  have hsplit (t : Bytes) : encHeaderBytes { eh with tag := t } =
      ([eh.encMode.toByte, eh.aeadId, 0, 0] ++ eh.nonce) ++ (t ++
        (put32 (UInt32.ofNat eh.wrappedSlots.length) ++ eh.wrappedSlots.flatMap slotBytes)) := by
    unfold encHeaderBytes
    rw [List.append_assoc]
    rfl
  have hlen : ([eh.encMode.toByte, eh.aeadId, 0, 0] ++ eh.nonce).length = 4 + NONCE_LEN := by
    rw [List.length_append, h.nonce]
    rfl
  rw [hsplit tag, ← hlen]
  exact (congrArg (fun bs => patch bs _ tag) (hsplit eh.tag)).trans
    (patch_middle _ _ _ _ (htag.trans h.tag.symm))

/-! ## Reading -/

theorem wrappedSlots_slots {slots : List WrappedSlot}
    (h : ∀ s ∈ slots, s.wrapped.length = WRAP_LEN) :
    wrappedSlots slots.length (slots.flatMap slotBytes) = slots := by
  induction slots with
  | nil => rfl
  | cons s slots ih =>
    have hs := h s List.mem_cons_self
    have hlen := length_slotBytes hs
    have hlong : ¬ (slotBytes s ++ slots.flatMap slotBytes).length < WRAPPED_SLOT_SIZE := by
      rw [List.length_append, hlen]
      omega
    have hkey : (slotBytes s ++ slots.flatMap slotBytes).take 8 = put64 s.keyId := by
      unfold slotBytes
      rw [List.append_assoc]
      exact List.take_left' (length_put64 _)
    have hscheme : (slotBytes s ++ slots.flatMap slotBytes).getD 8 0 = s.wrapScheme := by
      unfold slotBytes
      rw [List.append_assoc, List.getD_eq_getElem?_getD,
        List.getElem?_append_right (by rw [length_put64]), length_put64]
      rfl
    have hwrapped : ((slotBytes s ++ slots.flatMap slotBytes).take (16 + WRAP_LEN)).drop 16 =
        s.wrapped := by
      rw [List.take_left' (show (slotBytes s).length = 16 + WRAP_LEN from hlen)]
      unfold slotBytes
      rw [show put64 s.keyId ++ (s.wrapScheme :: (List.replicate 7 0 ++ s.wrapped)) =
        (put64 s.keyId ++ s.wrapScheme :: List.replicate 7 0) ++ s.wrapped by simp]
      exact List.drop_left' (by simp)
    have hid : UInt64.ofNat (getLE (put64 s.keyId)) = s.keyId := by
      rw [show put64 s.keyId = putLE 8 s.keyId.toNat from rfl, getLE_putLE s.keyId.toNat_lt,
        UInt64.ofNat_toNat]
    rw [List.flatMap_cons, List.length_cons]
    unfold wrappedSlots
    rw [if_neg hlong, hkey, hscheme, hwrapped, hid, List.drop_left' hlen,
      ih fun t ht => h t (List.mem_cons_of_mem _ ht)]

theorem encModeKnown_toByte (m : EncMode) : encModeKnown m.toByte = true := by
  cases m <;> rfl

theorem wrappedCount_encHeaderBytes {eh : EncHeader} (h : eh.Formed)
    (hcount : eh.wrappedSlots.length < 2 ^ 32) (rest : Bytes) :
    getLE (((encHeaderBytes eh ++ rest).take 36).drop 32) = eh.wrappedSlots.length := by
  have hsplit : encHeaderBytes eh ++ rest =
      (eh.encMode.toByte :: eh.aeadId :: 0 :: 0 :: (eh.nonce ++ eh.tag)) ++
        (put32 (UInt32.ofNat eh.wrappedSlots.length) ++
          (eh.wrappedSlots.flatMap slotBytes ++ rest)) := by
    unfold encHeaderBytes
    simp only [List.cons_append, List.append_assoc]
  have hlen : (eh.encMode.toByte :: eh.aeadId :: 0 :: 0 :: (eh.nonce ++ eh.tag)).length = 32 := by
    simp only [List.length_cons, List.length_append, h.nonce, h.tag]
    rfl
  have hmid := slice_middle (eh.encMode.toByte :: eh.aeadId :: 0 :: 0 :: (eh.nonce ++ eh.tag))
    (put32 (UInt32.ofNat eh.wrappedSlots.length)) (eh.wrappedSlots.flatMap slotBytes ++ rest)
  rw [← hsplit, hlen, length_put32] at hmid
  rw [← (slice_eq_some hmid).2.2]
  show getLE (putLE 4 _) = _
  rw [getLE_putLE (UInt32.toNat_lt _), UInt32.toNat_ofNat', Nat.mod_eq_of_lt hcount]

theorem parse_checks {eh : EncHeader} (h : eh.Formed) (rest : Bytes) :
    ¬ (encHeaderBytes eh ++ rest).length < 36 ∧
      ¬ encModeKnown ((encHeaderBytes eh ++ rest).getD 0 0) = false ∧
      ¬ (encHeaderBytes eh ++ rest).getD 1 0 ≠ AEAD_CHACHA20POLY1305 := by
  have hlen := length_encHeaderBytes h
  refine ⟨?_, ?_, ?_⟩
  · rw [List.length_append, hlen]
    unfold EncHeader.wireLen encHeaderLen
    omega
  · rw [Bool.not_eq_false]
    exact encModeKnown_toByte eh.encMode
  · exact not_not_intro h.aead

theorem parseEncHeaderView_encHeaderBytes {eh : EncHeader} (h : eh.Formed)
    (hcount : eh.wrappedSlots.length ≤ 64) (rest : Bytes) :
    ∃ v, parseEncHeaderView (encHeaderBytes eh ++ rest) = .ok v ∧ v.nonce = eh.nonce ∧
      v.tag = eh.tag ∧ v.wireLen = eh.wireLen ∧ v.wrappedSlots = eh.wrappedSlots := by
  obtain ⟨hlong, hmode, haead⟩ := parse_checks h rest
  have hn := wrappedCount_encHeaderBytes h (by omega) rest
  have hlen := length_encHeaderBytes h
  have hfits : ¬ (encHeaderBytes eh ++ rest).length < encHeaderLen eh.wrappedSlots.length := by
    rw [List.length_append, hlen]
    unfold EncHeader.wireLen
    omega
  have hnonce : ((encHeaderBytes eh ++ rest).take 16).drop 4 = eh.nonce := by
    have hmid := slice_middle [eh.encMode.toByte, eh.aeadId, 0, 0] eh.nonce
      (eh.tag ++ (put32 (UInt32.ofNat eh.wrappedSlots.length) ++
        (eh.wrappedSlots.flatMap slotBytes ++ rest)))
    have hsplit : encHeaderBytes eh ++ rest = [eh.encMode.toByte, eh.aeadId, 0, 0] ++ (eh.nonce ++
        (eh.tag ++ (put32 (UInt32.ofNat eh.wrappedSlots.length) ++
          (eh.wrappedSlots.flatMap slotBytes ++ rest)))) := by
      unfold encHeaderBytes
      simp only [List.cons_append, List.append_assoc, List.nil_append]
    rw [← hsplit, h.nonce] at hmid
    exact (slice_eq_some hmid).2.2.symm
  have htag : ((encHeaderBytes eh ++ rest).take 32).drop 16 = eh.tag := by
    have hmid := slice_middle ([eh.encMode.toByte, eh.aeadId, 0, 0] ++ eh.nonce) eh.tag
      (put32 (UInt32.ofNat eh.wrappedSlots.length) ++
        (eh.wrappedSlots.flatMap slotBytes ++ rest))
    have hsplit : encHeaderBytes eh ++ rest =
        ([eh.encMode.toByte, eh.aeadId, 0, 0] ++ eh.nonce) ++ (eh.tag ++
          (put32 (UInt32.ofNat eh.wrappedSlots.length) ++
            (eh.wrappedSlots.flatMap slotBytes ++ rest))) := by
      unfold encHeaderBytes
      simp only [List.cons_append, List.append_assoc, List.nil_append]
    rw [← hsplit, List.length_append, h.nonce, h.tag] at hmid
    exact (slice_eq_some hmid).2.2.symm
  have hslots : ((encHeaderBytes eh ++ rest).take (encHeaderLen eh.wrappedSlots.length)).drop 36 =
      eh.wrappedSlots.flatMap slotBytes := by
    rw [List.take_left' (show _ = encHeaderLen eh.wrappedSlots.length from hlen)]
    unfold encHeaderBytes
    rw [show eh.encMode.toByte :: eh.aeadId :: 0 :: 0 :: (eh.nonce ++ (eh.tag ++
        (put32 (UInt32.ofNat eh.wrappedSlots.length) ++ eh.wrappedSlots.flatMap slotBytes))) =
      (eh.encMode.toByte :: eh.aeadId :: 0 :: 0 :: (eh.nonce ++ (eh.tag ++
        put32 (UInt32.ofNat eh.wrappedSlots.length)))) ++ eh.wrappedSlots.flatMap slotBytes by simp]
    refine List.drop_left' ?_
    simp only [List.length_cons, List.length_append, length_put32, h.nonce, h.tag]
    rfl
  unfold parseEncHeaderView
  rw [if_neg hlong, if_neg hmode, if_neg haead]
  dsimp only
  rw [hn, if_neg (Nat.not_lt.mpr hcount), if_neg hfits, hnonce, htag, hslots]
  exact ⟨_, rfl, rfl, rfl, rfl, wrappedSlots_slots h.wrapped⟩

theorem parseEncHeaderView_of_many {eh : EncHeader} (h : eh.Formed)
    (hcount : 64 < eh.wrappedSlots.length) (hlt : eh.wrappedSlots.length < 2 ^ 32) (rest : Bytes) :
    parseEncHeaderView (encHeaderBytes eh ++ rest) = .error .encBadHeader := by
  obtain ⟨hlong, hmode, haead⟩ := parse_checks h rest
  unfold parseEncHeaderView
  rw [if_neg hlong, if_neg hmode, if_neg haead]
  dsimp only
  rw [wrappedCount_encHeaderBytes h hlt rest, if_pos hcount]

abbrev OpenFn := Bytes → Bytes → Bytes → Bytes → Bytes → Option Bytes

structure Opens (sealText : SealFn) (openText : OpenFn) : Prop where
  length : ∀ {key nonce aad msg text tag}, sealText key nonce aad msg = some (text, tag) →
    text.length = msg.length ∧ tag.length = TAG_LEN
  opens : ∀ {key nonce aad msg text tag}, sealText key nonce aad msg = some (text, tag) →
    openText key nonce tag aad text = some msg

def unwrapCek (openText : OpenFn) (kek wrapped : Bytes) : Option Bytes :=
  openText kek (wrapped.take NONCE_LEN) (wrapped.drop (NONCE_LEN + CEK_LEN)) []
    ((wrapped.take (NONCE_LEN + CEK_LEN)).drop NONCE_LEN)

theorem unwrapCek_parts {openText : OpenFn} {kek nonce text tag : Bytes}
    (hnonce : nonce.length = NONCE_LEN) (htext : text.length = CEK_LEN) :
    unwrapCek openText kek (nonce ++ (text ++ tag)) = openText kek nonce tag [] text := by
  have hboth : (nonce ++ text).length = NONCE_LEN + CEK_LEN := by
    rw [List.length_append, hnonce, htext]
  unfold unwrapCek
  rw [List.take_left' hnonce, ← List.append_assoc, List.drop_left' hboth, List.take_left' hboth,
    List.drop_left' hnonce]

end Tyu.Seal

import Tyu.Lib.Rewrites
import Tyu.Loader.Load
import Tyu.Loader.RelocExact

/-! # What a relocation leaves alone -/

namespace Tyu

open Lib Lib.Wire Container

def relocLen (kind : UInt8) : Nat := if kind = 1 then 8 else 4

/-- The code after `n` bytes at `off` were written. -/
def Writes (off n : Nat) (code code' : Bytes) : Prop :=
  ∃ new : Bytes, new.length = n ∧ off + n ≤ code.length ∧ code' = patch code off new

variable {off n a : Nat} {code' : Bytes} {w : PtrWidth} {u : Unit} {base : UInt64}
  {bases : List UInt32}

theorem Writes.slice_apart {code : Bytes} (h : Writes off n code code') {m : Nat}
    (hapart : Apart a m off n) : slice code' a (a + m) = slice code a (a + m) := by
  obtain ⟨new, hnew, hin, rfl⟩ := h
  rw [← hnew] at hapart
  exact slice_patch_of_apart (by omega) hapart

theorem slice_usize {code site : Bytes} (hn : n < w.size)
    (h : slice code off (usize w (off + n)) = some site) : usize w (off + n) = off + n := by
  by_cases hwrap : off + n < w.size
  · exact Nat.mod_eq_of_lt hwrap
  · have hmod := Nat.mod_eq_sub_mod (show w.size ≤ off + n by omega)
    have hle := Nat.mod_le (off + n - w.size) w.size
    have hstop := (slice_eq_some h).1
    have hval : usize w (off + n) = (off + n) % w.size := rfl
    omega

theorem patchSite_eq_ok {encode : Bytes → Option Bytes} {code : Bytes} (hn : n < w.size)
    (h : patchSite w off n encode code = (.ok u, code')) :
    ∃ site new, slice code off (off + n) = some site ∧ encode site = some new ∧
      code' = patch code off new := by
  unfold patchSite at h
  by_cases hend : usize w (off + n) > code.length
  · rw [if_pos hend] at h
    cases h
  rw [if_neg hend] at h
  cases hsite : slice code off (usize w (off + n)) with
  | none =>
    rw [hsite] at h
    cases h
  | some site =>
    rw [hsite] at h
    dsimp only at h
    cases hnew : encode site with
    | none =>
      rw [hnew] at h
      cases h
    | some new =>
      rw [hnew] at h
      rw [slice_usize hn hsite] at hsite
      exact ⟨site, new, hsite, hnew, (congrArg Prod.snd h).symm⟩

theorem writes_patchSite {encode : Bytes → Option Bytes} {code : Bytes} (hn : n < w.size)
    (hlen : ∀ site new, site.length = n → encode site = some new → new.length = n)
    (h : patchSite w off n encode code = (.ok u, code')) : Writes off n code code' := by
  obtain ⟨site, new, hsite, hnew, hcode⟩ := patchSite_eq_ok hn h
  have hsiteLen := length_slice hsite
  rw [Nat.add_sub_cancel_left] at hsiteLen
  exact ⟨new, hlen site new hsiteLen hnew, (slice_eq_some hsite).2.1, hcode⟩

theorem length_encodeBranch {insn new : Bytes} {offset : Int64} {link : Option Bool}
    (h : encodeBranch insn offset link = some new) : new.length = insn.length := by
  unfold encodeBranch at h
  by_cases hshort : insn.length < 4
  · rw [if_pos hshort] at h
    cases h
  rw [if_neg hshort] at h
  by_cases hodd : offset &&& 1 ≠ 0
  · rw [if_pos hodd] at h
    cases h
  rw [if_neg hodd] at h
  dsimp only at h
  by_cases hrange : offset >>> 1 < -0x800000 ∨ offset >>> 1 > 0x7FFFFF
  · rw [if_pos hrange] at h
    cases h
  rw [if_neg hrange] at h
  rw [← Option.some.inj h, List.length_append, List.length_append, length_put16, length_put16,
    List.length_drop]
  omega

theorem length_encodeRiscVJal {insn new : Bytes} {offset : Int64}
    (h : encodeRiscVJal insn offset = some new) : new.length = 4 := by
  unfold encodeRiscVJal at h
  by_cases hodd : offset &&& 1 ≠ 0
  · rw [if_pos hodd] at h
    cases h
  rw [if_neg hodd] at h
  by_cases hrange : offset < -0x100000 ∨ offset > 0xFFFFE
  · rw [if_pos hrange] at h
    cases h
  rw [if_neg hrange] at h
  rw [← Option.some.inj h]
  rfl

theorem writes_writeSite {bytes code : Bytes} (hlen : bytes.length = n) (hn : n < w.size)
    (h : writeSite w off bytes code = (.ok u, code')) : Writes off n code code' := by
  subst hlen
  exact writes_patchSite hn (fun _ _ _ hnew => by rw [← Option.some.inj hnew]) h

theorem writes_dispatch {kind : UInt8} {symAddr : UInt64} {code : Bytes}
    (h : dispatchImportReloc w base off kind symAddr code = (.ok u, code')) :
    Writes off (relocLen kind) code code' := by
  have h4 : 4 < w.size := by cases w <;> decide
  have h8 : 8 < w.size := by cases w <;> decide
  by_cases hkind : 1 ≤ kind ∧ kind ≤ 9
  · rcases accepted_kinds hkind with rfl | (rfl | rfl) | (rfl | rfl) | (rfl | rfl) | rfl | rfl
    · exact writes_writeSite (length_put64 _) h8 h
    · exact writes_writeSite (length_put32 _) h4 h
    · exact writes_writeSite (length_put32 _) h4 h
    · exact writes_writeSite (length_put32 _) h4 h
    · exact writes_writeSite (length_put32 _) h4 h
    · exact writes_patchSite h4 (fun _ _ hlen hnew => (length_encodeBranch hnew).trans hlen) h
    · exact writes_patchSite h4 (fun _ _ hlen hnew => (length_encodeBranch hnew).trans hlen) h
    · exact writes_writeSite (length_put32 _) h4 h
    · exact writes_patchSite h4 (fun _ _ _ hnew => length_encodeRiscVJal hnew) h
  · rw [refuse_of_unknown hkind] at h
    cases h

theorem writes_bindAperture {id : UInt16} {code : Bytes}
    (h : bindApertureSite bases id off code = .ok code') : Writes off 4 code code' := by
  unfold bindApertureSite at h
  cases hbase : bases[id.toNat]? with
  | none =>
    rw [hbase] at h
    cases h
  | some base =>
    rw [hbase] at h
    simp only [bind_eq_ok, require_eq_ok, pure_eq_ok] at h
    obtain ⟨_, -, _, -, _, hin, rfl⟩ := h
    exact ⟨put32 base, length_put32 _, hin, rfl⟩

theorem slice_applyImportRelocation {hdr : LmodHeader} {map : SymMap} {e : RelocEntry}
    {code : Bytes} (h : applyImportRelocation w hdr map bases base e code = .ok code')
    (hapart : Apart a n (e.siteOff - hdr.codeOff).toNat (relocLen e.kind)) :
    slice code' a (a + n) = slice code a (a + n) := by
  unfold applyImportRelocation at h
  by_cases hbefore : e.siteOff < hdr.codeOff
  · rw [if_pos hbefore, pure_eq_ok] at h
    rw [h]
  rw [if_neg hbefore, bind_eq_ok] at h
  obtain ⟨_, -, h⟩ := h
  by_cases haperture : e.kind = MMIO_APERTURE_BASE
  · rw [if_pos haperture] at h
    have hlen : relocLen e.kind = 4 := by rw [haperture]; rfl
    rw [hlen] at hapart
    exact (writes_bindAperture h).slice_apart hapart
  rw [if_neg haperture, bind_eq_ok] at h
  obtain ⟨sym, -, h⟩ := h
  split at h
  · rename_i u code'' hdispatch
    rw [pure_eq_ok] at h
    rw [← h]
    exact (writes_dispatch hdispatch).slice_apart hapart
  · cases h
  · cases h

theorem slice_applyImportRelocations {c : Container} {map : SymMap} {is : List UInt32}
    {code : Bytes} (h : applyImportRelocations w c map bases base is code = .ok code')
    (hapart : ∀ i ∈ is, ∀ e, c.relocEntry w i = some e →
      Apart a n (e.siteOff - c.hdr.codeOff).toNat (relocLen e.kind)) :
    slice code' a (a + n) = slice code a (a + n) := by
  unfold applyImportRelocations at h
  induction is generalizing code with
  | nil => rw [foldlM_nil_eq_ok.mp h]
  | cons i is ih =>
    obtain ⟨mid, hstep, hrest⟩ := foldlM_cons_eq_ok.mp h
    simp only [bind_eq_ok, expect_eq_ok] at hstep
    obtain ⟨e, he, happly⟩ := hstep
    have htail := ih hrest fun j hj => hapart j (List.mem_cons_of_mem _ hj)
    rw [htail]
    exact slice_applyImportRelocation happly (hapart i List.mem_cons_self e he)

end Tyu

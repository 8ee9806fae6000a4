import Tyu.Lib.Wire

/-! # Rewriting sites in place -/

namespace Lib.Wire

/-- The ranges of `n` bytes at `a` and of `m` bytes at `b` do not overlap. -/
def Apart (a n b m : Nat) : Prop := a + n ≤ b ∨ b + m ≤ a

instance (a n b m : Nat) : Decidable (Apart a n b m) := inferInstanceAs (Decidable (_ ∨ _))

variable {a n off : Nat} {bs xs : Bytes}

theorem Apart.symm {b m : Nat} (h : Apart a n b m) : Apart b m a n := Or.symm h

theorem slice_patch_of_apart (h : off + xs.length ≤ bs.length) (hapart : Apart a n off xs.length) :
    slice (patch bs off xs) a (a + n) = slice bs a (a + n) := by
  refine slice_congr (length_patch h) fun i hi hi' => getElem?_patch h ?_
  rcases hapart with hapart | hapart
  · exact Or.inl (by omega)
  · exact Or.inr (by omega)

theorem slice_patchAll_of_apart {ps : List (Nat × Bytes)}
    (h : ∀ p ∈ ps, p.1 + p.2.length ≤ bs.length) (hapart : ∀ p ∈ ps, Apart a n p.1 p.2.length) :
    slice (patchAll bs ps) a (a + n) = slice bs a (a + n) := by
  refine slice_congr (length_patchAll h) fun i hi hi' => getElem?_patchAll h fun p hp => ?_
  rcases hapart p hp with hapart | hapart
  · exact Or.inl (by omega)
  · exact Or.inr (by omega)

/-! ## Frames -/

/-- At most the `n` bytes at `off` have changed. -/
structure Within (off n : Nat) (bs bs' : Bytes) : Prop where
  length : bs'.length = bs.length
  apart : ∀ {a m}, Apart a m off n → slice bs' a (a + m) = slice bs a (a + m)

namespace Within

theorem refl (off n : Nat) (bs : Bytes) : Within off n bs bs := ⟨rfl, fun _ => rfl⟩

theorem trans {off n : Nat} {bs bs' bs'' : Bytes} (h : Within off n bs bs')
    (h' : Within off n bs' bs'') : Within off n bs bs'' :=
  ⟨h'.length.trans h.length, fun ha => (h'.apart ha).trans (h.apart ha)⟩

theorem mono {off n off' n' : Nat} {bs bs' : Bytes} (h : Within off n bs bs') (hstart : off' ≤ off)
    (hstop : off + n ≤ off' + n') : Within off' n' bs bs' := by
  refine ⟨h.length, fun ha => h.apart ?_⟩
  unfold Apart at *
  omega

end Within

theorem within_patch (h : off + xs.length ≤ bs.length) :
    Within off xs.length bs (patch bs off xs) :=
  ⟨length_patch h, fun ha => slice_patch_of_apart h ha⟩

theorem slice_patch_inside {ys : Bytes} (h : slice bs a (a + n) = some xs)
    (hin : off + ys.length ≤ n) :
    slice (patch bs (a + off) ys) a (a + n) = some (patch xs off ys) := by
  obtain ⟨-, hstop, hxs⟩ := slice_eq_some h
  have hlen := length_slice h
  rw [Nat.add_sub_cancel_left] at hlen
  have hfits : a + off + ys.length ≤ bs.length := by omega
  have hsome : (slice (patch bs (a + off) ys) a (a + n)).isSome = true :=
    isSome_slice.mpr ⟨by omega, by rw [length_patch hfits]; omega⟩
  obtain ⟨zs, hzs⟩ := Option.isSome_iff_exists.mp hsome
  rw [hzs]
  congr 1
  apply List.ext_getElem?
  intro i
  have hzslen := length_slice hzs
  rw [Nat.add_sub_cancel_left] at hzslen
  by_cases hi : i < n
  · rw [← getElem?_slice hzs hi]
    by_cases hsite : off ≤ i ∧ i < off + ys.length
    · have hout := slice_patch hfits
      have hin' := slice_patch (show off + ys.length ≤ xs.length by omega)
      have h1 := getElem?_slice hout (show i - off < ys.length by omega)
      have h2 := getElem?_slice hin' (show i - off < ys.length by omega)
      rw [show a + off + (i - off) = a + i by omega] at h1
      rw [show off + (i - off) = i by omega] at h2
      rw [h1, h2]
    · rw [getElem?_patch hfits (by omega), getElem?_patch (by omega) (by omega),
        getElem?_slice h hi]
  · rw [List.getElem?_eq_none (by omega),
      List.getElem?_eq_none (by rw [length_patch (by omega)]; omega)]

/-- What is done with the `len` bytes at `off`. -/
structure Rewrite where
  off : Nat
  len : Nat
  encode : Bytes → Option Bytes

namespace Rewrite

def Apart (r s : Rewrite) : Prop := Wire.Apart r.off r.len s.off s.len

def Step (r : Rewrite) (bs bs' : Bytes) : Prop :=
  ∃ old new, slice bs r.off (r.off + r.len) = some old ∧ r.encode old = some new ∧
    new.length = r.len ∧ bs' = patch bs r.off new

def Steps : List Rewrite → Bytes → Bytes → Prop
  | [], bs, bs' => bs = bs'
  | r :: rs, bs, bs' => ∃ mid, r.Step bs mid ∧ Steps rs mid bs'

variable {r : Rewrite} {bs bs' : Bytes} {rs : List Rewrite}

theorem Step.length (h : r.Step bs bs') : bs'.length = bs.length := by
  obtain ⟨old, new, hold, -, hlen, rfl⟩ := h
  have hin := (slice_eq_some hold).2.1
  exact length_patch (by omega)

theorem Step.slice_apart (h : r.Step bs bs') {a n : Nat} (hapart : Wire.Apart a n r.off r.len) :
    slice bs' a (a + n) = slice bs a (a + n) := by
  obtain ⟨old, new, hold, -, hlen, rfl⟩ := h
  have hin := (slice_eq_some hold).2.1
  rw [← hlen] at hapart
  exact slice_patch_of_apart (by omega) hapart

theorem Step.slice_site (h : r.Step bs bs') :
    ∃ old new, slice bs r.off (r.off + r.len) = some old ∧ r.encode old = some new ∧
      slice bs' r.off (r.off + r.len) = some new := by
  obtain ⟨old, new, hold, hnew, hlen, rfl⟩ := h
  have hin := (slice_eq_some hold).2.1
  refine ⟨old, new, hold, hnew, ?_⟩
  rw [← hlen]
  exact slice_patch (by omega)

theorem Steps.length (h : Steps rs bs bs') : bs'.length = bs.length := by
  induction rs generalizing bs with
  | nil => rw [show bs = bs' from h]
  | cons r rs ih =>
    obtain ⟨mid, hstep, hrest⟩ := h
    exact (ih hrest).trans hstep.length

theorem Steps.slice_apart (h : Steps rs bs bs') {a n : Nat}
    (hapart : ∀ r ∈ rs, Wire.Apart a n r.off r.len) : slice bs' a (a + n) = slice bs a (a + n) := by
  induction rs generalizing bs with
  | nil => rw [show bs = bs' from h]
  | cons r rs ih =>
    obtain ⟨mid, hstep, hrest⟩ := h
    have htail := ih hrest fun s hs => hapart s (List.mem_cons_of_mem _ hs)
    exact htail.trans (hstep.slice_apart (hapart r List.mem_cons_self))

theorem Steps.slice_site (h : Steps rs bs bs') (hapart : rs.Pairwise Rewrite.Apart) (hr : r ∈ rs) :
    ∃ old new, slice bs r.off (r.off + r.len) = some old ∧ r.encode old = some new ∧
      slice bs' r.off (r.off + r.len) = some new := by
  induction rs generalizing bs with
  | nil => cases hr
  | cons s rs ih =>
    obtain ⟨mid, hstep, hrest⟩ := h
    obtain ⟨hhead, htail⟩ := List.pairwise_cons.mp hapart
    rcases List.mem_cons.mp hr with rfl | hr
    · obtain ⟨old, new, hold, hnew, hmid⟩ := hstep.slice_site
      exact ⟨old, new, hold, hnew, (hrest.slice_apart hhead).trans hmid⟩
    · obtain ⟨old, new, hold, hnew, hlast⟩ := ih hrest htail hr
      refine ⟨old, new, ?_, hnew, hlast⟩
      rw [← hold]
      exact (hstep.slice_apart (hhead r hr).symm).symm

end Rewrite

end Lib.Wire

import Tyu.Pack.Placement

/-!
# The bytes of a packed object

Where the sites of a tidy object lie apart, the container holds at each of them what its
fixup makes of the bytes of the object, and everything else is as it was laid out.
-/

namespace Tyu.Pack

open Lib Lib.Wire Container

variable {elf : Elf} {parts : Parts} {symbols : List Symbol} {layout : LmodHeader}

def Parts.contents (p : Parts) (entries : List RelocEntry) : Contents where
  abiHash := p.abiHash
  envelope := []
  modinfo := p.modinfo
  code := p.code
  rodata := p.rodata
  data := p.data
  bssLen := 0
  relocs := entries

theorem laid_of_layout {mode : Overflow} {entries : List RelocEntry}
    (hlayout : computeLayout mode parts.abiHash (parts.lens entries.length) = some layout)
    (hfits : (parts.lengths entries.length).total < 2 ^ 32) :
    (parts.contents entries).Laid layout := by
  have hlengths := Contents.lengths_lens (c := parts.contents entries) hfits
  obtain ⟨hdr, hsome, hplaced⟩ := computeLayout_of_lt mode parts.abiHash
    (s := (parts.contents entries).lens) (by rw [hlengths]; exact hfits)
  have hsame : hdr = layout := Option.some.inj (hsome.symm.trans hlayout)
  rw [hsame] at hplaced
  exact ⟨hplaced, hlengths, hfits⟩

structure InOrder (parts : Parts) (layout : LmodHeader) : Prop where
  code : 72 ≤ layout.codeOff.toNat
  rodata : layout.codeOff.toNat + parts.code.length ≤ layout.rodataOff.toNat
  data : layout.rodataOff.toNat + parts.rodata.length ≤ layout.dataOff.toNat
  reloc : layout.dataOff.toNat + parts.data.length ≤ layout.relocOff.toNat
  total : layout.relocOff.toNat ≤ layout.totalLen.toNat

theorem inOrder_of_laid {entries : List RelocEntry} (hl : (parts.contents entries).Laid layout) :
    InOrder parts layout := by
  obtain ⟨hfirst, hmodinfo, hcode, hrodata, hdata, hreloc⟩ := hl.ordered
  have hsize : HEADER_SIZE.toNat = 72 := rfl
  have hempty : (parts.contents entries).envelope.length = 0 := rfl
  exact ⟨by omega, hcode, hrodata, hdata, by omega⟩

namespace InOrder

theorem code_le (ho : InOrder parts layout) (p : Part) :
    layout.codeOff.toNat ≤ (p.offset layout).toNat := by
  have h1 := ho.rodata
  have h2 := ho.data
  cases p
  · exact Nat.le_refl _
  · show layout.codeOff.toNat ≤ layout.rodataOff.toNat
    omega
  · show layout.codeOff.toNat ≤ layout.dataOff.toNat
    omega

theorem stop_le (ho : InOrder parts layout) (p : Part) :
    (p.offset layout).toNat + (p.bytes parts).length ≤ layout.relocOff.toNat := by
  have h1 := ho.rodata
  have h2 := ho.data
  have h3 := ho.reloc
  cases p
  · show layout.codeOff.toNat + parts.code.length ≤ _
    omega
  · show layout.rodataOff.toNat + parts.rodata.length ≤ _
    omega
  · exact h3

theorem apart (ho : InOrder parts layout) {p q : Part} (hne : p ≠ q) :
    (p.offset layout).toNat + (p.bytes parts).length ≤ (q.offset layout).toNat ∨
      (q.offset layout).toNat + (q.bytes parts).length ≤ (p.offset layout).toNat := by
  have h1 := ho.rodata
  have h2 := ho.data
  cases p <;> cases q
  · exact absurd rfl hne
  · exact Or.inl h1
  · refine Or.inl ?_
    show layout.codeOff.toNat + parts.code.length ≤ layout.dataOff.toNat
    omega
  · exact Or.inr h1
  · exact absurd rfl hne
  · exact Or.inl h2
  · refine Or.inr ?_
    show layout.codeOff.toNat + parts.code.length ≤ layout.dataOff.toNat
    omega
  · exact Or.inr h2
  · exact absurd rfl hne

end InOrder

theorem patch_nil (bs : Bytes) (off : Nat) : patch bs off [] = bs := by
  unfold patch
  rw [List.append_nil, List.length_nil, Nat.add_zero, List.take_append_drop]

theorem copyInto_eq_ok {off : Nat} {bytes out out' : Bytes} :
    copyInto off bytes out = .ok out' ↔
      off + bytes.length ≤ out.length ∧ patch out off bytes = out' := by
  unfold copyInto
  simp only [bind_eq_ok, require_eq_ok, pure_eq_ok]
  constructor
  · rintro ⟨_, hfits, hout⟩
    exact ⟨hfits, hout⟩
  · rintro ⟨hfits, hout⟩
    exact ⟨⟨⟩, hfits, hout⟩

theorem copySection_eq {off : UInt32} {bytes out out' : Bytes}
    (h : copySection off bytes out = .ok out') : out' = patch out off.toNat bytes := by
  unfold copySection at h
  by_cases hempty : bytes.isEmpty = true
  · rw [if_pos hempty, pure_eq_ok] at h
    rw [List.isEmpty_iff.mp hempty, patch_nil, h]
  · rw [if_neg hempty, copyInto_eq_ok] at h
    exact h.2.symm

def Parts.placements (p : Parts) (layout : LmodHeader) : List (Nat × Bytes) :=
  [(0, headerBytes layout), (layout.modinfoOff.toNat, p.modinfo),
    (layout.codeOff.toNat, p.code), (layout.rodataOff.toNat, p.rodata),
    (layout.dataOff.toNat, p.data)]

theorem assemble_eq {out : Bytes} (h : parts.assemble layout = .ok out) :
    out = patchAll (List.replicate layout.totalLen.toNat 0) (parts.placements layout) := by
  unfold Parts.assemble at h
  simp only [bind_eq_ok, copyInto_eq_ok] at h
  obtain ⟨out1, ⟨-, rfl⟩, out2, h2, out3, h3, out4, h4, h5⟩ := h
  rw [copySection_eq h5, copySection_eq h4, copySection_eq h3, copySection_eq h2]
  rfl

theorem placements_sublist (parts : Parts) (layout : LmodHeader) (entries : List RelocEntry) :
    (parts.placements layout).Sublist ((parts.contents entries).placements layout) := by
  refine List.Sublist.trans ?_ (List.sublist_append_left _ _)
  refine List.Sublist.cons_cons _ ?_
  exact List.Sublist.cons _ (List.Sublist.refl _)

theorem slice_part {entries : List RelocEntry} (hl : (parts.contents entries).Laid layout)
    {p : Nat × Bytes} (hp : p ∈ parts.placements layout) :
    slice (patchAll (List.replicate layout.totalLen.toNat 0) (parts.placements layout)) p.1
      (p.1 + p.2.length) = some p.2 := by
  have hsub := placements_sublist parts layout entries
  exact slice_patchAll (fun q hq => hl.inside q (hsub.subset hq)) (hl.pairwise.sublist hsub) hp

theorem length_laid {entries : List RelocEntry} (hl : (parts.contents entries).Laid layout) :
    (patchAll (List.replicate layout.totalLen.toNat (0 : UInt8)) (parts.placements layout)).length =
      layout.totalLen.toNat := by
  have hsub := placements_sublist parts layout entries
  rw [length_patchAll fun q hq => hl.inside q (hsub.subset hq), List.length_replicate]

theorem placement_mem (p : Part) :
    ((p.offset layout).toNat, p.bytes parts) ∈ parts.placements layout := by
  cases p
  · exact List.mem_cons_of_mem _ (List.mem_cons_of_mem _ List.mem_cons_self)
  · exact List.mem_cons_of_mem _ (List.mem_cons_of_mem _ (List.mem_cons_of_mem _
      List.mem_cons_self))
  · exact List.mem_cons_of_mem _ (List.mem_cons_of_mem _ (List.mem_cons_of_mem _
      (List.mem_cons_of_mem _ List.mem_cons_self)))

/-! ## Fixups as rewrites -/

theorem part_eq_some {i : Nat} {p : Part} :
    elf.part i = some p ↔ ∃ s, elf.sections[i]? = some s ∧ Part.ofName s.name = some p ∧
      elf.sections.findIdx? (·.name = s.name) = some i := by
  unfold Elf.part
  simp only [Option.bind_eq_bind, Option.bind_eq_some_iff]
  constructor
  · rintro ⟨s, hs, q, hq, hif⟩
    split at hif
    · rename_i hfirst
      exact ⟨s, hs, hq.trans hif, hfirst⟩
    · cases hif
  · rintro ⟨s, hs, hq, hfirst⟩
    exact ⟨s, hs, p, hq, if_pos hfirst⟩

theorem lmodSectionBase_of_part {i : Nat} {p : Part} (h : elf.part i = some p) :
    elf.lmodSectionBase i layout = (p.offset layout).toUInt64 := by
  obtain ⟨s, hs, hname, -⟩ := part_eq_some.mp h
  unfold Elf.lmodSectionBase
  rw [hs]
  unfold Part.ofName at hname
  dsimp only
  split at hname
  · rename_i htext
    rw [if_pos htext, ← Option.some.inj hname]
    rfl
  · rename_i htext
    rw [if_neg htext]
    split at hname
    · rename_i hrodata
      rw [if_pos hrodata, ← Option.some.inj hname]
      rfl
    · rename_i hrodata
      rw [if_neg hrodata]
      split at hname
      · rename_i hdata
        rw [if_pos hdata, ← Option.some.inj hname]
        rfl
      · cases hname

namespace Fixup

def rewrite (elf : Elf) (layout : LmodHeader) (his : List (UInt64 × UInt64)) (f : Fixup) :
    Rewrite where
  off := (f.site elf layout).toNat
  len := elf.siteLen f.type
  encode := fun insn =>
    if elf.isLow f.type then
      (hiTargetAt his (f.symAddr elf layout)).map fun hiTarget =>
        encodeRiscvLo12I insn (hiTarget + f.addend.toUInt64 - f.symAddr elf layout).toInt64
    else
      (InternalKind.ofType elf.machine f.type).bind fun kind =>
        kind.encode (f.value elf layout) (f.site elf layout) insn

theorem site_toNat {f : Fixup} {p : Part} (ho : InOrder parts layout)
    (hp : elf.part f.target = some p)
    (hin : f.offset.toNat + elf.siteLen f.type ≤ (p.bytes parts).length) :
    (f.site elf layout).toNat = (p.offset layout).toNat + f.offset.toNat := by
  have hstop := ho.stop_le p
  have htotal := layout.relocOff.toNat_lt
  unfold site
  rw [lmodSectionBase_of_part hp, UInt64.toNat_add, UInt32.toNat_toUInt64,
    Nat.mod_eq_of_lt (by omega)]

end Fixup

theorem patchAt_eq_ok {name : String} {site : UInt64} {n : Nat} {refused : PackError}
    {encode : Bytes → Option Bytes} {out out' : Bytes} (hfits : site.toNat + n < 2 ^ 64)
    (h : patchAt name site n refused encode out = .ok out') :
    ∃ insn new, slice out site.toNat (site.toNat + n) = some insn ∧ encode insn = some new ∧
      out' = patch out site.toNat new := by
  have hstop : usize host (site.toNat + n) = site.toNat + n := Nat.mod_eq_of_lt hfits
  unfold patchAt at h
  simp only [bind_eq_ok, require_eq_ok, expect_eq_ok, pure_eq_ok, hstop] at h
  obtain ⟨_, -, insn, hinsn, new, hnew, rfl⟩ := h
  exact ⟨insn, new, hinsn, hnew, rfl⟩

theorem siteLen_low {type : UInt32} (h : elf.isLow type) : elf.siteLen type = 4 := if_pos h

theorem siteLen_kind {type : UInt32} {kind : InternalKind} (h : ¬ elf.isLow type)
    (hk : InternalKind.ofType elf.machine type = some kind) : elf.siteLen type = kind.len := by
  unfold Elf.siteLen
  rw [if_neg h, hk]
  rfl

theorem length_lo12 (insn : Bytes) (value : Int64) : (encodeRiscvLo12I insn value).length = 4 :=
  length_put32 _

theorem step_of_resolve {his : List (UInt64 × UInt64)} {f : Fixup} {out out' : Bytes}
    (hhint : ¬ (elf.machine = EM_RISCV ∧ f.type = 51))
    (hfits : (f.site elf layout).toNat + elf.siteLen f.type < 2 ^ 64)
    (h : resolve elf layout his out f = .ok out') : (f.rewrite elf layout his).Step out out' := by
  unfold resolve at h
  dsimp only at h
  by_cases hlow : elf.isLow f.type
  · rw [if_pos (show elf.machine = EM_RISCV ∧ f.type = 24 from hlow)] at h
    simp only [bind_eq_ok, expect_eq_ok] at h
    obtain ⟨hiTarget, hhi, happly⟩ := h
    rw [siteLen_low hlow] at hfits
    obtain ⟨insn, new, hinsn, hnew, hout⟩ := patchAt_eq_ok hfits happly
    have henc : (f.rewrite elf layout his).encode insn = some new := by
      show (if elf.isLow f.type then _ else _) = _
      rw [if_pos hlow, hhi]
      exact hnew
    refine ⟨insn, new, ?_, henc, ?_, hout⟩
    · show slice out _ (_ + elf.siteLen f.type) = _
      rw [siteLen_low hlow]
      exact hinsn
    · show new.length = elf.siteLen f.type
      rw [siteLen_low hlow, ← Option.some.inj hnew]
      exact length_lo12 _ _
  · rw [if_neg (show ¬ (elf.machine = EM_RISCV ∧ f.type = 24) from hlow)] at h
    unfold applyInternalReloc at h
    rw [if_neg hhint] at h
    cases hk : InternalKind.ofType elf.machine f.type with
    | none =>
      rw [hk] at h
      cases h
    | some kind =>
      rw [hk] at h
      have hlen := siteLen_kind hlow hk
      rw [hlen] at hfits
      obtain ⟨insn, new, hinsn, hnew, hout⟩ := patchAt_eq_ok hfits h
      have hinsnLen : insn.length = kind.len := by
        rw [length_slice hinsn, Nat.add_sub_cancel_left]
      have henc : (f.rewrite elf layout his).encode insn = some new := by
        show (if elf.isLow f.type then _ else _) = _
        rw [if_neg hlow, hk]
        exact hnew
      refine ⟨insn, new, ?_, henc, ?_, hout⟩
      · show slice out _ (_ + elf.siteLen f.type) = _
        rw [hlen]
        exact hinsn
      · show new.length = elf.siteLen f.type
        rw [hlen]
        exact InternalKind.length_encode hinsnLen hnew

theorem steps_of_resolve {his : List (UInt64 × UInt64)} {fixups : List Fixup} {out out' : Bytes}
    (hhint : ∀ f ∈ fixups, ¬ (elf.machine = EM_RISCV ∧ f.type = 51))
    (hfits : ∀ f ∈ fixups, (f.site elf layout).toNat + elf.siteLen f.type < 2 ^ 64)
    (h : fixups.foldlM (resolve elf layout his) out = .ok out') :
    Rewrite.Steps (fixups.map (Fixup.rewrite elf layout his)) out out' := by
  induction fixups generalizing out with
  | nil => exact foldlM_nil_eq_ok.mp h
  | cons f fixups ih =>
    obtain ⟨mid, hstep, hrest⟩ := foldlM_cons_eq_ok.mp h
    refine ⟨mid, step_of_resolve (hhint f List.mem_cons_self) (hfits f List.mem_cons_self) hstep, ?_⟩
    exact ih (fun g hg => hhint g (List.mem_cons_of_mem _ hg))
      (fun g hg => hfits g (List.mem_cons_of_mem _ hg)) hrest

theorem writeEntries_eq {off : Nat} {entries : List RelocEntry} {out out' : Bytes}
    (h : writeEntries off entries out = .ok out') :
    out' = patchAll out (Contents.entryPlacements off entries) := by
  induction entries generalizing off out with
  | nil => exact (pure_eq_ok.mp h).symm
  | cons e entries ih =>
    unfold writeEntries at h
    simp only [bind_eq_ok, copyInto_eq_ok] at h
    obtain ⟨mid, ⟨-, rfl⟩, hrest⟩ := h
    exact ih hrest

theorem addU32_eq {mode : Overflow} {a b c : UInt32} (h : addU32 mode a b = some c) :
    c = a + b := by
  cases mode with
  | wraps => exact (Option.some.inj h).symm
  | stops =>
    simp only [addU32] at h
    split at h
    · exact (Option.some.inj h).symm
    · cases h

theorem finalEntry_eq_ok {mode : Overflow} {i : Import} {e : RelocEntry}
    (h : finalEntry mode layout i = .ok e) :
    e.siteOff = i.site.toUInt32 + layout.codeOff ∧ e.symHash = i.symHash ∧ e.kind = i.kind := by
  unfold finalEntry at h
  simp only [bind_eq_ok, expect_eq_ok, pure_eq_ok] at h
  obtain ⟨siteOff, hsite, rfl⟩ := h
  exact ⟨addU32_eq hsite, rfl, rfl⟩

/-! ## The whole -/

structure Packing (mode : Overflow) (input record out : Bytes) where
  elf : Elf
  parts : Parts
  symbols : List Symbol
  scanned : List Scanned
  layout : LmodHeader
  laid : Bytes
  resolved : Bytes
  entries : List RelocEntry
  parse : Elf.parse input = .ok elf
  extract : elf.parts record = .ok parts
  readSymbols : elf.symbols = .ok symbols
  scan : elf.scan symbols = .ok scanned
  computed : computeLayout mode parts.abiHash
    (parts.lens (scanned.filterMap Scanned.import).length) = some layout
  assembled : parts.assemble layout = .ok laid
  fixed : (scanned.filterMap Scanned.fixup).foldlM (resolve elf layout
    (hiTargets elf layout (scanned.filterMap Scanned.fixup))) laid = .ok resolved
  finished : (scanned.filterMap Scanned.import).mapM (finalEntry mode layout) = .ok entries
  written : writeEntries layout.relocOff.toNat entries resolved = .ok out

namespace Packing

variable {mode : Overflow} {input record out : Bytes}

def imports (k : Packing mode input record out) : List Import :=
  k.scanned.filterMap Scanned.import

def fixups (k : Packing mode input record out) : List Fixup :=
  k.scanned.filterMap Scanned.fixup

def his (k : Packing mode input record out) : List (UInt64 × UInt64) :=
  hiTargets k.elf k.layout k.fixups

def Settled (k : Packing mode input record out) : Prop :=
  Pack.Settled k.elf k.parts k.imports k.fixups

def Tidy (k : Packing mode input record out) : Prop :=
  Pack.Tidy k.elf k.parts k.symbols k.imports k.fixups

variable {k : Packing mode input record out}

theorem laid_layout (hs : k.Settled) : (k.parts.contents k.entries).Laid k.layout := by
  have hlen : k.entries.length = k.imports.length := length_mapM k.finished
  have hcomputed := k.computed
  have hfits := hs.fits
  rw [← hlen] at hfits
  rw [show (k.scanned.filterMap Scanned.import).length = k.entries.length from hlen.symm]
    at hcomputed
  exact laid_of_layout hcomputed hfits

theorem inOrder (hs : k.Settled) : InOrder k.parts k.layout := inOrder_of_laid (laid_layout hs)

theorem laid_eq (k : Packing mode input record out) :
    k.laid = patchAll (List.replicate k.layout.totalLen.toNat 0) (k.parts.placements k.layout) :=
  assemble_eq k.assembled

theorem site_toNat (hs : k.Settled) {f : Fixup} (hf : f ∈ k.fixups) :
    ∃ p, k.elf.part f.target = some p ∧
      f.offset.toNat + k.elf.siteLen f.type ≤ (p.bytes k.parts).length ∧
      (f.site k.elf k.layout).toNat = (p.offset k.layout).toNat + f.offset.toNat := by
  obtain ⟨p, hp, hin⟩ := hs.inside f hf
  exact ⟨p, hp, hin, Fixup.site_toNat (inOrder hs) hp hin⟩

theorem steps (hs : k.Settled) :
    Rewrite.Steps (k.fixups.map (Fixup.rewrite k.elf k.layout k.his)) k.laid k.resolved := by
  refine steps_of_resolve (fun f hf => ?_) (fun f hf => ?_) k.fixed
  · obtain ⟨r, sym, hd, rfl, -⟩ := defines_of_fixup k.scan hf
    exact hd.reference
  · obtain ⟨p, hp, hin, hsite⟩ := site_toNat hs hf
    have hstop := (inOrder hs).stop_le p
    have htotal := k.layout.relocOff.toNat_lt
    omega

theorem apart (ht : k.Tidy) :
    (k.fixups.map (Fixup.rewrite k.elf k.layout k.his)).Pairwise Rewrite.Apart := by
  refine List.pairwise_map.mpr (ht.apart.imp_of_mem fun {f g} hf hg hfg => ?_)
  obtain ⟨p, hp, hin, hsite⟩ := site_toNat ht.toSettled hf
  obtain ⟨q, hq, hin', hsite'⟩ := site_toNat ht.toSettled hg
  show Apart (f.site k.elf k.layout).toNat (k.elf.siteLen f.type)
    (g.site k.elf k.layout).toNat (k.elf.siteLen g.type)
  rw [hsite, hsite']
  by_cases hsame : p = q
  · subst hsame
    have h := hfg (hp.trans hq.symm)
    unfold Apart at *
    omega
  · have h := (inOrder ht.toSettled).apart hsame
    unfold Apart
    omega

theorem length_resolved (hs : k.Settled) : k.resolved.length = k.layout.totalLen.toNat := by
  rw [(steps hs).length, k.laid_eq, length_laid (laid_layout hs)]

theorem out_eq (k : Packing mode input record out) :
    out = patchAll k.resolved (Contents.entryPlacements k.layout.relocOff.toNat k.entries) :=
  writeEntries_eq k.written

theorem entries_inside (hs : k.Settled) :
    ∀ p ∈ Contents.entryPlacements k.layout.relocOff.toNat k.entries,
      p.1 + p.2.length ≤ k.resolved.length := by
  intro p hp
  have hin := (laid_layout hs).inside p (List.mem_append_right _ hp)
  rw [List.length_replicate] at hin
  rw [length_resolved hs]
  exact hin

theorem length_out (hs : k.Settled) : out.length = k.layout.totalLen.toNat := by
  conv_lhs => rw [k.out_eq]
  rw [length_patchAll (entries_inside hs), length_resolved hs]

theorem slice_out (hs : k.Settled) {a n : Nat} (h : a + n ≤ k.layout.relocOff.toNat) :
    slice out a (a + n) = slice k.resolved a (a + n) := by
  conv_lhs => rw [k.out_eq]
  refine slice_patchAll_of_apart (entries_inside hs) fun p hp => Or.inl ?_
  have hstart := ((Contents.entryPlacements_ordered k.entries k.layout.relocOff.toNat).1 p hp).1
  omega

def packedPart (k : Packing mode input record out) (p : Part) : Bytes :=
  (slice out (p.offset k.layout).toNat
    ((p.offset k.layout).toNat + (p.bytes k.parts).length)).getD []

def packed (k : Packing mode input record out) : Contents :=
  { k.parts.contents k.entries with
    code := k.packedPart .code
    rodata := k.packedPart .rodata
    data := k.packedPart .data }

theorem slice_packedPart (hs : k.Settled) (p : Part) :
    slice out (p.offset k.layout).toNat
      ((p.offset k.layout).toNat + (p.bytes k.parts).length) = some (k.packedPart p) := by
  have hstop := (inOrder hs).stop_le p
  have htotal := (inOrder hs).total
  have hlen := length_out hs
  have hsome : (slice out (p.offset k.layout).toNat
      ((p.offset k.layout).toNat + (p.bytes k.parts).length)).isSome = true :=
    isSome_slice.mpr ⟨by omega, by omega⟩
  obtain ⟨bytes, hbytes⟩ := Option.isSome_iff_exists.mp hsome
  unfold packedPart
  rw [hbytes]
  rfl

theorem length_packedPart (hs : k.Settled) (p : Part) :
    (k.packedPart p).length = (p.bytes k.parts).length := by
  rw [length_slice (slice_packedPart hs p), Nat.add_sub_cancel_left]

theorem laid_packed (hs : k.Settled) : k.packed.Laid k.layout := by
  have hl := laid_layout hs
  have hcode : k.packed.code.length = k.parts.code.length := length_packedPart hs .code
  have hrodata : k.packed.rodata.length = k.parts.rodata.length := length_packedPart hs .rodata
  have hdata : k.packed.data.length = k.parts.data.length := length_packedPart hs .data
  have hlens : k.packed.lens = (k.parts.contents k.entries).lens := by
    unfold Contents.lens
    rw [hcode, hrodata, hdata]
    rfl
  have hlengths : k.packed.lengths = (k.parts.contents k.entries).lengths := by
    unfold Contents.lengths
    rw [hcode, hrodata, hdata]
    rfl
  refine ⟨?_, ?_, ?_⟩
  · rw [hlens]
    exact hl.placed
  · rw [hlens, hlengths]
    exact hl.lengths
  · rw [hlengths]
    exact hl.fits

theorem slice_front (hs : k.Settled) {a n : Nat} (h : a + n ≤ k.layout.codeOff.toNat) :
    slice out a (a + n) = slice k.laid a (a + n) := by
  have ho := inOrder hs
  have hstop := ho.stop_le .code
  rw [slice_out hs (by
    have hc : (Part.code.offset k.layout).toNat = k.layout.codeOff.toNat := rfl
    omega)]
  refine (steps hs).slice_apart fun r hr => Or.inl ?_
  obtain ⟨f, hf, rfl⟩ := List.mem_map.mp hr
  obtain ⟨p, hp, hin, hsite⟩ := site_toNat hs hf
  have hstart := ho.code_le p
  show a + n ≤ (f.site k.elf k.layout).toNat
  omega

theorem holds (hs : k.Settled) : k.packed.Holds k.layout out where
  laid := laid_packed hs
  length := length_out hs
  parts := fun p hp => by
    have ho := inOrder hs
    have hfront {q : Nat × Bytes} (hq : q ∈ k.parts.placements k.layout)
        (hstop : q.1 + q.2.length ≤ k.layout.codeOff.toNat) :
        slice out q.1 (q.1 + q.2.length) = some q.2 := by
      rw [slice_front hs hstop, k.laid_eq]
      exact slice_part (laid_layout hs) hq
    have hparts (p : Part) : slice out (p.offset k.layout).toNat
        ((p.offset k.layout).toNat + (k.packedPart p).length) = some (k.packedPart p) := by
      rw [length_packedPart hs]
      exact slice_packedPart hs p
    obtain ⟨hfirst, hmodinfo, -⟩ := (laid_layout hs).ordered
    have hsize : HEADER_SIZE.toNat = 72 := rfl
    have hheader := length_headerBytes k.layout
    have hcode := ho.code
    rcases List.mem_append.mp hp with hp | hp
    · simp only [List.mem_cons, List.not_mem_nil, or_false] at hp
      rcases hp with rfl | rfl | rfl | rfl | rfl | rfl
      · exact hfront List.mem_cons_self (by show 0 + (headerBytes k.layout).length ≤ _; omega)
      · have hlen := length_out hs
        have hreloc := ho.stop_le .code
        have htotal := ho.total
        have hc : (Part.code.offset k.layout).toNat = k.layout.codeOff.toNat := rfl
        show slice out 72 72 = some []
        unfold slice
        rw [if_pos ⟨Nat.le_refl _, by omega⟩]
        simp
      · exact hfront (List.mem_cons_of_mem _ List.mem_cons_self) hmodinfo
      · exact hparts .code
      · exact hparts .rodata
      · exact hparts .data
    · have hpair := (Contents.entryPlacements_ordered k.entries k.layout.relocOff.toNat).2
      have hslice := slice_patchAll (entries_inside hs) hpair hp
      rw [← k.out_eq] at hslice
      exact hslice

theorem site (ht : k.Tidy) {f : Fixup} (hf : f ∈ k.fixups) {p : Part}
    (hp : k.elf.part f.target = some p) :
    ∃ insn new, slice (p.bytes k.parts) f.offset.toNat
        (f.offset.toNat + k.elf.siteLen f.type) = some insn ∧
      (f.rewrite k.elf k.layout k.his).encode insn = some new ∧
      slice out ((p.offset k.layout).toNat + f.offset.toNat)
        ((p.offset k.layout).toNat + (f.offset.toNat + k.elf.siteLen f.type)) = some new := by
  have hs : k.Settled := ht.toSettled
  obtain ⟨q, hq, hin, hsite⟩ := site_toNat hs hf
  have hsame : q = p := Option.some.inj (hq.symm.trans hp)
  subst hsame
  obtain ⟨insn, new, hold, hnew, hlast⟩ :=
    (steps hs).slice_site (apart ht) (List.mem_map_of_mem hf)
  have hpart := slice_part (laid_layout hs)
    (show ((q.offset k.layout).toNat, q.bytes k.parts) ∈ k.parts.placements k.layout from
      placement_mem q)
  rw [← k.laid_eq] at hpart
  have hstop := (inOrder hs).stop_le q
  refine ⟨insn, new, ?_, hnew, ?_⟩
  · rw [← slice_within hpart hin, ← Nat.add_assoc, ← hsite]
    exact hold
  · rw [← Nat.add_assoc, slice_out hs (by omega), ← hsite]
    exact hlast

end Packing

end Tyu.Pack

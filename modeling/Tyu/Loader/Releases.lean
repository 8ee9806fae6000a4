import Mathlib.Data.List.Perm.Basic
import Tyu.Loader.Exports

/-!
# Releasing apertures

A load reserves each aperture of the module's table under the `abi_hash` of its header, and the
release of an owner drops every reservation under that tag.
-/

namespace Tyu

open Lib Lib.Wire Loader

namespace ApertureRegistry

/-- The loop from place `w` on: a reservation of the owner is overwritten by the last one. -/
def releaseFrom (owner : UInt64) : Nat → Nat → List (UInt16 × UInt64) → List (UInt16 × UInt64)
  | 0, _, items => items
  | fuel + 1, w, items =>
    match items[w]? with
    | none => items
    | some b =>
      if b.2 = owner then releaseFrom owner fuel w (items.set w (items.getLast?.getD b)).dropLast
      else releaseFrom owner fuel (w + 1) items

theorem swapRemove_perm {α : Type} {pre rest : List α} {b last : α}
    (hlast : (pre ++ b :: rest).getLast? = some last) :
    ∃ rest', ((pre ++ b :: rest).set pre.length last).dropLast = pre ++ rest' ∧
      List.Perm rest' rest := by
  rw [List.set_append_right _ _ (Nat.le_refl _), Nat.sub_self, List.set_cons_zero]
  rcases List.eq_nil_or_concat rest with rfl | ⟨init, z, hrest⟩
  · exact ⟨[], by rw [List.dropLast_concat, List.append_nil], .refl _⟩
  · rw [List.concat_eq_append] at hrest
    subst hrest
    have hz : z = last := by
      rw [← List.cons_append, ← List.append_assoc, List.getLast?_concat] at hlast
      exact Option.some.inj hlast
    subst hz
    refine ⟨z :: init, ?_, ?_⟩
    · rw [← List.cons_append, ← List.append_assoc, List.dropLast_concat]
    · exact (List.perm_append_singleton z init).symm

theorem releaseFrom_perm (owner : UInt64) {fuel : Nat} (pre : List (UInt16 × UInt64))
    {items : List (UInt16 × UInt64)} (hfuel : items.length ≤ fuel) :
    List.Perm (releaseFrom owner fuel pre.length (pre ++ items))
      (pre ++ items.filter fun b => b.2 ≠ owner) := by
  induction fuel generalizing pre items with
  | zero =>
    rw [List.length_eq_zero_iff.mp (Nat.le_zero.mp hfuel)]
    exact .refl _
  | succ fuel ih =>
    unfold releaseFrom
    cases items with
    | nil =>
      rw [List.getElem?_eq_none (by simp)]
      exact .refl _
    | cons b rest =>
      have hget : (pre ++ b :: rest)[pre.length]? = some b := by simp
      rw [hget]
      by_cases hb : b.2 = owner
      · show List.Perm (if b.2 = owner then _ else _) _
        rw [if_pos hb, List.filter_cons_of_neg (by simpa using hb)]
        obtain ⟨last, hlast⟩ : ∃ last, (pre ++ b :: rest).getLast? = some last :=
          Option.isSome_iff_exists.mp (by simp)
        obtain ⟨rest', hset, hperm⟩ := swapRemove_perm hlast
        rw [hlast, Option.getD_some, hset]
        have hlen : rest'.length ≤ fuel := by
          rw [hperm.length_eq]
          exact Nat.le_of_succ_le_succ hfuel
        exact (ih pre hlen).trans ((hperm.filter _).append_left pre)
      · show List.Perm (if b.2 = owner then _ else _) _
        rw [if_neg hb, List.filter_cons_of_pos (by simpa using hb)]
        have hstep := ih (pre ++ [b]) (Nat.le_of_succ_le_succ hfuel)
        simpa using hstep

def releaseOwner (registry : ApertureRegistry) (owner : UInt64) : ApertureRegistry where
  items := releaseFrom owner registry.items.length 0 registry.items
  bounded := by
    have hperm := releaseFrom_perm owner [] (Nat.le_refl registry.items.length)
    rw [List.nil_append] at hperm
    rw [List.length_nil] at hperm
    rw [hperm.length_eq]
    exact Nat.le_trans (List.length_filter_le _ _) registry.bounded

theorem releaseOwner_perm (registry : ApertureRegistry) (owner : UInt64) :
    List.Perm (registry.releaseOwner owner).items (registry.items.filter fun b => b.2 ≠ owner) :=
  releaseFrom_perm owner [] (Nat.le_refl _)

end ApertureRegistry

/-! ## What a load reserves -/

def claimedIds (w : PtrWidth) (data : Bytes) : List UInt32 → List UInt16
  | [] => []
  | i :: rest =>
    match (readApertureUse w data i).run with
    | some (some entry) => entry.apertureId :: claimedIds w data rest
    | _ => claimedIds w data rest

def moduleClaims (w : PtrWidth) (data : Bytes) : List UInt16 :=
  match (ModInfo.decode w data).run with
  | some (some hdr) => claimedIds w data (indices hdr.apertureCount)
  | _ => []

def Container.claims (w : PtrWidth) (c : Container) : List UInt16 :=
  ((c.modinfo w).map (moduleClaims w)).getD []

variable {σ : Type}

def Loader.SameRegistry (s s' : Loader σ) : Prop := s'.registry = s.registry

instance : Frame (SameRegistry (σ := σ)) where
  quiet h := h.registry
  trans _ _ _ h h' := h'.trans h

namespace ApertureRegistry

theorem isBound_eq_true {registry : ApertureRegistry} {id : UInt16} :
    registry.isBound id = true ↔ id ∈ registry.items.map Prod.fst := by
  unfold isBound
  rw [List.any_eq_true, List.mem_map]
  simp only [decide_eq_true_eq]

end ApertureRegistry

/-- The reservations `claims` are added behind the earlier ones, and no aperture comes to be
reserved twice. -/
structure Loader.Adds (claims : List (UInt16 × UInt64)) (s s' : Loader σ) : Prop where
  items : s'.registry.items = s.registry.items ++ claims
  nodup : (s.registry.items.map Prod.fst).Nodup → (s'.registry.items.map Prod.fst).Nodup

variable {s s' : Loader σ} {owner : UInt64} {board : List BoardAperture} {bases : List UInt32}
  {b : Build σ}

theorem SameRegistry.adds (h : s.SameRegistry s') : s.Adds [] s' := by
  have hsame : s'.registry = s.registry := h
  refine ⟨?_, ?_⟩
  · rw [hsame, List.append_nil]
  · rw [hsame]
    exact id

theorem Loader.Adds.trans {xs ys : List (UInt16 × UInt64)} {m : Loader σ} (h : s.Adds xs m)
    (h' : m.Adds ys s') : s.Adds (xs ++ ys) s' :=
  ⟨by rw [h'.items, h.items, List.append_assoc], fun hn => h'.nodup (h.nodup hn)⟩

theorem adds_reserve {id : UInt16} {u : Unit} (h : Load.reserve id owner s = (.ok u, s')) :
    s.Adds [(id, owner)] s' := by
  unfold Load.reserve at h
  split at h
  · next r hr =>
    cases h
    unfold ApertureRegistry.reserve at hr
    split at hr
    · cases hr
    · next hfree =>
      have hitems : r.items = s.registry.items ++ [(id, owner)] :=
        (Journal.append_eq_some.mp (expect_eq_ok.mp hr)).2
      refine ⟨hitems, fun hn => ?_⟩
      show (r.items.map Prod.fst).Nodup
      rw [hitems, List.map_append, List.map_singleton, List.nodup_append]
      refine ⟨hn, List.nodup_singleton id, fun x hx y hy hxy => hfree ?_⟩
      rw [List.mem_singleton.mp hy] at hxy
      rw [hxy] at hx
      exact ApertureRegistry.isBound_eq_true.mpr hx
  · cases h

theorem adds_bindAperture {entry : ApertureUseEntry} {bases' : List UInt32}
    (h : bindAperture board owner entry bases s = (.ok bases', s')) :
    s.Adds [(entry.apertureId, owner)] s' := by
  unfold bindAperture at h
  cases hboard : board[entry.apertureId.toNat]? with
  | none =>
    rw [hboard] at h
    cases h
  | some boardAperture =>
    rw [hboard] at h
    simp only [Stoppable.bind_eq_ok, Load.check_eq_ok, Load.orPanic_eq_ok] at h
    obtain ⟨_, _, ⟨-, rfl⟩, _, _, ⟨-, rfl⟩, _, _, ⟨-, rfl⟩, _, s₁, hreserve, -, rfl⟩ := h
    exact adds_reserve hreserve

theorem adds_bindEntries {w : PtrWidth} {data : Bytes} {is : List UInt32} {bases' : List UInt32}
    (h : bindEntries w data board owner is bases s = (.ok bases', s')) :
    s.Adds ((claimedIds w data is).map fun id => (id, owner)) s' := by
  induction is generalizing bases s with
  | nil =>
    cases h
    exact SameRegistry.adds rfl
  | cons i rest ih =>
    unfold bindEntries at h
    obtain ⟨entry, s₁, hread, h⟩ := Stoppable.bind_eq_ok.mp h
    obtain ⟨hentry, rfl⟩ := Stoppable.ofExcept_eq_ok.mp hread
    obtain ⟨bases₁, s₂, hbind, h⟩ := Stoppable.bind_eq_ok.mp h
    rw [claimedIds, Read.orError_eq_ok.mp hentry]
    exact (adds_bindAperture hbind).trans (ih h)

theorem adds_bindApertures {w : PtrWidth} {data : Bytes} {boardHash : Option UInt64} {mi : ModInfo}
    (hmi : (ModInfo.decode w data).run = some (some mi))
    (h : bindApertures w data boardHash board owner s = (.ok bases, s')) :
    s.Adds ((moduleClaims w data).map fun id => (id, owner)) s' := by
  have hclaims : moduleClaims w data = claimedIds w data (indices mi.apertureCount) := by
    unfold moduleClaims
    rw [hmi]
  unfold bindApertures at h
  rw [isEmpty_of_decode hmi, if_neg (by decide)] at h
  obtain ⟨hdr, _, hdecode, h⟩ := Stoppable.bind_eq_ok.mp h
  obtain ⟨hhdr, rfl⟩ := Stoppable.ofExcept_eq_ok.mp hdecode
  rw [Read.orError_eq_ok, hmi] at hhdr
  cases hhdr
  obtain ⟨_, _, hcheck, h⟩ := Stoppable.bind_eq_ok.mp h
  obtain ⟨-, rfl⟩ := Load.check_eq_ok.mp hcheck
  obtain ⟨_, _, hcheck, h⟩ := Stoppable.bind_eq_ok.mp h
  obtain ⟨-, rfl⟩ := Load.check_eq_ok.mp hcheck
  by_cases hzero : mi.apertureCount = 0
  · rw [if_pos hzero] at h
    obtain ⟨-, rfl⟩ := Stoppable.pure_eq_ok.mp h
    rw [hclaims, hzero]
    exact SameRegistry.adds rfl
  · rw [if_neg hzero] at h
    obtain ⟨_, _, hcheck, h⟩ := Stoppable.bind_eq_ok.mp h
    obtain ⟨-, rfl⟩ := Load.check_eq_ok.mp hcheck
    obtain ⟨_, _, htable, h⟩ := Stoppable.bind_eq_ok.mp h
    obtain ⟨-, rfl⟩ := Stoppable.ofExcept_eq_ok.mp htable
    rw [hclaims]
    exact adds_bindEntries h

theorem adds_place {c : Container} {m : Admitted} {r : Ready} {mi : ModInfo}
    (hmi : (ModInfo.decode b.width m.modinfo).run = some (some mi))
    (h : place b c m s = (.ok r, s')) :
    s.Adds ((moduleClaims b.width m.modinfo).map fun id => (id, c.hdr.abiHash)) s' := by
  unfold place at h
  obtain ⟨platform, _, hask, h⟩ := Stoppable.bind_eq_ok.mp h
  obtain ⟨-, rfl⟩ := Load.ask_eq_ok.mp hask
  obtain ⟨bases, s₁, hbind, h⟩ := Stoppable.bind_eq_ok.mp h
  have hrest : s₁.SameRegistry s' := by
    refine Stoppable.Moves.of_ok ?_ h
    refine Load.moves_bind (Load.moves_check _ _) fun _ => ?_
    refine Load.moves_bind (Quiet.moves (quiet_placeSections b c _)) fun sections => ?_
    refine Load.moves_bind (Quiet.moves (quiet_decryptForBuild b sections _ _)) fun sections => ?_
    refine Load.moves_bind Load.moves_get fun s => ?_
    refine Load.moves_bind (Load.moves_ofExcept _) fun codeBytes => ?_
    refine Load.moves_bind (Load.moves_operate _) fun code => ?_
    exact Load.moves_pure _
  have hadds := (adds_bindApertures hmi hbind).trans (SameRegistry.adds hrest)
  rwa [List.append_nil] at hadds

theorem sameRegistry_registerExport (b : Build σ) (modinfo : Bytes) (codeBase : UInt64)
    (index : UInt32) : (registerExport b modinfo codeBase index).Moves SameRegistry := by
  refine Load.moves_bind (Load.moves_ofExcept _) fun exp => ?_
  refine Load.moves_ite (Load.moves_pure _) ?_
  intro s
  unfold Load.register
  split
  · rfl
  · rfl

theorem sameRegistry_settle (b : Build σ) (m : Admitted) (r : Ready) :
    (settle b m r).Moves SameRegistry := by
  have hexports : (registerExports b m.modinfo r.codeBase).Moves (SameRegistry (σ := σ)) := by
    refine Load.moves_ite (Load.moves_pure _) ?_
    refine Load.moves_bind (Load.moves_ofExcept _) fun mi => ?_
    exact Load.moves_forM (sameRegistry_registerExport b _ _) _
  refine Load.moves_bind hexports fun _ => ?_
  refine Load.moves_bind (Load.moves_ask _) fun trust => ?_
  refine Load.moves_bind (Load.moves_ofExcept _) fun _ => ?_
  refine Load.moves_bind (Load.moves_ofExcept _) fun _ => ?_
  intro s
  unfold Load.insert
  split
  · rfl
  · rfl

theorem adds_loadModule {c : Container} {lm : LoadedModule} (h : loadModule b c s = (.ok lm, s')) :
    lm.abiHash = c.hdr.abiHash ∧
      s.Adds ((c.claims b.width).map fun id => (id, c.hdr.abiHash)) s' := by
  unfold loadModule at h
  obtain ⟨m, s₁, hadmit, h⟩ := Stoppable.bind_eq_ok.mp h
  have hquiet : s.SameRegistry s₁ := ((quiet_admission b c).of_ok hadmit).registry
  have hadmitted := admittedBy_of_ok hadmit
  obtain ⟨mi, hmi, -⟩ := hadmitted.decoded
  have hclaims : c.claims b.width = moduleClaims b.width m.modinfo := by
    unfold Container.claims
    rw [hadmitted.modinfo]
    rfl
  rw [Stoppable.guarded_eq_ok, Stoppable.guarded_eq_ok] at h
  unfold install at h
  obtain ⟨r, s₂, hplace, h⟩ := Stoppable.bind_eq_ok.mp h
  obtain ⟨initAddr, s₃, hinit, h⟩ := Stoppable.bind_eq_ok.mp h
  obtain ⟨_, s₄, hsettle, h⟩ := Stoppable.bind_eq_ok.mp h
  obtain ⟨rfl, rfl⟩ := Stoppable.pure_eq_ok.mp h
  have hrun : s₂.SameRegistry s₃ := ((restored_runInit b _ _ _).of_ok hinit).registry
  have hend : s₃.SameRegistry s₄ := (sameRegistry_settle b m r).of_ok hsettle
  have hadds := (SameRegistry.adds hquiet).trans ((adds_place hmi hplace).trans
    ((SameRegistry.adds hrun).trans (SameRegistry.adds hend)))
  refine ⟨rfl, ?_⟩
  rw [hclaims]
  rwa [List.nil_append, List.append_nil, List.append_nil] at hadds

/-! ## Lives of the loader -/

structure Resident where
  container : Container
  loaded : LoadedModule

/-- The loader, and the modules that are loaded, in the order of their loads. -/
structure Life (σ : Type) where
  loader : Loader σ
  residents : List Resident

inductive LifeEvent where
  | load (c : Container)
  | release (i : Nat)

/-- A load that succeeds, or the release of the `i`-th loaded module. -/
def Life.step (b : Build σ) (l : Life σ) : LifeEvent → Option (Life σ)
  | .load c =>
    match loadModule b c l.loader with
    | (.ok lm, loader) => some ⟨loader, l.residents ++ [⟨c, lm⟩]⟩
    | _ => none
  | .release i => (l.residents[i]?).map fun r =>
    ⟨{ l.loader with registry := l.loader.registry.releaseOwner r.loaded.abiHash },
      l.residents.eraseIdx i⟩

/-- Lives that begin with `l₀`, all of whose events satisfy `ok` where they happen. -/
inductive Lives (b : Build σ) (ok : Life σ → LifeEvent → Prop) (l₀ : Life σ) : Life σ → Prop where
  | start : Lives b ok l₀ l₀
  | next {l l' : Life σ} {e : LifeEvent} (before : Lives b ok l₀ l) (allowed : ok l e)
      (step : l.step b e = some l') : Lives b ok l₀ l'

/-- The registry holds exactly the apertures that the loaded modules claim. -/
def Life.Exact (w : PtrWidth) (l : Life σ) : Prop :=
  ∀ id, l.loader.registry.isBound id = true ↔ ∃ r ∈ l.residents, id ∈ r.container.claims w

/-- No other loaded module that claims an aperture has the tag of the released one. -/
def OwnTag (w : PtrWidth) (l : Life σ) : LifeEvent → Prop
  | .load _ => True
  | .release i => ∀ r, l.residents[i]? = some r → ∀ r' ∈ l.residents.eraseIdx i,
      r'.container.claims w ≠ [] → r'.loaded.abiHash ≠ r.loaded.abiHash

/-! ## What the registry holds

Without two modules of one tag among those that claim apertures, the registry is a
rearrangement of the claims of the loaded modules. -/

def Resident.reserved (w : PtrWidth) (r : Resident) : List (UInt16 × UInt64) :=
  (r.container.claims w).map fun id => (id, r.loaded.abiHash)

/-- The reservations are those of the loaded modules, and each aperture has one at most. -/
structure Life.Tracked (w : PtrWidth) (l : Life σ) : Prop where
  items : List.Perm l.loader.registry.items (l.residents.flatMap (·.reserved w))
  nodup : (l.loader.registry.items.map Prod.fst).Nodup

theorem Resident.mem_reserved {w : PtrWidth} {r : Resident} {b : UInt16 × UInt64} :
    b ∈ r.reserved w ↔ b.1 ∈ r.container.claims w ∧ b.2 = r.loaded.abiHash := by
  unfold Resident.reserved
  rw [List.mem_map]
  constructor
  · rintro ⟨id, hid, rfl⟩
    exact ⟨hid, rfl⟩
  · rintro ⟨hid, htag⟩
    exact ⟨b.1, hid, Prod.ext rfl htag.symm⟩

namespace Life

variable {w : PtrWidth} {l l' : Life σ}

theorem Tracked.exact (h : l.Tracked w) : l.Exact w := by
  intro id
  rw [ApertureRegistry.isBound_eq_true, List.mem_map]
  constructor
  · rintro ⟨b, hb, rfl⟩
    obtain ⟨r, hr, hmem⟩ := List.mem_flatMap.mp (h.items.mem_iff.mp hb)
    exact ⟨r, hr, (Resident.mem_reserved.mp hmem).1⟩
  · rintro ⟨r, hr, hid⟩
    have hmem : (id, r.loaded.abiHash) ∈ r.reserved w := Resident.mem_reserved.mpr ⟨hid, rfl⟩
    exact ⟨_, h.items.mem_iff.mpr (List.mem_flatMap.mpr ⟨r, hr, hmem⟩), rfl⟩

variable {b : Build σ} {i : Nat}

theorem tracked_load {c : Container} (h : l.Tracked b.width) (hstep : l.step b (.load c) = some l')
    :
    l'.Tracked b.width := by
  simp only [step] at hstep
  cases hload : loadModule b c l.loader with
  | mk result loader =>
    rw [hload] at hstep
    cases result with
    | error stop => cases hstep
    | ok lm =>
      cases hstep
      obtain ⟨htag, hadds⟩ := adds_loadModule hload
      refine ⟨?_, hadds.nodup h.nodup⟩
      show List.Perm loader.registry.items
        ((l.residents ++ [(⟨c, lm⟩ : Resident)]).flatMap (·.reserved b.width))
      rw [hadds.items, List.flatMap_append, List.flatMap_singleton, ← htag]
      exact h.items.append_right _

/-- What is left of the claims of some modules without those under a tag that none of them
has. -/
theorem filter_reserved {rs : List Resident} {owner : UInt64}
    (hrs : ∀ r ∈ rs, r.container.claims w ≠ [] → r.loaded.abiHash ≠ owner) :
    (rs.flatMap (·.reserved w)).filter (fun b => b.2 ≠ owner) = rs.flatMap (·.reserved w) := by
  rw [List.filter_eq_self]
  intro b hb
  obtain ⟨r, hr, hmem⟩ := List.mem_flatMap.mp hb
  obtain ⟨hid, htag⟩ := Resident.mem_reserved.mp hmem
  rw [decide_eq_true_eq, htag]
  exact hrs r hr (List.ne_nil_of_mem hid)

theorem reserved_eraseIdx {rs : List Resident} {r : Resident} (hr : rs[i]? = some r) :
    List.Perm (rs.flatMap (·.reserved w))
      (r.reserved w ++ (rs.eraseIdx i).flatMap (·.reserved w)) := by
  obtain ⟨hi, rfl⟩ := List.getElem?_eq_some_iff.mp hr
  exact ((List.getElem_cons_eraseIdx_perm hi).symm.flatMap_right _)

theorem tracked_release (h : l.Tracked b.width) (hown : OwnTag b.width l (.release i))
    (hstep : l.step b (.release i) = some l') : l'.Tracked b.width := by
  obtain ⟨r, hr, rfl⟩ := Option.map_eq_some_iff.mp hstep
  have hperm := l.loader.registry.releaseOwner_perm r.loaded.abiHash
  have hreleased : (r.reserved b.width).filter (fun b => b.2 ≠ r.loaded.abiHash) = [] := by
    rw [List.filter_eq_nil_iff]
    intro b hb
    rw [(Resident.mem_reserved.mp hb).2]
    simp
  refine ⟨?_, ?_⟩
  · refine hperm.trans (((h.items.trans (reserved_eraseIdx hr)).filter _).trans ?_)
    rw [List.filter_append, hreleased, List.nil_append, filter_reserved (hown r hr)]
  · have hfiltered : ((l.loader.registry.items.filter fun b => b.2 ≠ r.loaded.abiHash).map
        Prod.fst).Nodup := List.Nodup.sublist (List.filter_sublist.map _) h.nodup
    exact (hperm.map _).nodup_iff.mpr hfiltered

theorem ownTag_of_exact (h : l.Tracked b.width) (hstep : l.step b (.release i) = some l')
    (hexact : l'.Exact b.width) : OwnTag b.width l (.release i) := by
  obtain ⟨r₀, hr₀, rfl⟩ := Option.map_eq_some_iff.mp hstep
  intro r hr r' hr' hclaims htag
  obtain rfl : r₀ = r := Option.some.inj (hr₀.symm.trans hr)
  obtain ⟨id, hid⟩ := List.exists_mem_of_ne_nil _ hclaims
  have hbound := (hexact id).mpr ⟨r', hr', hid⟩
  rw [ApertureRegistry.isBound_eq_true, List.mem_map] at hbound
  obtain ⟨kept, hkept, hfst⟩ := hbound
  rw [(l.loader.registry.releaseOwner_perm r₀.loaded.abiHash).mem_iff, List.mem_filter] at hkept
  have hmine : (id, r₀.loaded.abiHash) ∈ l.loader.registry.items := by
    refine h.items.mem_iff.mpr (List.mem_flatMap.mpr ⟨r', List.mem_of_mem_eraseIdx hr', ?_⟩)
    exact Resident.mem_reserved.mpr ⟨hid, htag.symm⟩
  -- An aperture has one reservation, and the one under the released tag is gone.
  have hsame : kept = (id, r₀.loaded.abiHash) :=
    List.inj_on_of_nodup_map h.nodup hkept.1 hmine hfst
  rw [hsame] at hkept
  exact absurd hkept.2 (by simp)

end Life

/-- In every life that begins with nothing loaded, and in which no module is released while
another one that claims apertures has its tag, the registry holds exactly the apertures of the
loaded modules; and the first release that is not of this kind frees an aperture of another
module. -/
theorem release_per_module (b : Build σ) {l₀ l : Life σ} (hregistry : l₀.loader.registry.items = [])
    (hresidents : l₀.residents = []) (h : Lives b (OwnTag b.width) l₀ l) :
    l.Exact b.width ∧ ∀ e l', l.step b e = some l' → (l'.Exact b.width ↔ OwnTag b.width l e) := by
  have hstart : l₀.Tracked b.width := by
    refine ⟨?_, ?_⟩
    · rw [hregistry, hresidents]
      exact .refl _
    · rw [hregistry]
      exact List.nodup_nil
  have hstep : ∀ {l l' : Life σ} {e : LifeEvent}, l.Tracked b.width → OwnTag b.width l e →
      l.step b e = some l' → l'.Tracked b.width := by
    intro l l' e hl hown hstep
    cases e with
    | load c => exact Life.tracked_load hl hstep
    | release i => exact Life.tracked_release hl hown hstep
  have hl : l.Tracked b.width := by
    induction h with
    | start => exact hstart
    | next before allowed hs ih => exact hstep ih allowed hs
  refine ⟨hl.exact, fun e l' hs => ⟨fun hexact => ?_, fun hown => (hstep hl hown hs).exact⟩⟩
  cases e with
  | load c => trivial
  | release i => exact Life.ownTag_of_exact hl hs hexact

def boardBuild : Build Unit :=
  { ramBuild with
    ops := { ramBuild.ops with
      apertureTable := fun _ => [⟨0xa0, 0x40000000, 0x100, 3⟩, ⟨0xa1, 0x40001000, 0x100, 3⟩] } }

def apertureModule (name : UInt8) (id : UInt16) : Option Container := do
  let modinfo ← ModInfo.encodeInto 1024 [name] [] [] 0 0 [] 0
    [{ nameHash := 0xa0 + id.toUInt64, size := 0x100, apertureId := id, accessMask := 1 }]
  let k : Contents :=
    { abiHash := 0, envelope := [], modinfo, code := [0xc3], rodata := [], data := [], bssLen := 0
      relocs := [] }
  let hdr ← computeLayout .wraps k.abiHash k.lens
  (Container.parse .w64 (k.assemble hdr)).toOption

def uartModule : Container := (apertureModule 0x75 0).get (by decide +kernel)
def timerModule : Container := (apertureModule 0x74 1).get (by decide +kernel)
def plainModule : Container := (smallModule [] []).get (by decide +kernel)

def Life.start : Life Unit := ⟨Loader.start, []⟩

def Life.after (b : Build σ) (l : Life σ) (events : List LifeEvent) : Option (Life σ) :=
  events.foldlM (fun l e => l.step b e) l

theorem lives_after {ok : Life σ → LifeEvent → Prop} {l₀ l l' : Life σ} {events : List LifeEvent}
    (h : Lives b ok l₀ l) (hok : ∀ l, ∀ e ∈ events, ok l e) (hafter : l.after b events = some l') :
    Lives b ok l₀ l' := by
  induction events generalizing l with
  | nil =>
    cases hafter
    exact h
  | cons e rest ih =>
    obtain ⟨m, hstep, hrest⟩ := Option.bind_eq_some_iff.mp hafter
    exact ih (h.next (hok l e List.mem_cons_self) hstep)
      (fun l e he => hok l e (List.mem_cons_of_mem _ he)) hrest

def loadedLife : Life Unit :=
  (Life.start.after boardBuild [.load uartModule, .load plainModule]).get (by decide +kernel)

def releasedLife : Life Unit := (loadedLife.step boardBuild (.release 0)).get (by decide +kernel)

theorem releasedLife_exact : releasedLife.Exact .w64 := by
  have hloads : Lives boardBuild (OwnTag .w64) Life.start loadedLife := by
    refine lives_after .start (fun l e he => ?_) (Option.some_get _).symm
    rcases List.mem_cons.mp he with rfl | he
    · trivial
    · rw [List.mem_singleton.mp he]
      trivial
  have hrest : ∀ r ∈ loadedLife.residents.eraseIdx 0, r.container.claims .w64 = [] := by
    decide +kernel
  have hown : OwnTag .w64 loadedLife (.release 0) := by
    intro r _ r' hr' hclaims
    exact absurd (hrest r' hr') hclaims
  exact (release_per_module boardBuild rfl rfl
    (hloads.next hown (Option.some_get _).symm)).1

/-- Two modules of one build, each with an aperture; the first is released. -/
def sharedTagLife : Life Unit :=
  (Life.start.after boardBuild [.load uartModule, .load timerModule, .release 0]).get
    (by decide +kernel)

/-- The aperture of the second module is free, though the module is loaded. -/
theorem release_frees_another : Lives boardBuild (fun _ _ => True) Life.start sharedTagLife ∧
    ¬ sharedTagLife.Exact .w64 := by
  refine ⟨lives_after .start (fun _ _ _ => trivial) (Option.some_get _).symm, fun hexact => ?_⟩
  have hclaimed : ∃ r ∈ sharedTagLife.residents, 1 ∈ r.container.claims .w64 := by
    decide +kernel
  have hfree : sharedTagLife.loader.registry.isBound 1 = false := by decide +kernel
  rw [(hexact 1).mpr hclaimed] at hfree
  exact absurd hfree (by decide)

end Tyu

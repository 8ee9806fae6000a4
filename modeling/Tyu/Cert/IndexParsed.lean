import Tyu.Cert.IndexRoundTrip

/-! # What the index reader lets through -/

namespace Tyu

open Lib Lib.Json

namespace Cert

/-! ## Trees -/

theorem range_fits {c : Prop} [Decidable c] {digits rest rest' : Bytes} {n : Int} {j : Json}
    {depth : Nat} (hdepth : depth < JSON_DEPTH_CAP)
    (h : (if c then bad "non-integer number in index"
      else if digits = [] ∨ n < -2 ^ 63 ∨ 2 ^ 63 ≤ n then bad "bad integer"
      else .ok (.num n, rest)) = .ok (j, rest')) : Fits depth j := by
  split at h
  · cases h
  split at h
  · cases h
  next hrange =>
    rw [not_or, not_or] at hrange
    obtain ⟨rfl, -⟩ := Prod.mk.inj (Except.ok.inj h)
    exact ⟨hdepth, by omega, by omega⟩

theorem number_fits {bytes rest : Bytes} {j : Json} {depth : Nat} (hdepth : depth < JSON_DEPTH_CAP)
    (h : number bytes = .ok (j, rest)) : Fits depth j := by
  unfold number at h
  dsimp only at h
  by_cases hneg : bytes.head? = some 0x2D
  · simp only [if_pos hneg] at h
    exact range_fits hdepth h
  · simp only [if_neg hneg] at h
    exact range_fits hdepth h

theorem literal_fits {lit : Bytes} {v : Json} {bytes rest : Bytes} {j : Json} {depth : Nat}
    (hv : Fits depth v) (h : literal lit v bytes = .ok (j, rest)) : Fits depth j := by
  unfold literal at h
  split at h
  · rw [← (Prod.mk.inj (Except.ok.inj h)).1]
    exact hv
  · cases h

theorem afterItem_ok {close : UInt8} {eof other : String} {v : Json}
    {more : Bytes → Except CertError (Json × Bytes)} {bytes : Bytes} {result : Json × Bytes}
    (h : afterItem close eof other v more bytes = .ok result) :
    result.1 = v ∨ ∃ rest, more rest = .ok result := by
  unfold afterItem at h
  split at h
  · cases h
  next b rest _ =>
    split at h
    · exact .inr ⟨rest, h⟩
    split at h
    · exact .inl (by rw [← Except.ok.inj h])
    · cases h

theorem fitsItems_append {depth : Nat} {items : List Json} {item : Json}
    (h : FitsItems depth items) (h' : Fits depth item) : FitsItems depth (items ++ [item]) := by
  induction items with
  | nil => exact ⟨h', trivial⟩
  | cons i items ih => exact ⟨h.1, ih h.2⟩

structure ReadsFitting (total fuel : Nat) : Prop where
  value : ∀ {depth bytes j rest}, value total fuel depth bytes = .ok (j, rest) → Fits depth j
  array : ∀ {depth items bytes j rest}, depth < JSON_DEPTH_CAP → FitsItems (depth + 1) items →
    array total fuel (depth + 1) items bytes = .ok (j, rest) → Fits depth j
  object : ∀ {depth members bytes j rest}, depth < JSON_DEPTH_CAP →
    FitsMembers (depth + 1) members →
    object total fuel (depth + 1) members bytes = .ok (j, rest) → Fits depth j

theorem value_fits_step {total fuel : Nat} (ih : ReadsFitting total fuel) {depth : Nat}
    {bytes rest : Bytes} {j : Json} (h : value total (fuel + 1) depth bytes = .ok (j, rest)) :
    Fits depth j := by
  rw [value] at h
  split at h
  · cases h
  next hcap =>
    have hdepth : depth < JSON_DEPTH_CAP := Nat.not_le.mp hcap
    have hitems : FitsItems (depth + 1) [] := trivial
    have hmembers : FitsMembers (depth + 1) [] := trivial
    split at h
    · cases h
    next b more _ =>
      split at h
      · exact ih.object hdepth hmembers h
      split at h
      · exact ih.array hdepth hitems h
      split at h
      · split at h
        · rw [← (Prod.mk.inj (Except.ok.inj h)).1]
          exact hdepth
        · cases h
      split at h
      · exact literal_fits (v := .bool true) hdepth h
      split at h
      · exact literal_fits (v := .bool false) hdepth h
      split at h
      · exact literal_fits (v := .null) hdepth h
      split at h
      · exact number_fits hdepth h
      · cases h

theorem array_fits_step {total fuel : Nat} (ih : ReadsFitting total fuel) {depth : Nat}
    {items : List Json} {bytes rest : Bytes} {j : Json} (hdepth : depth < JSON_DEPTH_CAP)
    (hitems : FitsItems (depth + 1) items)
    (h : array total (fuel + 1) (depth + 1) items bytes = .ok (j, rest)) : Fits depth j := by
  rw [array] at h
  split at h
  · rw [← (Prod.mk.inj (Except.ok.inj h)).1]
    exact ⟨hdepth, hitems⟩
  · split at h
    · cases h
    next v more hvalue =>
      have hall := fitsItems_append hitems (ih.value hvalue)
      rcases afterItem_ok h with hlast | ⟨more', hmore⟩
      · rw [show j = .arr (items ++ [v]) from hlast]
        exact ⟨hdepth, hall⟩
      · exact ih.array hdepth hall hmore

theorem object_fits_step {total fuel : Nat} (ih : ReadsFitting total fuel) {depth : Nat}
    {members : List (String × Json)} {bytes rest : Bytes} {j : Json}
    (hdepth : depth < JSON_DEPTH_CAP) (hmembers : FitsMembers (depth + 1) members)
    (h : object total (fuel + 1) (depth + 1) members bytes = .ok (j, rest)) : Fits depth j := by
  rw [object] at h
  split at h
  · rw [← (Prod.mk.inj (Except.ok.inj h)).1]
    exact ⟨hdepth, hmembers⟩
  split at h
  · cases h
  cases hkey : string (skip bytes).tail with
  | error e =>
    rw [hkey] at h
    cases h
  | ok result =>
    obtain ⟨key, after⟩ := result
    rw [hkey] at h
    dsimp only at h
    split at h
    · cases h
    cases hvalue : value total fuel (depth + 1) (skip after).tail with
    | error e =>
      rw [hvalue] at h
      cases h
    | ok result =>
      obtain ⟨v, more⟩ := result
      rw [hvalue] at h
      have hall : FitsMembers (depth + 1) (members ++ [(key, v)]) :=
        fitsMembers_append hmembers ⟨ih.value hvalue, trivial⟩
      rcases afterItem_ok h with hlast | ⟨more', hmore⟩
      · rw [show j = .obj (members ++ [(key, v)]) from hlast]
        exact ⟨hdepth, hall⟩
      · exact ih.object hdepth hall hmore

theorem reads_fitting (total fuel : Nat) : ReadsFitting total fuel := by
  induction fuel with
  | zero =>
    constructor
    · intro depth bytes j rest h
      cases h
    · intro depth items bytes j rest _ _ h
      cases h
    · intro depth members bytes j rest _ _ h
      cases h
  | succ fuel ih =>
    constructor
    · exact value_fits_step ih
    · exact array_fits_step ih
    · exact object_fits_step ih

theorem fits_of_parseJson {bytes : Bytes} {j : Json} (h : parseJson bytes = .ok j) : Fits 0 j := by
  unfold parseJson at h
  obtain ⟨_, _, h⟩ := bind_eq_ok.mp h
  obtain ⟨⟨v, rest⟩, hvalue, h⟩ := bind_eq_ok.mp h
  obtain ⟨_, _, h⟩ := bind_eq_ok.mp h
  rw [← pure_eq_ok.mp h]
  exact (reads_fitting _ _).value hvalue

/-! ## Fields -/

theorem foldlM_keeps {σ τ : Type} {f : σ → τ → Except CertError σ} {P : σ → Prop} {xs : List τ}
    (hstep : ∀ x ∈ xs, ∀ s s', P s → f s x = .ok s' → P s') {s s' : σ} (hs : P s)
    (h : xs.foldlM f s = .ok s') : P s' := by
  induction xs generalizing s with
  | nil => exact foldlM_nil_eq_ok.mp h ▸ hs
  | cons x xs ih =>
    obtain ⟨m, hm, hrest⟩ := foldlM_cons_eq_ok.mp h
    exact ih (fun y hy => hstep y (List.mem_cons_of_mem _ hy))
      (hstep x (List.mem_cons_self ..) s m hs hm) hrest

theorem fits_of_mem_items {depth : Nat} {items : List Json} (h : FitsItems depth items) :
    ∀ j ∈ items, Fits depth j := by
  induction items with
  | nil => exact fun j hj => absurd hj List.not_mem_nil
  | cons i items ih =>
    intro j hj
    rcases List.mem_cons.mp hj with rfl | hj
    · exact h.1
    · exact ih h.2 j hj

theorem fits_of_mem_members {depth : Nat} {members : List (String × Json)}
    (h : FitsMembers depth members) : ∀ m ∈ members, Fits depth m.2 := by
  induction members with
  | nil => exact fun j hj => absurd hj List.not_mem_nil
  | cons i members ih =>
    intro j hj
    rcases List.mem_cons.mp hj with rfl | hj
    · exact h.1
    · exact ih h.2 j hj

theorem sortKinds_sortKinds (kinds : List (String × UInt32)) :
    sortKinds (sortKinds kinds) = sortKinds kinds := by
  refine List.mergeSort_of_pairwise (List.pairwise_mergeSort ?_ ?_ kinds)
  · intro a b c hab hbc
    simp only [Bool.not_eq_true', decide_eq_false_iff_not, String.not_lt] at hab hbc ⊢
    exact String.le_trans hab hbc
  · intro a b
    simp only [Bool.or_eq_true, Bool.not_eq_true', decide_eq_false_iff_not, String.not_lt]
    exact String.le_total _ _

theorem sortIntents_sortIntents (intents : List String) :
    sortIntents (sortIntents intents) = sortIntents intents := by
  have hle : (intents.mergeSort fun a b => !decide (b < a)).Pairwise fun a b =>
      (!decide (b < a)) = true := by
    refine List.pairwise_mergeSort ?_ ?_ intents
    · intro a b c hab hbc
      simp only [Bool.not_eq_true', decide_eq_false_iff_not, String.not_lt] at hab hbc ⊢
      exact String.le_trans hab hbc
    · intro a b
      simp only [Bool.or_eq_true, Bool.not_eq_true', decide_eq_false_iff_not, String.not_lt]
      exact String.le_total _ _
  have hsub := hle.sublist (List.destutter_sublist (· ≠ ·) _)
  have hne : (sortIntents intents).IsChain (· ≠ ·) := List.isChain_destutter _ _
  have hlt : (sortIntents intents).IsChain (· < ·) := by
    refine List.isChain_iff_getElem.mpr fun i hi => ?_
    have hle := hsub.isChain.getElem i hi
    simp only [Bool.not_eq_true', decide_eq_false_iff_not, not_lt] at hle
    exact lt_of_le_of_ne hle (hne.getElem i hi)
  exact sortIntents_ordered hlt.pairwise

theorem parseClaims_sorted {v : Json} {c : Claims} (h : parseClaims v = .ok c) : c.Sorted := by
  unfold parseClaims at h
  obtain ⟨fields, _, hfold⟩ := bind_eq_ok.mp h
  have hempty : Claims.Sorted {} := ⟨sortOn_of_pairwise List.Pairwise.nil, sortIntents_ordered List.Pairwise.nil⟩
  refine foldlM_keeps (P := Claims.Sorted) (fun field _ out out' hout hstep => ?_) hempty hfold
  unfold claimsField at hstep
  split at hstep
  · simp only [bind_eq_ok, pure_eq_ok] at hstep
    obtain ⟨_, _, _, _, rfl⟩ := hstep
    exact ⟨sortKinds_sortKinds _, hout.intents⟩
  · simp only [bind_eq_ok, pure_eq_ok] at hstep
    obtain ⟨_, _, _, _, rfl⟩ := hstep
    exact ⟨hout.kinds, sortIntents_sortIntents _⟩
  · rw [← pure_eq_ok.mp hstep]
    exact hout

theorem parseModule_sorted {v : Json} {m : CertModule} (h : parseModule v = .ok m) :
    m.claims.Sorted := by
  unfold parseModule at h
  obtain ⟨fields, _, h⟩ := bind_eq_ok.mp h
  obtain ⟨s, hfold, hfinish⟩ := bind_eq_ok.mp h
  have hempty : Claims.Sorted ({} : ModuleFields).claims :=
    ⟨sortOn_of_pairwise List.Pairwise.nil, sortIntents_ordered List.Pairwise.nil⟩
  have hclaims : s.claims.Sorted := by
    refine foldlM_keeps (P := fun s : ModuleFields => s.claims.Sorted)
      (fun field _ s s' hs hstep => ?_) hempty hfold
    unfold moduleField at hstep
    split at hstep
    case h_9 =>
      obtain ⟨n, _, hstep⟩ := bind_eq_ok.mp hstep
      split at hstep
      · cases hstep
      · rw [← pure_eq_ok.mp hstep]
        exact hs
    case h_10 =>
      obtain ⟨c, hc, hstep⟩ := bind_eq_ok.mp hstep
      rw [← pure_eq_ok.mp hstep]
      exact parseClaims_sorted hc
    case h_11 =>
      rw [← pure_eq_ok.mp hstep]
      exact hs
    -- the other fields leave the claims alone
    all_goals
      obtain ⟨_, _, hstep⟩ := bind_eq_ok.mp hstep
      rw [← pure_eq_ok.mp hstep]
      exact hs
  unfold ModuleFields.finish at hfinish
  simp only [bind_eq_ok, pure_eq_ok] at hfinish
  obtain ⟨_, _, _, _, _, _, _, _, _, _, _, _, rfl⟩ := hfinish
  exact hclaims

theorem parseMember_size {v : Json} {m : Member} {depth : Nat} (hv : Fits depth v)
    (h : parseMember v = .ok m) : m.size.toNat < 2 ^ 63 := by
  unfold parseMember at h
  obtain ⟨fields, hfields, h⟩ := bind_eq_ok.mp h
  obtain ⟨s, hfold, hfinish⟩ := bind_eq_ok.mp h
  have hfits : ∀ field ∈ fields, Fits (depth + 1) field.2 := by
    unfold objMembers at hfields
    split at hfields
    · obtain rfl := Except.ok.inj hfields
      exact fits_of_mem_members hv.2
    · cases hfields
  have hsize : ∀ n ∈ s.size, n.toNat < 2 ^ 63 := by
    refine foldlM_keeps (P := fun s : MemberFields => ∀ n ∈ s.size, n.toNat < 2 ^ 63)
      (fun field hfield s s' hs hstep => ?_) (fun n hn => absurd hn (by simp)) hfold
    unfold memberField at hstep
    split at hstep
    · obtain ⟨_, _, hstep⟩ := bind_eq_ok.mp hstep
      rw [← pure_eq_ok.mp hstep]
      exact hs
    · obtain ⟨_, _, hstep⟩ := bind_eq_ok.mp hstep
      rw [← pure_eq_ok.mp hstep]
      exact hs
    · obtain ⟨size, hread, hstep⟩ := bind_eq_ok.mp hstep
      rw [← pure_eq_ok.mp hstep]
      intro n hn
      obtain rfl := Option.some.inj hn
      have hfit := hfits field hfield
      unfold objU64 at hread
      split at hread
      next i hi =>
        rw [hi] at hfit
        split at hread
        · rw [← Except.ok.inj hread, Nat.toUInt64, UInt64.toNat_ofNat']
          have hhigh := hfit.2.2
          omega
        · cases hread
      · cases hread
    · rw [← pure_eq_ok.mp hstep]
      exact hs
  unfold MemberFields.finish at hfinish
  simp only [bind_eq_ok, pure_eq_ok, expect_eq_ok] at hfinish
  obtain ⟨_, _, _, _, n, hn, rfl⟩ := hfinish
  exact hsize n hn

/-! ## The index -/

structure SoundFields (s : IndexFields) : Prop where
  claims : ∀ m ∈ s.modules, m.claims.Sorted
  sizes : ∀ m ∈ s.members, m.size.toNat < 2 ^ 63

theorem imageField_sound {s s' : IndexFields} {field : String × Json} (hs : SoundFields s)
    (h : imageField s field = .ok s') : SoundFields s' := by
  unfold imageField at h
  split at h
  · obtain ⟨_, _, h⟩ := bind_eq_ok.mp h
    rw [← pure_eq_ok.mp h]
    exact ⟨hs.claims, hs.sizes⟩
  · obtain ⟨_, _, h⟩ := bind_eq_ok.mp h
    rw [← pure_eq_ok.mp h]
    exact ⟨hs.claims, hs.sizes⟩
  · rw [← pure_eq_ok.mp h]
    exact hs

theorem parseModules_sorted {v : Json} {modules : List CertModule}
    (h : parseModules v = .ok modules) : ∀ m ∈ modules, m.claims.Sorted := by
  unfold parseModules at h
  obtain ⟨items, _, hitems⟩ := bind_eq_ok.mp h
  intro m hm
  obtain ⟨item, _, hitem⟩ := mapM_eq_ok hitems hm
  exact parseModule_sorted hitem

theorem parseMembers_size {v : Json} {members : List Member} {depth : Nat} (hv : Fits depth v)
    (h : parseMembers v = .ok members) : ∀ m ∈ members, m.size.toNat < 2 ^ 63 := by
  unfold parseMembers at h
  obtain ⟨items, harr, hitems⟩ := bind_eq_ok.mp h
  have hfits : FitsItems (depth + 1) items := by
    unfold arrItems at harr
    split at harr
    · obtain rfl := Except.ok.inj harr
      exact hv.2
    · cases harr
  intro m hm
  obtain ⟨item, hitem, hread⟩ := mapM_eq_ok hitems hm
  exact parseMember_size (fits_of_mem_items hfits item hitem) hread

theorem indexField_sound {s s' : IndexFields} {field : String × Json} (hfits : Fits 1 field.2)
    (hs : SoundFields s) (h : indexField s field = .ok s') : SoundFields s' := by
  unfold indexField at h
  split at h
  case h_2 =>
    obtain ⟨image, _, h⟩ := bind_eq_ok.mp h
    exact foldlM_keeps (fun _ _ _ _ hs hstep => imageField_sound hs hstep) hs h
  case h_6 =>
    obtain ⟨modules, hmodules, h⟩ := bind_eq_ok.mp h
    rw [← pure_eq_ok.mp h]
    exact ⟨parseModules_sorted hmodules, hs.sizes⟩
  case h_8 =>
    obtain ⟨members, hmembers, h⟩ := bind_eq_ok.mp h
    rw [← pure_eq_ok.mp h]
    exact ⟨hs.claims, parseMembers_size hfits hmembers⟩
  case h_10 =>
    rw [← pure_eq_ok.mp h]
    exact hs
  -- the other fields leave the modules and the members alone
  all_goals
    obtain ⟨_, _, h⟩ := bind_eq_ok.mp h
    rw [← pure_eq_ok.mp h]
    exact ⟨hs.claims, hs.sizes⟩

theorem readBack_of_parseIndex {bytes : Bytes} {index : CertIndex}
    (h : parseIndex bytes = .ok index) : ReadBack index := by
  unfold parseIndex at h
  obtain ⟨_, _, h⟩ := bind_eq_ok.mp h
  obtain ⟨j, hj, h⟩ := bind_eq_ok.mp h
  have hfits := fits_of_parseJson hj
  unfold indexOf at h
  obtain ⟨pairs, hpairs, h⟩ := bind_eq_ok.mp h
  obtain ⟨s, hfold, h⟩ := bind_eq_ok.mp h
  obtain ⟨index', hfinish, h⟩ := bind_eq_ok.mp h
  obtain ⟨_, _, h⟩ := bind_eq_ok.mp h
  obtain ⟨_, _, h⟩ := bind_eq_ok.mp h
  obtain rfl := pure_eq_ok.mp h
  have hmembers : ∀ field ∈ pairs, Fits 1 field.2 := by
    unfold objMembers at hpairs
    split at hpairs
    · obtain rfl := Except.ok.inj hpairs
      exact fits_of_mem_members hfits.2
    · cases hpairs
  have hempty : SoundFields {} :=
    ⟨fun m hm => absurd hm List.not_mem_nil, fun m hm => absurd hm List.not_mem_nil⟩
  have hs : SoundFields s :=
    foldlM_keeps (fun field hfield _ _ hs hstep => indexField_sound (hmembers field hfield) hs hstep)
      hempty hfold
  unfold IndexFields.finish at hfinish
  simp only [bind_eq_ok, pure_eq_ok, require_eq_ok] at hfinish
  obtain ⟨_, _, _, hschema, _, _, _, _, _, _, _, _, _, _, rfl⟩ := hfinish
  exact ⟨hschema, hs.claims, hs.sizes⟩

end Cert

end Tyu

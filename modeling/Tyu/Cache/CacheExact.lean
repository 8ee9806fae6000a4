import Tyu.Cache.BuildCache

/-!
# When the cache is right

The key of a record and the names of the files are made of a few hashes, while the compiler sees a
whole command line and many files.
-/

namespace Tyu

open Lib Lib.Json

namespace Cache

variable {langc : Compiler}

def freshVerdicts (r : Request) : Option Bytes := if r.readsSlot then some emptyVerdicts else none

def wanted (langc : Compiler) (r : Request) : Option Outcome :=
  langc.run r.langcArgs (freshVerdicts r) r.files

/-- Two requests come with the same key and the same names, and the compiler is called alike:
with the same arguments, on files of the same contents as far as it reads them. -/
structure SameWork (langc : Compiler) (r r' : Request) : Prop where
  artifact : r.artifact = r'.artifact
  key : r.key = r'.key
  slot : r.slot = r'.slot
  readsSlot : r.readsSlot = r'.readsSlot
  args : r.langcArgs = r'.langcArgs
  files : ∀ p, langc.reads r.langcArgs (freshVerdicts r) r.files p → r.files p = r'.files p

/-- Requests that share their key or the name of their object are the same work. -/
def Compatible (langc : Compiler) (r r' : Request) : Prop :=
  r.artifact = r'.artifact ∨ r.key = r'.key → SameWork langc r r'

structure Agree (langc : Compiler) (r r' : Request) : Prop where
  artifact : r.artifact = r'.artifact
  key : r.key = r'.key
  slot : r.slot = r'.slot
  readsSlot : r.readsSlot = r'.readsSlot
  wanted : wanted langc r = wanted langc r'

variable {r r' : Request} {cache : BuildCache} {e : String × ArtifactRecord} {dir dir' : OutDir}
  {past : List Request}

theorem SameWork.agree (h : SameWork langc r r') : Agree langc r r' where
  artifact := h.artifact
  key := h.key
  slot := h.slot
  readsSlot := h.readsSlot
  wanted := by
    have hrun := langc.congr r.langcArgs (freshVerdicts r) r.files r'.files h.files
    unfold Cache.wanted
    rw [hrun]
    unfold freshVerdicts
    rw [h.args, h.readsSlot]

theorem Agree.symm (h : Agree langc r r') : Agree langc r' r :=
  ⟨h.artifact.symm, h.key.symm, h.slot.symm, h.readsSlot.symm, h.wanted.symm⟩

theorem Agree.refl (r : Request) : Agree langc r r := ⟨rfl, rfl, rfl, rfl, rfl⟩

def Linked (langc : Compiler) (r r' : Request) : Prop :=
  r.artifact = r'.artifact ∨ r.key = r'.key → Agree langc r r'

theorem Compatible.linked (h : Compatible langc r r') : Linked langc r r' :=
  fun heq => (h heq).agree

theorem Linked.symm (h : Linked langc r r') : Linked langc r' r :=
  fun heq => (h (heq.imp Eq.symm Eq.symm)).symm

def Complete (langc : Compiler) (r : Request) : Prop :=
  ∃ object obl echo, wanted langc r = some ⟨some object, some obl, some echo⟩

/-- The object of a request lies in the directory and the cache has a record for its key. -/
def Kept (dir : OutDir) (r : Request) : Prop :=
  dir.files (.object r.artifact) ≠ none ∧ ∃ e ∈ dir.cache, e.1 = r.key

/-- A slot holds no record after a call that failed, and otherwise the echo of the call, with
the object and the record beside it. -/
def SlotOf (langc : Compiler) (dir : OutDir) (r : Request) (bytes : Bytes) : Prop :=
  (bytes = emptyVerdicts ∧ ¬ Complete langc r) ∨
    ((∃ object obl, wanted langc r = some ⟨some object, some obl, some bytes⟩) ∧ Kept dir r)

/-- Everything in the directory is what the compiler produces for one of the requests. -/
structure Sound (langc : Compiler) (past : List Request) (dir : OutDir) : Prop where
  linked : ∀ r ∈ past, ∀ r' ∈ past, Linked langc r r'
  record : ∀ e ∈ dir.cache, ∃ r ∈ past, r.key = e.1 ∧ r.artifact = e.2.objectPath ∧
    Complete langc r
  object : ∀ a bytes, dir.files (.object a) = some bytes →
    ∃ r ∈ past, r.artifact = a ∧ ∃ out, wanted langc r = some out ∧ out.object = some bytes
  slot : ∀ s bytes, dir.files (.slot s) = some bytes →
    ∃ r ∈ past, r.slot = s ∧ SlotOf langc dir r bytes

theorem sound_empty : Sound langc [] OutDir.empty where
  linked _ hr := absurd hr List.not_mem_nil
  record _ he := absurd he List.not_mem_nil
  object _ _ h := by cases h
  slot _ _ h := by cases h

/-! ## What one compilation does to the directory -/

@[simp] theorem OutDir.write_files (dir : OutDir) (name : FileName) (bytes : Bytes)
    (n : FileName) :
    (dir.write name bytes).files n = if n = name then some bytes else dir.files n := rfl

@[simp] theorem OutDir.write_cache (dir : OutDir) (name : FileName) (bytes : Bytes) :
    (dir.write name bytes).cache = dir.cache := rfl

theorem lookup_eq_some {key : String} {record : ArtifactRecord} (h : cache.lookup key = some record)
    :
    (key, record) ∈ cache := by
  unfold BuildCache.lookup at h
  rw [Option.map_eq_some_iff] at h
  obtain ⟨e, hfind, rfl⟩ := h
  have hkey : e.1 = key := by simpa using List.find?_some hfind
  rw [← hkey]
  exact List.mem_of_find?_eq_some hfind

theorem lookup_of_mem (h : e ∈ cache) : ∃ record, cache.lookup e.1 = some record := by
  unfold BuildCache.lookup
  cases hfind : cache.find? fun e' => e'.1 == e.1 with
  | some e' => exact ⟨e'.2, rfl⟩
  | none => exact absurd (List.find?_eq_none.mp hfind e h) (by simp)

theorem cacheHit_eq_some {cached : ArtifactRecord} :
    cacheHit dir r = some cached ↔
      dir.cache.lookup r.key = some cached ∧
      (∃ object, dir.files (.object cached.objectPath) = some object) ∧
      verdictsUsable ((dir.files (.slot r.slot)).getD []) = true := by
  unfold cacheHit
  cases hlookup : dir.cache.lookup r.key with
  | none =>
    constructor
    · nofun
    · rintro ⟨h, -⟩
      cases h
  | some record =>
    cases hobject : dir.files (.object record.objectPath) with
    | none =>
      constructor
      · intro h
        simp [hobject] at h
      · rintro ⟨h, ⟨object, h'⟩, -⟩
        rw [← Option.some.inj h, hobject] at h'
        cases h'
    | some object =>
      by_cases husable : verdictsUsable ((dir.files (.slot r.slot)).getD []) = true
      · simp only [Option.bind_eq_bind, Option.bind_some, hobject, husable, if_true]
        constructor
        · intro h
          rw [← Option.some.inj h]
          exact ⟨rfl, ⟨object, hobject⟩, trivial⟩
        · exact fun h => h.1
      · simp [husable]

theorem verdictsUsable_nil : verdictsUsable [] = false := by decide

theorem hit_of_kept (hsound : Sound langc past dir) (hr' : r' ∈ past) (hagree : Agree langc r' r)
    (hkept : Kept dir r') (husable : verdictsUsable ((dir.files (.slot r.slot)).getD []) = true) :
    ∃ cached, cacheHit dir r = some cached := by
  obtain ⟨hobject, e, he, hkey⟩ := hkept
  obtain ⟨cached, hlookup⟩ := lookup_of_mem he
  obtain ⟨r'', hr'', hkey'', hartifact, -⟩ := hsound.record _ (lookup_eq_some hlookup)
  have hsame := (hsound.linked r' hr' r'' hr'' (.inr (hkey.symm.trans hkey''.symm))).artifact
  rw [hsame, hartifact, Option.ne_none_iff_exists'] at hobject
  refine ⟨cached, cacheHit_eq_some.mpr ⟨?_, hobject, husable⟩⟩
  rw [← hagree.key, ← hkey]
  exact hlookup

/-- The slot of a call that misses holds no record: an echo that could be read would have been a
hit. -/
theorem fresh_of_miss (hsound : Sound langc past dir) (hpast : ∀ r' ∈ past, Linked langc r' r)
    (hmiss : cacheHit dir r = none) (hreads : r.readsSlot = true) :
    (prepared dir r).files (.slot r.slot) = some emptyVerdicts := by
  unfold prepared ensureVerdictsCacheFile
  rw [if_pos hreads]
  cases hslot : dir.files (.slot r.slot) with
  | none => simp
  | some bytes =>
    by_cases husable : verdictsUsable bytes = true
    · simp only [husable, if_true]
      obtain ⟨r', hr', hslot', hbytes⟩ := hsound.slot _ _ hslot
      have hagree : Agree langc r' r := hpast r' hr' (.inl (congrArg SlotName.artifact hslot'))
      rcases hbytes with ⟨hempty, -⟩ | ⟨-, hkept⟩
      · rw [hslot, hempty]
      · obtain ⟨cached, hhit⟩ := hit_of_kept hsound hr' hagree hkept (by
          rw [hslot]
          exact husable)
        rw [hmiss] at hhit
        cases hhit
    · simp [husable]

structure Compiles (langc : Compiler) (r : Request) (dir dir' : OutDir) : Prop where
  object : ∀ a, dir'.files (.object a) = dir.files (.object a) ∨
    a = r.artifact ∧ ∃ out bytes, wanted langc r = some out ∧ out.object = some bytes ∧
      dir'.files (.object a) = some bytes
  slot : ∀ s, dir'.files (.slot s) = dir.files (.slot s) ∨
    s = r.slot ∧ ∃ bytes, dir'.files (.slot s) = some bytes ∧ SlotOf langc dir' r bytes
  record : ∀ e ∈ dir'.cache, e ∈ dir.cache ∨
    e.1 = r.key ∧ e.2.objectPath = r.artifact ∧ Complete langc r
  kept : ∀ e ∈ dir.cache, ∃ e' ∈ dir'.cache, e'.1 = e.1

theorem Compiles.refl (r : Request) (dir : OutDir) : Compiles langc r dir dir where
  object _ := .inl rfl
  slot _ := .inl rfl
  record _ he := .inl he
  kept e he := ⟨e, he, rfl⟩

theorem Compiles.keeps (h : Compiles langc r dir dir') (hkept : Kept dir r') : Kept dir' r' := by
  obtain ⟨hobject, e, he, hkey⟩ := hkept
  obtain ⟨e', he', hkey'⟩ := h.kept e he
  refine ⟨?_, e', he', hkey'.trans hkey⟩
  rcases h.object r'.artifact with hsame | ⟨-, _, bytes, -, -, hnew⟩
  · rw [hsame]
    exact hobject
  · rw [hnew]
    simp

theorem Compiles.sound (h : Compiles langc r dir dir') (hsound : Sound langc past dir)
    (hpast : ∀ r' ∈ past, Linked langc r' r) : Sound langc (r :: past) dir' where
  linked := by
    intro r₁ hr₁ r₂ hr₂
    rcases List.mem_cons.mp hr₁ with h₁ | h₁ <;> rcases List.mem_cons.mp hr₂ with h₂ | h₂
    · rw [h₁, h₂]
      exact fun _ => Agree.refl r
    · rw [h₁]
      exact (hpast r₂ h₂).symm
    · rw [h₂]
      exact hpast r₁ h₁
    · exact hsound.linked r₁ h₁ r₂ h₂
  record := by
    intro e he
    rcases h.record e he with he | ⟨hkey, hartifact, hcomplete⟩
    · obtain ⟨r', hr', hof⟩ := hsound.record e he
      exact ⟨r', List.mem_cons_of_mem _ hr', hof⟩
    · exact ⟨r, List.mem_cons_self .., hkey.symm, hartifact.symm, hcomplete⟩
  object := by
    intro a bytes hbytes
    rcases h.object a with hsame | ⟨ha, out, bytes', hwanted, hobject, hnew⟩
    · rw [hsame] at hbytes
      obtain ⟨r', hr', hof⟩ := hsound.object a bytes hbytes
      exact ⟨r', List.mem_cons_of_mem _ hr', hof⟩
    · rw [hnew] at hbytes
      exact ⟨r, List.mem_cons_self .., ha.symm, out, hwanted, hobject.trans hbytes⟩
  slot := by
    intro s bytes hbytes
    rcases h.slot s with hsame | ⟨hs, bytes', hnew, hof⟩
    · rw [hsame] at hbytes
      obtain ⟨r', hr', hs, hof⟩ := hsound.slot s bytes hbytes
      exact ⟨r', List.mem_cons_of_mem _ hr', hs, hof.imp id fun hecho => ⟨hecho.1, h.keeps hecho.2⟩⟩
    · rw [hnew] at hbytes
      rw [← Option.some.inj hbytes]
      exact ⟨r, List.mem_cons_self .., hs.symm, hof⟩

theorem prepared_files (dir : OutDir) (r : Request) {n : FileName} (h : n ≠ .slot r.slot) :
    (prepared dir r).files n = dir.files n := by
  unfold prepared ensureVerdictsCacheFile
  split
  · split
    · split
      · rfl
      · rw [OutDir.write_files, if_neg h]
    · rw [OutDir.write_files, if_neg h]
  · rfl

theorem prepared_cache (dir : OutDir) (r : Request) : (prepared dir r).cache = dir.cache := by
  unfold prepared ensureVerdictsCacheFile
  split
  · split
    · split <;> rfl
    · rfl
  · rfl

theorem prepared_slot (hsound : Sound langc past dir) (hpast : ∀ r' ∈ past, Linked langc r' r)
    (hmiss : cacheHit dir r = none) (s : SlotName) :
    (prepared dir r).files (.slot s) = dir.files (.slot s) ∨
      s = r.slot ∧ (prepared dir r).files (.slot s) = some emptyVerdicts := by
  by_cases hs : s = r.slot
  · cases hreads : r.readsSlot with
    | true =>
      rw [hs]
      exact .inr ⟨rfl, fresh_of_miss hsound hpast hmiss hreads⟩
    | false =>
      refine .inl ?_
      unfold prepared
      rw [hreads]
      rfl
  · exact .inl (prepared_files dir r fun h => hs (FileName.slot.inj h))

theorem Compiles.of_incomplete (hsound : Sound langc past dir)
    (hpast : ∀ r' ∈ past, Linked langc r' r) (hmiss : cacheHit dir r = none)
    (hfails : ¬ Complete langc r) (hcache : dir'.cache = dir.cache)
    (hslots : ∀ s, dir'.files (.slot s) = (prepared dir r).files (.slot s))
    (hobjects : ∀ a, dir'.files (.object a) = dir.files (.object a) ∨
      a = r.artifact ∧ ∃ out bytes, wanted langc r = some out ∧ out.object = some bytes ∧
        dir'.files (.object a) = some bytes) : Compiles langc r dir dir' where
  object := hobjects
  slot s := by
    rw [hslots s]
    refine (prepared_slot hsound hpast hmiss s).imp id fun h => ?_
    exact ⟨h.1, emptyVerdicts, h.2, .inl ⟨rfl, hfails⟩⟩
  record e he := .inl (hcache ▸ he)
  kept e he := ⟨e, hcache ▸ he, rfl⟩

theorem object_write {out : Outcome} {bytes : Bytes} (hwanted : wanted langc r = some out)
    (hobject : out.object = some bytes) (hfiles : ∀ a, dir'.files (.object a) =
      if a = r.artifact then some bytes else (prepared dir r).files (.object a)) (a : ArtifactName)
    :
    dir'.files (.object a) = dir.files (.object a) ∨
      a = r.artifact ∧ ∃ out bytes, wanted langc r = some out ∧ out.object = some bytes ∧
        dir'.files (.object a) = some bytes := by
  rw [hfiles a]
  by_cases ha : a = r.artifact
  · rw [if_pos ha]
    exact .inr ⟨ha, out, bytes, hwanted, hobject, rfl⟩
  · rw [if_neg ha]
    exact .inl (prepared_files dir r (by simp))

theorem mem_insert {key : String} {record : ArtifactRecord} (h : e ∈ cache.insert key record) :
    e ∈ cache ∨ e = (key, record) := by
  rcases List.mem_cons.mp h with h | h
  · exact .inr h
  · exact .inl (List.mem_of_mem_filter h)

theorem insert_keeps (cache : BuildCache) (key : String) (record : ArtifactRecord) (h : e ∈ cache) :
    ∃ e' ∈ cache.insert key record, e'.1 = e.1 := by
  by_cases hkey : e.1 = key
  · exact ⟨(key, record), List.mem_cons_self .., hkey.symm⟩
  · refine ⟨e, List.mem_cons_of_mem _ (List.mem_filter.mpr ⟨h, ?_⟩), rfl⟩
    simpa using hkey

/-- The one thing that a call which misses does: what the compiler produces in an empty
directory goes under the names of the request. -/
theorem compileModule_miss (hsound : Sound langc past dir) (hpast : ∀ r' ∈ past, Linked langc r' r)
    (hmiss : cacheHit dir r = none) :
    compileModule langc r dir =
      match wanted langc r with
      | none => (.error .langcFailed, prepared dir r)
      | some out => rehome (prepared dir r) r out := by
  have hverdicts : (if r.readsSlot then (prepared dir r).files (.slot r.slot) else none) =
      freshVerdicts r := by
    unfold freshVerdicts
    cases hreads : r.readsSlot with
    | true => exact fresh_of_miss hsound hpast hmiss hreads
    | false => rfl
  unfold compileModule wanted
  rw [hmiss]
  dsimp only
  exact hverdicts ▸ rfl

theorem compileModule_compiles (hsound : Sound langc past dir)
    (hpast : ∀ r' ∈ past, Linked langc r' r) :
    Compiles langc r dir (compileModule langc r dir).2 := by
  cases hmiss : cacheHit dir r with
  | some cached =>
    unfold compileModule
    rw [hmiss]
    exact Compiles.refl r dir
  | none =>
    rw [compileModule_miss hsound hpast hmiss]
    have hfails : ∀ {out : Outcome}, wanted langc r = some out →
        (out.object = none ∨ out.obl = none ∨ out.echo = none) → ¬ Complete langc r := by
      rintro out hwanted hpart ⟨object, obl, echo, hwanted'⟩
      rw [Option.some.inj (hwanted.symm.trans hwanted')] at hpart
      simp at hpart
    cases hwanted : wanted langc r with
    | none =>
      refine .of_incomplete hsound hpast hmiss ?_ (prepared_cache dir r) (fun _ => rfl)
        fun a => .inl (prepared_files dir r (by simp))
      rintro ⟨object, obl, echo, hwanted'⟩
      rw [hwanted] at hwanted'
      cases hwanted'
    | some out =>
      obtain ⟨object, obl, echo⟩ := out
      have hfails := hfails hwanted
      cases object with
      | none =>
        exact .of_incomplete hsound hpast hmiss (hfails (.inl rfl)) (prepared_cache dir r)
          (fun _ => rfl) fun a => .inl (prepared_files dir r (by simp))
      | some object =>
        cases obl with
        | none =>
          refine .of_incomplete hsound hpast hmiss (hfails (.inr (.inl rfl))) (prepared_cache dir r)
            (fun s => ?_) (object_write hwanted rfl fun a => ?_)
          · simp [rehome]
          · simp [rehome]
        | some obl =>
          cases echo with
          | none =>
            refine .of_incomplete hsound hpast hmiss (hfails (.inr (.inr rfl)))
              (prepared_cache dir r) (fun s => ?_) (object_write hwanted rfl fun a => ?_)
            · simp [rehome]
            · simp [rehome]
          | some echo =>
            refine ⟨object_write hwanted rfl fun a => ?_, fun s => ?_, fun e he => ?_, fun e he => ?_⟩
            · simp [rehome, insertRecord]
            · by_cases hs : s = r.slot
              · refine .inr ⟨hs, echo, ?_, .inr ⟨⟨object, obl, hwanted⟩, ?_, ?_⟩⟩
                · simp [rehome, insertRecord, hs]
                · simp [rehome, insertRecord]
                · exact ⟨_, List.mem_cons_self .., rfl⟩
              · refine .inl ?_
                rw [← prepared_files dir r fun h => hs (FileName.slot.inj h)]
                simp [rehome, insertRecord, hs]
            · rcases mem_insert he with he | rfl
              · rw [OutDir.write_cache, OutDir.write_cache, OutDir.write_cache, prepared_cache] at he
                exact .inl he
              · exact .inr ⟨rfl, rfl, object, obl, echo, hwanted⟩
            · rw [← prepared_cache dir r] at he
              exact insert_keeps _ _ _ he

theorem isDead_slot {live fps : List ArtifactName} {slug : String} {s : SlotName}
    (hlive : s.artifact ∈ live) (hdead : isDead dir live fps slug (.object s.artifact) = true) :
    isDead dir live fps slug (.slot s) = true := by
  simp only [isDead, Bool.and_eq_true, Bool.or_eq_true, Bool.not_eq_true',
    List.contains_eq_mem, decide_eq_false_iff_not] at hdead ⊢
  obtain ⟨⟨hfps, -⟩, hstale | hgone⟩ := hdead
  · refine ⟨?_, .inl (.inr hstale)⟩
    rw [decide_eq_false hfps, Bool.false_and]
  · exact absurd hlive hgone

theorem Sound.prune (hsound : Sound langc past dir) (fps : List ArtifactName) (slug : String) :
    Sound langc past (pruneOutDir dir fps slug) where
  linked := hsound.linked
  record e he := hsound.record e (List.mem_of_mem_filter (List.mem_of_mem_filter he))
  object := by
    intro a bytes hbytes
    dsimp only [pruneOutDir] at hbytes
    split at hbytes
    next => cases hbytes
    next => exact hsound.object a bytes hbytes
  slot := by
    intro s bytes hbytes
    dsimp only [pruneOutDir] at hbytes
    split at hbytes
    next => cases hbytes
    next hlives =>
      obtain ⟨r, hr, hs, hof⟩ := hsound.slot s bytes hbytes
      refine ⟨r, hr, hs, hof.imp id fun ⟨hecho, hobject, e, he, hkey⟩ => ⟨hecho, ?_⟩⟩
      obtain ⟨r', hr', hkey', hartifact, -⟩ := hsound.record e he
      have hpath : e.2.objectPath = r.artifact := by
        rw [← hartifact]
        exact (hsound.linked r' hr' r hr (.inr (hkey'.trans hkey))).artifact
      have hexists : (dir.files (.object e.2.objectPath)).isSome = true := by
        rw [hpath]
        exact Option.isSome_iff_ne_none.mpr hobject
      have hmem : e ∈ dir.cache.filter fun e => (dir.files (.object e.2.objectPath)).isSome :=
        List.mem_filter.mpr ⟨he, hexists⟩
      have hlive : s.artifact ∈ (dir.cache.filter fun e =>
          (dir.files (.object e.2.objectPath)).isSome).map fun e => e.2.objectPath := by
        rw [← hs]
        exact List.mem_map.mpr ⟨e, hmem, hpath⟩
      have hkeeps : ¬ isDead dir _ fps slug (.object r.artifact) = true := fun hdead =>
        hlives (isDead_slot hlive (by rw [← hs]; exact hdead))
      refine ⟨?_, e, List.mem_filter.mpr ⟨hmem, ?_⟩, hkey⟩
      · dsimp only [pruneOutDir]
        rw [if_neg hkeeps]
        exact hobject
      · rw [hpath]
        simpa using hkeeps

def StepFits (langc : Compiler) (w : Workspace) : Prop :=
  ∀ b r todo, w.running = some (b, r :: todo) → ∀ r' ∈ w.past, Compatible langc r' r

theorem step_sound {w w' : Workspace} (hsound : Sound langc w.past w.dir)
    (hfits : StepFits langc w) (h : Step langc w w') : Sound langc w'.past w'.dir := by
  cases h with
  | start idle => exact ⟨hsound.linked, hsound.record, hsound.object, hsound.slot⟩
  | @compile b r todo done dir next result =>
    have hpast := fun r' hr' => (hfits b r todo next r' hr').linked
    have hcompiles := compileModule_compiles hsound hpast
    rw [result] at hcompiles
    exact hcompiles.sound hsound hpast
  | @refuse b r todo e dir next result =>
    have hpast := fun r' hr' => (hfits b r todo next r' hr').linked
    have hcompiles := compileModule_compiles hsound hpast
    rw [result] at hcompiles
    exact hcompiles.sound hsound hpast
  | @finish b next => exact hsound.prune b.builtFps b.verifyEnv.slug
  | abandon next => exact hsound

theorem history_sound {w : Workspace} (h : (history langc).Reach (StepFits langc) w) :
    Sound langc w.past w.dir := by
  refine h.invariant (I := fun w => Sound langc w.past w.dir) ?_ fun s s' => step_sound
  rintro w rfl
  exact sound_empty

/-- The object of a record and the echo in the slot are what the compiler produces for the
request. -/
def ServesWanted (langc : Compiler) (dir : OutDir) (r : Request) (cached : ArtifactRecord) : Prop :=
  ∃ out, wanted langc r = some out ∧ out.object ≠ none ∧ out.echo ≠ none ∧
    dir.files (.object cached.objectPath) = out.object ∧ dir.files (.slot r.slot) = out.echo

theorem Sound.serves {cached : ArtifactRecord} (hsound : Sound langc past dir)
    (hpast : ∀ r' ∈ past, Linked langc r' r) (hhit : cacheHit dir r = some cached) :
    ServesWanted langc dir r cached := by
  obtain ⟨hlookup, ⟨bytes, hobject⟩, husable⟩ := cacheHit_eq_some.mp hhit
  obtain ⟨r₀, hr₀, hkey, hpath, object, obl, echo, hwanted⟩ :=
    hsound.record _ (lookup_eq_some hlookup)
  have hagree := hpast r₀ hr₀ (.inr hkey)
  obtain ⟨r₁, hr₁, hartifact, out, hout, hbytes⟩ := hsound.object _ _ hobject
  have hagree₁ := hpast r₁ hr₁ (.inl (hartifact.trans (hpath.symm.trans hagree.artifact)))
  rw [hagree.wanted] at hwanted
  rw [hagree₁.wanted, hwanted] at hout
  rw [← Option.some.inj hout] at hbytes
  refine ⟨_, hwanted, by simp, by simp, hobject.trans hbytes.symm, ?_⟩
  cases hslot : dir.files (.slot r.slot) with
  | none =>
    rw [hslot, Option.getD_none, verdictsUsable_nil] at husable
    cases husable
  | some bytes' =>
    obtain ⟨r₂, hr₂, hs, hof⟩ := hsound.slot _ _ hslot
    have hagree₂ := hpast r₂ hr₂ (.inl (congrArg SlotName.artifact hs))
    rcases hof with ⟨-, hfails⟩ | ⟨⟨object', obl', hecho⟩, -⟩
    · refine absurd ⟨object, obl, echo, ?_⟩ hfails
      rw [hagree₂.wanted, hwanted]
    · rw [hagree₂.wanted, hwanted] at hecho
      injection hecho with hecho
      injection hecho with _ _ hecho
      exact hecho.symm

/-- In a history in which compilations that share a key or a name are the same compilation,
every hit serves what the compiler would produce. -/
theorem cache_serves_wanted {w : Workspace} (h : (history langc).Reach (StepFits langc) w)
    {b : Build} {r : Request} {todo : List Request} {cached : ArtifactRecord}
    (hnext : w.running = some (b, r :: todo)) (hfits : StepFits langc w)
    (hhit : cacheHit w.dir r = some cached) : ServesWanted langc w.dir r cached :=
  (history_sound h).serves (fun r' hr' => (hfits b r todo hnext r' hr').linked) hhit

/-! ## Two builds of one program -/

/-- A compiler that keeps a check under the `proven` policy and drops it otherwise, on the word of
the interval analysis. -/
def sampleOutcome (args : List String) : Outcome :=
  if "--verify-policy=proven" ∈ args then
    ⟨some (utf8 "checked"), some (utf8 "artifact"), some emptyVerdicts⟩
  else
    ⟨some (utf8 "unchecked"), some (utf8 "artifact"),
      some (write (VerdictFile.verdictsTree (Summary.harvestInput "unmodeled")))⟩

def sampleLangc : Compiler where
  run args _ _ := some (sampleOutcome args)
  reads _ _ _ _ := False
  congr _ _ _ _ _ := rfl

def sampleBuild (policy : Report.VerifyPolicy) : Build where
  outDir := "out"
  triple := "x86_64"
  features := 0
  verify := .on
  verifyPolicy := policy
  verifyTool := none
  elideStackGuards := false
  mainDischarged := false
  includeDirs := []
  sysroot := none
  platform := none
  compilerFingerprint := 1
  abiHash := 2
  verifyEnv := Summary.bankEnv
  modules := [⟨"Bank", "Bank.mod", false, []⟩]
  harvest := []
  artifacts := []
  refinements := none
  files := fun p => if p = "Bank.mod" then some (utf8 "module Bank;") else none

def sampleRequest (policy : Report.VerifyPolicy) : Request :=
  (sampleBuild policy).request ⟨"Bank", "Bank.mod", false, []⟩ (sortHashes []).eraseReps

theorem verdicts_arg_ne (path : String) : "--verify-policy=proven" ≠ "--verdicts=" ++ path := by
  intro h
  have hchar : "--verify-policy=proven".toList[5]? = ("--verdicts=" ++ path).toList[5]? :=
    congrArg (fun s => s.toList[5]?) h
  rw [String.toList_append, List.getElem?_append_left (by decide)] at hchar
  exact absurd hchar (by decide)

theorem sample_wanted_openOk : wanted sampleLangc (sampleRequest .openOk) =
    some ⟨some (utf8 "unchecked"), some (utf8 "artifact"),
      some (write (VerdictFile.verdictsTree (Summary.harvestInput "unmodeled")))⟩ := by
  have hargs : "--verify-policy=proven" ∉ (sampleRequest .openOk).langcArgs := by
    simp [Request.langcArgs, sampleRequest, Build.request, sampleBuild, featureFlags,
      verdicts_arg_ne, Manifest.MODEL_UNMODELED, Manifest.CONCURRENCY_UNMODELED]
  exact congrArg some (if_neg hargs)

theorem sample_wanted_proven : wanted sampleLangc (sampleRequest .proven) =
    some ⟨some (utf8 "checked"), some (utf8 "artifact"), some emptyVerdicts⟩ := by
  have hargs : "--verify-policy=proven" ∈ (sampleRequest .proven).langcArgs := by
    simp [Request.langcArgs, sampleRequest, Build.request, sampleBuild]
  exact congrArg some (if_pos hargs)

/-- The directory after a build of the program under `open-ok`. -/
def sampleDir : OutDir :=
  (compileModule sampleLangc (sampleRequest .openOk) OutDir.empty).2

def nextBuild (policy : Report.VerifyPolicy) : Workspace where
  dir := { pruneOutDir sampleDir [(sampleRequest .openOk).artifact] Summary.bankEnv.slug with
    written := [] }
  past := [sampleRequest .openOk]
  running := some (sampleBuild policy, [sampleRequest policy])

theorem sample_compiled : compileModule sampleLangc (sampleRequest .openOk) OutDir.empty =
    rehome (prepared OutDir.empty (sampleRequest .openOk)) (sampleRequest .openOk)
      ⟨some (utf8 "unchecked"), some (utf8 "artifact"),
        some (write (VerdictFile.verdictsTree (Summary.harvestInput "unmodeled")))⟩ := by
  rw [compileModule_miss sound_empty (fun _ h => absurd h List.not_mem_nil) rfl,
    sample_wanted_openOk]

theorem nextBuild_reach (policy : Report.VerifyPolicy) :
    (history sampleLangc).Reach (StepFits sampleLangc) (nextBuild policy) := by
  have hfits : ∀ {w : Workspace}, w.past = [] ∨ w.running = none ∨
      (∃ b, w.running = some (b, [])) → StepFits sampleLangc w := by
    intro w hw b r todo hrun r' hr'
    rcases hw with hpast | hidle | ⟨b', hdone⟩
    · rw [hpast] at hr'
      exact absurd hr' List.not_mem_nil
    · rw [hidle] at hrun
      cases hrun
    · rw [hdone] at hrun
      cases hrun
  have hempty : (history sampleLangc).Reach (StepFits sampleLangc) ⟨OutDir.empty, [], none⟩ :=
    .start rfl
  have hstarted := System.Reach.next hempty (hfits (.inl rfl))
    (Step.start (b := sampleBuild .openOk) rfl)
  have hcompiled := System.Reach.next hstarted (hfits (.inl rfl))
    (Step.compile rfl sample_compiled)
  have hpruned := System.Reach.next hcompiled (hfits (.inr (.inr ⟨_, rfl⟩))) (Step.finish rfl)
  have hnext := System.Reach.next hpruned (hfits (.inr (.inl rfl)))
    (Step.start (b := sampleBuild policy) rfl)
  have hdir : sampleDir = (rehome (prepared OutDir.empty (sampleRequest .openOk))
      (sampleRequest .openOk) ⟨some (utf8 "unchecked"), some (utf8 "artifact"),
        some (write (VerdictFile.verdictsTree (Summary.harvestInput "unmodeled")))⟩).2 := by
    rw [sampleDir, sample_compiled]
  unfold nextBuild
  rw [hdir]
  exact hnext

theorem sampleEcho_usable : verdictsUsable
    (write (VerdictFile.verdictsTree (Summary.harvestInput "unmodeled"))) = true := by
  unfold verdictsUsable
  rw [Summary.readVerdicts_harvest (by decide) (by decide +kernel)]

theorem nextBuild_hit (policy : Report.VerifyPolicy) :
    ∃ cached, cacheHit (nextBuild policy).dir (sampleRequest policy) = some cached ∧
      (nextBuild policy).dir.files (.object cached.objectPath) = some (utf8 "unchecked") := by
  have hkey : (sampleRequest policy).key = (sampleRequest .openOk).key := rfl
  have hslot : (sampleRequest policy).slot = (sampleRequest .openOk).slot := rfl
  have hslug : (sampleRequest .openOk).slot.slug = Summary.bankEnv.slug := rfl
  have hartifact : (sampleRequest .openOk).slot.artifact = (sampleRequest .openOk).artifact := rfl
  have hdir : sampleDir = (rehome (prepared OutDir.empty (sampleRequest .openOk))
      (sampleRequest .openOk) ⟨some (utf8 "unchecked"), some (utf8 "artifact"),
        some (write (VerdictFile.verdictsTree (Summary.harvestInput "unmodeled")))⟩).2 := by
    rw [sampleDir, sample_compiled]
  have hobject : sampleDir.files (.object (sampleRequest .openOk).artifact) =
      some (utf8 "unchecked") := by
    rw [hdir]
    simp [rehome, insertRecord]
  have hecho : sampleDir.files (.slot (sampleRequest .openOk).slot) =
      some (write (VerdictFile.verdictsTree (Summary.harvestInput "unmodeled"))) := by
    rw [hdir]
    simp [rehome, insertRecord]
  let record : ArtifactRecord := ⟨(sampleRequest .openOk).compilerFp, (sampleRequest .openOk).inputsFp,
    (sampleRequest .openOk).abiHash, (sampleRequest .openOk).features, "x86_64",
    (sampleRequest .openOk).artifact⟩
  have hcache : sampleDir.cache = [((sampleRequest .openOk).key, record)] := by
    rw [hdir]
    rfl
  have hlives : ∀ live, isDead sampleDir live [(sampleRequest .openOk).artifact]
      Summary.bankEnv.slug (.object (sampleRequest .openOk).artifact) = false := by
    intro live
    simp [isDead]
  have hkeeps : ∀ live, isDead sampleDir live [(sampleRequest .openOk).artifact]
      Summary.bankEnv.slug (.slot (sampleRequest .openOk).slot) = false := by
    intro live
    simp [isDead, hslug, hartifact]
  have hrecord : (nextBuild policy).dir.cache = [((sampleRequest .openOk).key, record)] := by
    simp [nextBuild, pruneOutDir, hcache, hobject, hlives, record]
  have hfile : (nextBuild policy).dir.files (.object (sampleRequest .openOk).artifact) =
      some (utf8 "unchecked") := by
    simp [nextBuild, pruneOutDir, hobject, hlives]
  have hslotFile : (nextBuild policy).dir.files (.slot (sampleRequest .openOk).slot) =
      some (write (VerdictFile.verdictsTree (Summary.harvestInput "unmodeled"))) := by
    simp [nextBuild, pruneOutDir, hecho, hkeeps]
  refine ⟨record, cacheHit_eq_some.mpr ⟨?_, ⟨_, hfile⟩, ?_⟩, hfile⟩
  · rw [hrecord, hkey]
    simp [BuildCache.lookup]
  · rw [hslot, hslotFile]
    exact sampleEcho_usable

/-- The same build again: the hit serves what the compiler would produce. -/
theorem same_build_served :
    ∃ cached, cacheHit (nextBuild .openOk).dir (sampleRequest .openOk) = some cached ∧
      ServesWanted sampleLangc (nextBuild .openOk).dir (sampleRequest .openOk) cached := by
  obtain ⟨cached, hhit, -⟩ := nextBuild_hit .openOk
  have hfits : StepFits sampleLangc (nextBuild .openOk) := by
    intro b r todo hrun r' hr' _
    have hr : r = sampleRequest .openOk := by
      injection hrun with hrun
      injection hrun with _ hrun
      injection hrun with hrun
      exact hrun.symm
    rw [hr, List.mem_singleton.mp hr']
    exact ⟨rfl, rfl, rfl, rfl, rfl, fun _ _ => rfl⟩
  exact ⟨cached, hhit, cache_serves_wanted (nextBuild_reach .openOk) rfl hfits hhit⟩

/-- A build under the `proven` policy after one under `open-ok`: the hit serves the object without
the check. -/
theorem policy_not_in_key :
    ∃ cached, (history sampleLangc).Reachable (nextBuild .proven) ∧
      (nextBuild .proven).running = some (sampleBuild .proven, [sampleRequest .proven]) ∧
      cacheHit (nextBuild .proven).dir (sampleRequest .proven) = some cached ∧
      ¬ ServesWanted sampleLangc (nextBuild .proven).dir (sampleRequest .proven) cached := by
  obtain ⟨cached, hhit, hobject⟩ := nextBuild_hit .proven
  refine ⟨cached, (nextBuild_reach .proven).reachable, rfl, hhit, ?_⟩
  rintro ⟨out, hwanted, -, -, hserved, -⟩
  rw [sample_wanted_proven] at hwanted
  rw [hobject, ← Option.some.inj hwanted, Option.some_inj, utf8_inj] at hserved
  exact absurd hserved (by decide)

end Cache

end Tyu

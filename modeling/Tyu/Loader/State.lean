import Tyu.Lib.Transaction
import Tyu.Loader.ModInfo
import Tyu.Loader.Signature

/-! # The symbol map -/

namespace Tyu

open Lib Lib.Wire

def fnv1aU64 (bytes : Bytes) : UInt64 :=
  bytes.foldl (fun h b => (h ^^^ b.toUInt64) * 1099511628211) 14695981039346656037

inductive SymError where
  | conflict
  | hashCollision
  | full

def SymError.code : SymError → UInt32
  | .conflict => 5206
  | .hashCollision => 5207
  | .full => 5209

structure SymEntry where
  hash : UInt64
  name : Bytes
  addr : UInt64
deriving DecidableEq

def SYMBOL_CAP : Nat := 256

abbrev SymMap := Journal SymEntry SYMBOL_CAP

namespace SymMap

def refuses (existing : SymEntry) (hash : UInt64) (name : Bytes) : Option SymError :=
  if name ≠ [] ∧ existing.name ≠ [] ∧ existing.name = name then some .conflict
  else if existing.hash = hash then some .hashCollision
  else none

def registerWithHash (map : SymMap) (hash : UInt64) (name : Bytes) (addr : UInt64) :
    Except SymError SymMap :=
  match map.items.findSome? fun existing => refuses existing hash name with
  | some e => .error e
  | none => expect (map.append { hash, name, addr }) .full

def register (map : SymMap) (name : Bytes) (addr : UInt64) : Except SymError SymMap :=
  map.registerWithHash (fnv1aU64 name) name addr

def registerRuntimeHash (map : SymMap) (hash addr : UInt64) : Except SymError SymMap :=
  map.registerWithHash hash [] addr

def symtabEntries : Nat → Bytes → List (UInt64 × UInt64)
  | 0, _ => []
  | n + 1, bytes =>
    (UInt64.ofNat (getLE (bytes.take 8)), UInt64.ofNat (getLE ((bytes.take 16).drop 8))) ::
      symtabEntries n (bytes.drop 16)

def symtab (bytes : Bytes) : Option (List (UInt64 × UInt64)) :=
  if bytes.length < 8 then none
  else
    let count := getLE (bytes.take 4)
    if bytes.length < 8 + count * 16 then none
    else some (symtabEntries count (bytes.drop 8))

/-- Every entry of a generated table.  A refused entry ends it; the ones before it stay. -/
def registerEntries (map : SymMap) : List (UInt64 × UInt64) → Except SymError Unit × SymMap
  | [] => (.ok (), map)
  | (hash, addr) :: rest =>
    match map.registerRuntimeHash hash addr with
    | .ok map' => registerEntries map' rest
    | .error e => (.error e, map)

def registerSymtabBytes (map : SymMap) (bytes : Bytes) : Except SymError Nat × SymMap :=
  match symtab bytes with
  | none => (.error .conflict, map)
  | some entries =>
    let (result, map') := map.registerEntries entries
    (result.map fun _ => entries.length, map')

def lookupByHash (map : SymMap) (hash : UInt64) : Option SymEntry :=
  map.items.find? fun e => e.hash = hash

def lookupByName (map : SymMap) (name : Bytes) : Option SymEntry :=
  (map.lookupByHash (fnv1aU64 name)).filter fun e => e.name = name

def Fresh (map : SymMap) (hash : UInt64) (name : Bytes) : Prop :=
  ∀ e ∈ map.items, e.hash ≠ hash ∧ (name ≠ [] → e.name ≠ name)

theorem refuses_eq_none {e : SymEntry} {hash : UInt64} {name : Bytes} :
    refuses e hash name = none ↔ e.hash ≠ hash ∧ (name ≠ [] → e.name ≠ name) := by
  unfold refuses
  by_cases hname : name ≠ [] ∧ e.name ≠ [] ∧ e.name = name
  · rw [if_pos hname]
    constructor
    · intro h
      cases h
    · intro h
      exact absurd hname.2.2 (h.2 hname.1)
  · rw [if_neg hname]
    by_cases hhash : e.hash = hash
    · rw [if_pos hhash]
      constructor
      · intro h
        cases h
      · intro h
        exact absurd hhash h.1
    · rw [if_neg hhash]
      refine ⟨fun _ => ⟨hhash, fun hne heq => hname ⟨hne, ?_, heq⟩⟩, fun _ => rfl⟩
      rw [heq]
      exact hne

theorem registerWithHash_eq_ok {map map' : SymMap} {hash addr : UInt64} {name : Bytes} :
    map.registerWithHash hash name addr = .ok map' ↔
      map.Fresh hash name ∧ map.append { hash, name, addr } = some map' := by
  unfold registerWithHash Fresh
  cases hfind : map.items.findSome? fun existing => refuses existing hash name with
  | none =>
    rw [List.findSome?_eq_none_iff] at hfind
    rw [expect_eq_ok]
    exact ⟨fun h => ⟨fun e he => refuses_eq_none.mp (hfind e he), h⟩, fun h => h.2⟩
  | some err =>
    constructor
    · intro h
      cases h
    · intro ⟨hfresh, _⟩
      obtain ⟨e, he, hrefuses⟩ := List.exists_of_findSome?_eq_some hfind
      rw [refuses_eq_none.mpr (hfresh e he)] at hrefuses
      cases hrefuses

theorem extends_registerWithHash {map map' : SymMap} {hash addr : UInt64} {name : Bytes}
    (h : map.registerWithHash hash name addr = .ok map') : map.Extends map' :=
  Journal.extends_append (registerWithHash_eq_ok.mp h).2

theorem items_registerWithHash {map map' : SymMap} {hash addr : UInt64} {name : Bytes}
    (h : map.registerWithHash hash name addr = .ok map') :
    map'.items = map.items ++ [{ hash := hash, name := name, addr := addr }] :=
  (Journal.append_eq_some.mp (registerWithHash_eq_ok.mp h).2).2

end SymMap

/-!
## The loader's state

What a load changes: the platform, the symbol map, the set of loaded modules and the
registry of apertures.  The state also records the addresses of the code that was called.
-/

inductive Stop where
  | error (e : LoadError)
  | panic
deriving DecidableEq

def LOADED_CAP : Nat := 64

abbrev LoadedSet := Journal UInt64 LOADED_CAP

namespace LoadedSet

def contains (set : LoadedSet) (id : UInt64) : Bool := set.items.contains id

def insert (set : LoadedSet) (id : UInt64) : Except LoadError LoadedSet :=
  if set.contains id then .error .moduleAlreadyLoaded
  else expect (set.append id) .moduleAlreadyLoaded

end LoadedSet

def APERTURE_TABLE_CAP : Nat := 8

abbrev ApertureRegistry := Journal (UInt16 × UInt64) APERTURE_TABLE_CAP

namespace ApertureRegistry

def isBound (registry : ApertureRegistry) (id : UInt16) : Bool :=
  registry.items.any fun b => b.1 = id

def reserve (registry : ApertureRegistry) (id : UInt16) (owner : UInt64) :
    Except LoadError ApertureRegistry :=
  if registry.isBound id then .error .apertureConflict
  else expect (registry.append (id, owner)) .apertureConflict

theorem extends_reserve {r r' : ApertureRegistry} {id : UInt16} {owner : UInt64}
    (h : r.reserve id owner = .ok r') : r.Extends r' := by
  unfold reserve at h
  split at h
  · cases h
  · exact Journal.extends_append (expect_eq_ok.mp h)

end ApertureRegistry

structure Loader (σ : Type) where
  platform : σ
  map : SymMap
  loaded : LoadedSet
  registry : ApertureRegistry
  calls : List UInt64

abbrev Load (σ α : Type) := Stoppable Stop (Loader σ) α

namespace Load

variable {σ α : Type}

def fail (e : LoadError) : Load σ α := Stoppable.stop (.error e)

def check (c : Prop) [Decidable c] (e : LoadError) : Load σ Unit :=
  Stoppable.ofExcept (require c (.error e))

def orPanic (o : Option α) : Load σ α := Stoppable.ofExcept (expect o .panic)

def ask (f : σ → α) : Load σ α := fun s => (.ok (f s.platform), s)

def operate (op : σ → Except UInt32 α × σ) : Load σ α := fun s =>
  match op s.platform with
  | (.ok a, p) => (.ok a, { s with platform := p })
  | (.error code, p) => (.error (.error (LoadError.ofCode code)), { s with platform := p })

theorem check_eq_ok {c : Prop} [Decidable c] {e : LoadError} {s s' : Loader σ} {u : Unit} :
    check c e s = (.ok u, s') ↔ c ∧ s = s' := by
  unfold check
  rw [Stoppable.ofExcept_eq_ok, require_eq_ok]

theorem orPanic_eq_ok {o : Option α} {s s' : Loader σ} {a : α} :
    orPanic o s = (.ok a, s') ↔ o = some a ∧ s = s' := by
  unfold orPanic
  rw [Stoppable.ofExcept_eq_ok, expect_eq_ok]

theorem ask_eq_ok {f : σ → α} {s s' : Loader σ} {a : α} :
    ask f s = (.ok a, s') ↔ f s.platform = a ∧ s = s' := by
  simp [ask]

end Load

def Read.orError {α : Type} (r : Read α) (e : LoadError) : Except Stop α :=
  match r.run with
  | some (some a) => .ok a
  | some none => .error (.error e)
  | none => .error .panic

theorem Read.orError_eq_ok {α : Type} {r : Read α} {e : LoadError} {a : α} :
    r.orError e = .ok a ↔ r.run = some (some a) := by
  unfold Read.orError
  split <;> simp_all

/-! ## Frames -/

/-- The map and the registry may have grown; everything else that a failed load must leave
alone is as it was. -/
structure Loader.Grows {σ : Type} (s s' : Loader σ) : Prop where
  map : s.map.Extends s'.map
  loaded : s'.loaded = s.loaded
  registry : s.registry.Extends s'.registry

structure Loader.Reserves {σ : Type} (s s' : Loader σ) : Prop where
  map : s'.map = s.map
  loaded : s'.loaded = s.loaded
  registry : s.registry.Extends s'.registry
  calls : s'.calls = s.calls

structure Loader.Quiet {σ : Type} (s s' : Loader σ) : Prop where
  map : s'.map = s.map
  loaded : s'.loaded = s.loaded
  registry : s'.registry = s.registry
  calls : s'.calls = s.calls

namespace Loader

variable {σ α : Type}

theorem Grows.refl (s : Loader σ) : s.Grows s := ⟨.refl _, rfl, .refl _⟩

theorem Grows.trans (s m s' : Loader σ) (h : s.Grows m) (h' : m.Grows s') : s.Grows s' :=
  ⟨h.map.trans h'.map, h'.loaded.trans h.loaded, h.registry.trans h'.registry⟩

theorem Quiet.refl (s : Loader σ) : s.Quiet s := ⟨rfl, rfl, rfl, rfl⟩

theorem Quiet.trans (s m s' : Loader σ) (h : s.Quiet m) (h' : m.Quiet s') : s.Quiet s' :=
  ⟨h'.map.trans h.map, h'.loaded.trans h.loaded, h'.registry.trans h.registry,
    h'.calls.trans h.calls⟩

theorem Reserves.refl (s : Loader σ) : s.Reserves s := ⟨rfl, rfl, .refl _, rfl⟩

theorem Reserves.trans (s m s' : Loader σ) (h : s.Reserves m) (h' : m.Reserves s') :
    s.Reserves s' :=
  ⟨h'.map.trans h.map, h'.loaded.trans h.loaded, h.registry.trans h'.registry,
    h'.calls.trans h.calls⟩

theorem Quiet.reserves {s s' : Loader σ} (h : s.Quiet s') : s.Reserves s' := by
  refine ⟨h.map, h.loaded, ?_, h.calls⟩
  rw [h.registry]
  exact .refl _

theorem Reserves.grows {s s' : Loader σ} (h : s.Reserves s') : s.Grows s' := by
  refine ⟨?_, h.loaded, h.registry⟩
  rw [h.map]
  exact .refl _

class Frame (R : Loader σ → Loader σ → Prop) : Prop where
  quiet : ∀ {s s' : Loader σ}, s.Quiet s' → R s s'
  trans : ∀ s m s' : Loader σ, R s m → R m s' → R s s'

instance : Frame (Quiet (σ := σ)) := ⟨id, Quiet.trans⟩
instance : Frame (Reserves (σ := σ)) := ⟨Quiet.reserves, Reserves.trans⟩
instance : Frame (Grows (σ := σ)) := ⟨fun h => h.reserves.grows, Grows.trans⟩

end Loader

namespace Load

open Loader

variable {σ α β : Type} {R : Loader σ → Loader σ → Prop} [Frame R]

theorem moves_pure (a : α) : (pure a : Load σ α).Moves R :=
  Stoppable.moves_pure (fun s => Frame.quiet (Quiet.refl s)) a

theorem moves_bind {x : Load σ α} {f : α → Load σ β} (hx : x.Moves R)
    (hf : ∀ a, (f a).Moves R) : (x >>= f).Moves R :=
  Stoppable.moves_bind Frame.trans hx hf

theorem moves_forM {τ : Type} {f : τ → Load σ PUnit} (hf : ∀ t, (f t).Moves R) (ts : List τ) :
    (ts.forM f).Moves R :=
  Stoppable.moves_forM (fun s => Frame.quiet (Quiet.refl s)) Frame.trans hf ts

theorem moves_ofExcept (x : Except Stop α) : (Stoppable.ofExcept x : Load σ α).Moves R :=
  Stoppable.moves_ofExcept (fun s => Frame.quiet (Quiet.refl s)) x

theorem moves_fail (e : LoadError) : (fail e : Load σ α).Moves R :=
  Stoppable.moves_stop (fun s => Frame.quiet (Quiet.refl s)) _

theorem moves_check (c : Prop) [Decidable c] (e : LoadError) : (check c e).Moves R :=
  moves_ofExcept _

theorem moves_orPanic (o : Option α) : (orPanic o).Moves R := moves_ofExcept _

theorem moves_ask (f : σ → α) : (ask f).Moves R := fun s => Frame.quiet (Quiet.refl s)

theorem moves_get : (Stoppable.get : Load σ (Loader σ)).Moves R :=
  Stoppable.moves_get fun s => Frame.quiet (Quiet.refl s)

theorem moves_operate (op : σ → Except UInt32 α × σ) : (operate op).Moves R := by
  intro s
  unfold operate
  rcases op s.platform with ⟨e | a, p⟩
  · exact Frame.quiet ⟨rfl, rfl, rfl, rfl⟩
  · exact Frame.quiet ⟨rfl, rfl, rfl, rfl⟩

omit [Frame R] in
theorem moves_ite {c : Prop} [Decidable c] {x y : Load σ α} (hx : x.Moves R) (hy : y.Moves R) :
    (if c then x else y).Moves R := by
  split
  · exact hx
  · exact hy

end Load

/-!
## Binding apertures

A module lists the apertures of the board that it uses.  The loader checks the list
against the board, reserves each aperture for the module, and gives the relocations the
addresses.
-/

/-- The indices of a table with `n` entries. -/
def indices (n : UInt32) : List UInt32 := (List.range n.toNat).map UInt32.ofNat

def checkApertureTable (w : PtrWidth) (data : Bytes) :
    List UInt32 → List UInt16 → Except Stop Unit
  | [], _ => pure ()
  | i :: rest, seen => do
    let entry ← (readApertureUse w data i).orError .apertureTableMalformed
    if entry.apertureId ∈ seen then .error (.error .apertureTableMalformed)
    else checkApertureTable w data rest (entry.apertureId :: seen)

variable {σ : Type}

def Load.reserve (id : UInt16) (owner : UInt64) : Load σ Unit := fun s =>
  match s.registry.reserve id owner with
  | .ok registry => (.ok (), { s with registry })
  | .error e => (.error (.error e), s)

def bindAperture (board : List BoardAperture) (owner : UInt64) (entry : ApertureUseEntry)
    (bases : List UInt32) : Load σ (List UInt32) :=
  match board[entry.apertureId.toNat]? with
  | none => Load.fail .apertureUnresolved
  | some boardAperture => do
    Load.check (boardAperture.nameHash = entry.nameHash) .apertureUnresolved
    Load.check (boardAperture.size = entry.size) .apertureUnresolved
    Load.check (entry.accessMask &&& ~~~boardAperture.capability = 0) .apertureTableMalformed
    Load.reserve entry.apertureId owner
    Load.orPanic <|
      if entry.apertureId.toNat < APERTURE_TABLE_CAP then
        some (bases.set entry.apertureId.toNat boardAperture.base)
      else none

def bindEntries (w : PtrWidth) (data : Bytes) (board : List BoardAperture) (owner : UInt64) :
    List UInt32 → List UInt32 → Load σ (List UInt32)
  | [], bases => pure bases
  | i :: rest, bases => do
    let entry ← Stoppable.ofExcept <| (readApertureUse w data i).orError .apertureTableMalformed
    let bases ← bindAperture board owner entry bases
    bindEntries w data board owner rest bases

def noBases : List UInt32 := List.replicate APERTURE_TABLE_CAP 0

def bindApertures (w : PtrWidth) (data : Bytes) (boardHash : Option UInt64)
    (board : List BoardAperture) (owner : UInt64) : Load σ (List UInt32) :=
  if data.isEmpty then pure noBases
  else do
    let hdr ← Stoppable.ofExcept <| (ModInfo.decode w data).orError .badContainer
    Load.check (hdr.modinfoVer = MODINFO_VER) .modinfoVersionUnsupported
    Load.check (hdr.platformHash = 0 ∨ boardHash = some hdr.platformHash) .platformHashMismatch
    if hdr.apertureCount = 0 then pure noBases
    else do
      Load.check (hdr.apertureCount.toNat ≤ APERTURE_TABLE_CAP) .apertureTableMalformed
      Stoppable.ofExcept <| checkApertureTable w data (indices hdr.apertureCount) []
      bindEntries w data board owner (indices hdr.apertureCount) noBases

theorem reserves_reserve (id : UInt16) (owner : UInt64) :
    (Load.reserve id owner).Moves (Loader.Reserves (σ := σ)) := by
  intro s
  unfold Load.reserve
  cases hreserve : s.registry.reserve id owner with
  | ok r => exact ⟨rfl, rfl, ApertureRegistry.extends_reserve hreserve, rfl⟩
  | error e => exact .refl s

theorem reserves_bindAperture (board : List BoardAperture) (owner : UInt64)
    (entry : ApertureUseEntry) (bases : List UInt32) :
    (bindAperture board owner entry bases).Moves (Loader.Reserves (σ := σ)) := by
  unfold bindAperture
  cases board[entry.apertureId.toNat]? with
  | none => exact Load.moves_fail _
  | some boardAperture =>
    refine Load.moves_bind (Load.moves_check _ _) fun _ => ?_
    refine Load.moves_bind (Load.moves_check _ _) fun _ => ?_
    refine Load.moves_bind (Load.moves_check _ _) fun _ => ?_
    exact Load.moves_bind (reserves_reserve _ _) fun _ => Load.moves_orPanic _

theorem reserves_bindEntries (w : PtrWidth) (data : Bytes) (board : List BoardAperture)
    (owner : UInt64) (is bases : List UInt32) :
    (bindEntries w data board owner is bases).Moves (Loader.Reserves (σ := σ)) := by
  induction is generalizing bases with
  | nil => exact Load.moves_pure _
  | cons i rest ih =>
    refine Load.moves_bind (Load.moves_ofExcept _) fun entry => ?_
    exact Load.moves_bind (reserves_bindAperture board owner entry bases) fun bases => ih bases

theorem reserves_bindApertures (w : PtrWidth) (data : Bytes) (boardHash : Option UInt64)
    (board : List BoardAperture) (owner : UInt64) :
    (bindApertures w data boardHash board owner).Moves (Loader.Reserves (σ := σ)) := by
  unfold bindApertures
  refine Load.moves_ite (Load.moves_pure _) ?_
  refine Load.moves_bind (Load.moves_ofExcept _) fun hdr => ?_
  refine Load.moves_bind (Load.moves_check _ _) fun _ => ?_
  refine Load.moves_bind (Load.moves_check _ _) fun _ => ?_
  refine Load.moves_ite (Load.moves_pure _) ?_
  refine Load.moves_bind (Load.moves_check _ _) fun _ => ?_
  refine Load.moves_bind (Load.moves_ofExcept _) fun _ => ?_
  exact reserves_bindEntries w data board owner _ _

end Tyu

import Tyu.Repl.Rollback

/-! # The type names of stack slots -/

namespace Tyu.Repl

open Lib Lib.Wire Exec

variable {σ : Type}

/-- The first word of the module whose table has the number says what it names. -/
def leadingName (c : Option Compiled) (ty : TypeId) : Option Atom :=
  c.bind fun c => c.module.words.findSome? fun w => w.types.get? ty.idx

def builtinTypeName (ty : TypeId) : String :=
  if ty = TY_I64 then "i64"
  else if ty = TY_BOOL then "bool"
  else if ty = TY_STR then "str"
  else if ty = TY_PTR then "ptr"
  else if ty = TY_PTR_MUT then "ptr_mut"
  else "?"

namespace Session

def typeName (s : Session) (ty : TypeId) : String :=
  match leadingName s.compiled ty with
  | some a => a.text
  | none => builtinTypeName ty

def stackCells (s : Session) : List StackCell :=
  s.stack.reverse.map fun slot => ⟨s.typeName slot.ty, slot.val.hex⟩

def ambient (s : Session) : List String := s.stack.map fun slot => s.typeName slot.ty

end Session

def phraseWord (c : Compiled) : Option Word :=
  match c.dictLookup REPL_PHRASE with
  | some (.word idx) => c.module.words[idx]?
  | _ => none

/-- The tables of the next module agree with the numbers in use: what its leading tables make
of the numbers on the stack is what those of the module before made of them, and its own
phrase has no other names than its leading tables. -/
structure TablesAgree (s : Session) (next : Option Compiled) : Prop where
  kept : ∀ slot ∈ s.stack, leadingName next slot.ty = leadingName s.compiled slot.ty
  own : ∀ c ∈ next, ∀ w, phraseWord c = some w → ∀ ty a, w.types.get? ty.idx = some a →
    leadingName next ty = some a

theorem typeName_of_agree {s s' : Session} (h : TablesAgree s s'.compiled) {slot : Slot}
    (hs : slot ∈ s.stack) : s'.typeName slot.ty = s.typeName slot.ty := by
  unfold Session.typeName
  rw [h.kept slot hs]

/-- Sessions from a given one on, while the slots at the bottom are left alone and the next
module is `ok`. -/
def keeping (ok : Session → Option Compiled → Prop) (bottom : List Slot) (x : Session × σ) :
    System (Session × σ) where
  init y := y = x
  step y z := SessionStep (fun _ _ => True) y z ∧ ok y.1 z.1.compiled ∧ bottom <:+ z.1.stack

/-- What a slot of the stack is shown as, and what the next phrase takes it for. -/
structure Shows (s : Session) (depth : Nat) (slot : Slot) (name : String) : Prop where
  cell : s.stackCells[depth]? = some ⟨name, slot.val.hex⟩
  input : s.ambient.reverse[depth]? = some name

theorem shows_of_suffix {s : Session} {slot : Slot} {below : List Slot}
    (h : (slot :: below) <:+ s.stack) : Shows s below.length slot (s.typeName slot.ty) := by
  obtain ⟨above, habove⟩ := h
  have hslot : s.stack.reverse[below.length]? = some slot := by
    rw [← habove, List.reverse_append, List.reverse_cons, List.append_assoc,
      List.getElem?_append_right (Nat.le_of_eq List.length_reverse), List.length_reverse,
      Nat.sub_self]
    rfl
  refine ⟨?_, ?_⟩
  · unfold Session.stackCells
    rw [List.getElem?_map, hslot]
    rfl
  · unfold Session.ambient
    rw [← List.map_reverse, List.getElem?_map, hslot]
    rfl

def AT_U8 : Atom := ⟨"u8", u8_fits⟩
def AT_U32 : Atom := ⟨"u32", u32_fits⟩

/-- A module of one word of one block, over one type beside the built-in ones. -/
def moduleOver (ty name : Atom) (sig : Sig) (entryStack : FixedVec TypeId 32)
    (ops : FixedVec Op 96) : Compiled where
  module :=
    { name := AT_EMPTY
      words :=
        [{ name := name
           sig := sig
           performs := .empty
           requires := .empty
           bound := .ID
           entry := ⟨0⟩
           types := ⟨[AT_EMPTY, AT_I64, AT_BOOL, AT_STR, AT_PTR, AT_PTR_MUT, AT_MMIO, ty],
             Nat.le_of_ble_eq_true rfl⟩
           typeSizes := ⟨[0, 8, 1, 8, 8, 8, 8, 1], by decide⟩
           typeClasses := ⟨[.other, .i64, .bool, .str, .ptr, .ptrMut, .mmio, .other], by decide⟩
           apertures := .new
           subtypeBases := ⟨List.replicate 8 TY_EMPTY, by decide⟩
           blocks := ⟨[{ id := ⟨0⟩, entryStack := entryStack, ops := ops }],
             Nat.le_of_ble_eq_true rfl⟩ }]
      apertures := .new }
  wordBits := 64
  src := []
  small := no_source
  apertures := []
  subtypes := []

/-- `: repl-phrase ( -- u8 ) 7 as u8 ;` -/
def bytePhrase : Compiled :=
  moduleOver AT_U8 REPL_PHRASE ⟨.new, ⟨[⟨7⟩], by decide⟩⟩ .new
    ⟨[⟨.constI64 7, ⟨0, 1⟩⟩, ⟨.cast TY_I64 ⟨7⟩, ⟨2, 7⟩⟩, ⟨.ret, ⟨8, 9⟩⟩], by decide⟩

/-- `: f ( ty -- ) drop ;` -/
def dropping (ty : Atom) : Compiled :=
  moduleOver ty ⟨"f", by decide⟩ ⟨⟨[⟨7⟩], by decide⟩, .new⟩ ⟨[⟨7⟩], by decide⟩
    ⟨[⟨.drop ⟨7⟩, ⟨0, 4⟩⟩, ⟨.ret, ⟨5, 6⟩⟩], by decide⟩

def byteSession : Session where
  stack := [⟨⟨7⟩, .int 7⟩]
  heap := .new
  outTotal := []
  fuel := 100
  elideGuards := false
  compiled := some bytePhrase
  suspended := none

theorem bytePhrase_runs :
    (Session.new 100).submitPhrase bytePhrase disabled () = some (.ok, byteSession, ()) := by
  rfl

theorem bytePhrase_step :
    SessionStep (fun _ _ => True) (Session.new 100, ()) (byteSession, ()) :=
  .phrase bytePhrase disabled (fun _ _ _ _ => driveOk_of_all (fun _ _ => trivial) ..)
    bytePhrase_runs

theorem phraseWord_bytePhrase : phraseWord bytePhrase = bytePhrase.module.words[0]? := rfl

theorem bytePhrase_agrees : TablesAgree (Session.new 100) (some bytePhrase) where
  kept _ hs := nomatch hs
  own c hc w hw ty a ha := by
    cases hc
    rw [phraseWord_bytePhrase] at hw
    cases hw
    show List.findSome? (fun w : Word => w.types.get? ty.idx) [_] = some a
    rw [List.findSome?_cons, ha]

theorem dropping_agrees : TablesAgree byteSession (some (dropping AT_U8)) where
  kept slot hs := by
    cases List.mem_singleton.mp hs
    rfl
  own c hc w hw := by
    cases hc
    cases hw

end Tyu.Repl

import Tyu.Backend.Simulation
import Tyu.Backend.X86.Machine

/-! # The code of a word on x86-64 -/

namespace Tyu.X86

open Lib

structure Supply where
  label : Nat
  dsHigh : Nat

structure Settings where
  dsGuardsElided : Bool
  debugTrapLoc : Bool
  /-- the resources the module declares -/
  resources : List Atom
  /-- the source line of a span -/
  line : Span → BitVec 32
  curWordId : Word64

def Settings.guard (cfg : Settings) : Bool := !cfg.dsGuardsElided

def emitUpdateDsHigh (id : Nat) : List (Line Label Instr) :=
  asm [.cmp (.reg .r15) (.cell .dsHigh), .jcc .na (.dsHigh id),
    .mov (.cell .dsHigh) (.reg .r15)] ++ [.label (.dsHigh id)]

def emitGuard (r : Reg) (guard : Bool) : List (Line Label Instr) :=
  if guard then
    asm [.lea r .r15 8, .cmp (.reg r) (.reg .r14), .jccOut .a .stackOverflow]
  else []

def writeImm (v : Int) : List Instr :=
  if imm32 v then [.mov (.mem .r15 0) (.imm v)]
  else [.mov (.reg .rax) (.imm v), .mov (.mem .r15 0) (.reg .rax)]

def emitPushI64 (v : Int) (guard : Bool) (id : Nat) : List (Line Label Instr) :=
  emitGuard .rax guard ++ (asm (writeImm v ++ [.alu .add .r15 (.imm 8)]) ++ emitUpdateDsHigh id)

/-- Write `rax` to the slot at the stack pointer, and advance it. -/
def putRax : List Instr := [.mov (.mem .r15 0) (.reg .rax), .alu .add .r15 (.imm 8)]

def emitPushRax (guard : Bool) (id : Nat) : List (Line Label Instr) :=
  emitGuard .rcx guard ++ (asm putRax ++ emitUpdateDsHigh id)

def takeInto (r : Reg) : List Instr := [.alu .sub .r15 (.imm 8), .mov (.reg r) (.mem .r15 0)]

def emitDup (guard : Bool) (id : Nat) : List (Line Label Instr) :=
  asm [.mov (.reg .rax) (.mem .r15 (-8))] ++ emitPushRax guard id

def emitDrop : List (Line Label Instr) := asm [.alu .sub .r15 (.imm 8)]

def emitSwap : List (Line Label Instr) :=
  asm [.mov (.reg .rax) (.mem .r15 (-8)), .mov (.reg .rcx) (.mem .r15 (-16)),
    .mov (.mem .r15 (-8)) (.reg .rcx), .mov (.mem .r15 (-16)) (.reg .rax)]

def emitBinop (op : Alu) (id : Nat) : List (Line Label Instr) :=
  asm (takeInto .rcx ++ takeInto .rax ++ [.alu op .rax (.reg .rcx)] ++ putRax) ++
    emitUpdateDsHigh id

def emitCmp (c : Cond) (id : Nat) : List (Line Label Instr) :=
  asm (takeInto .rcx ++ takeInto .rax ++
    [.cmp (.reg .rax) (.reg .rcx), .setAl c, .movzxRaxAl] ++ putRax) ++ emitUpdateDsHigh id

/-- `and` and `or`: the bits are combined, and the result is whether any is left. -/
def emitBool (op : Alu) : List (Line Label Instr) :=
  asm (takeInto .rcx ++ takeInto .rax ++
    [.alu op .rax (.reg .rcx), .cmp (.reg .rax) (.imm 0), .setAl .ne, .movzxRaxAl] ++ putRax)

def emitNot : List (Line Label Instr) :=
  asm (takeInto .rax ++ [.cmp (.reg .rax) (.imm 0), .setAl .e, .movzxRaxAl] ++ putRax)

def emitStoreLocal (idx : Nat) : List (Line Label Instr) :=
  asm (takeInto .rax ++ [.mov (.mem .rsp (idx * 8)) (.reg .rax)])

def emitLoadLocal (idx : Nat) (guard : Bool) (id : Nat) : List (Line Label Instr) :=
  emitGuard .rax guard ++
    (asm (.mov (.reg .rax) (.mem .rsp (idx * 8)) :: putRax) ++ emitUpdateDsHigh id)

def emitPtrAddConst (offset : Nat) (guard : Bool) (id : Nat) : List (Line Label Instr) :=
  asm (takeInto .rax ++ [.alu .add .rax (.imm offset)]) ++ emitPushRax guard id

def emitPtrAddIndex (scale : Nat) (guard : Bool) (id : Nat) : List (Line Label Instr) :=
  asm (takeInto .rcx ++ takeInto .rax ++
    [.alu .imul .rcx (.imm scale), .alu .add .rax (.reg .rcx)]) ++ emitPushRax guard id

def emitTrapWithLoc (cfg : Settings) (code : Nat) (span : Span) : List Instr :=
  if cfg.debugTrapLoc then
    [.mov (.reg .rdi) (.imm code), .mov (.reg .rsi) (.imm 1),
      .mov (.reg .rdx) (.imm (cfg.line span).toNat), .mov (.reg .rcx) (.imm cfg.curWordId.toNat),
      .jmpOut .langTrapLoc]
  else [.mov (.reg .rdi) (.imm code), .jmpOut .langTrap]

def emitTrapIfFalse (cfg : Settings) (code : TrapCode) (span : Span) (ok : Nat) :
    List (Line Label Instr) :=
  asm (takeInto .rax ++ [.cmp (.reg .rax) (.imm 0)]) ++
    (asm (.jcc .ne (.trapOk ok) :: emitTrapWithLoc cfg (trapCodeU32 code) span) ++
      [.label (.trapOk ok)])

def emitBrIf (base : Nat) (thenTgt elseTgt : BlockId) : List (Line Label Instr) :=
  asm (takeInto .rax ++ [.cmp (.reg .rax) (.imm 0)]) ++
    asm [.jcc .e (.block base elseTgt), .jmp (.block base thenTgt)]

def setcc : CmpKind → Cond
  | .lt => .l
  | .le => .le
  | .gt => .g
  | .ge => .ge
  | .eq => .e
  | .ne => .ne

def inlined : List String :=
  ["platform.io.log", "platform.channel.make", "platform.channel.send", "platform.channel.recv",
    "platform.mem.region-create", "platform.mem.region-alloc", "platform.mem.region-reset",
    "platform.mem.region-destroy", "platform.time.now_ms", "platform.task.yield",
    "platform.task.join", "platform.task.sleep-ms", "platform.task.sleep-us",
    "platform.critical.enter", "platform.critical.exit"]

def emitOp (cfg : Settings) (base : Nat) (c : Supply) (op : Op) : Option (List (Line Label Instr)) :=
  match op.kind with
  | .constI64 v => if isI64 v then some (emitPushI64 v cfg.guard c.dsHigh) else none
  | .constBool b => some (emitPushI64 (boolVal b) cfg.guard c.dsHigh)
  | .addrOf place _ addrBase =>
    if addrBase = .runtime ∧ place ∈ cfg.resources then
      some (asm [.mov (.reg .rax) (.addr (.resource place))] ++ emitPushRax cfg.guard c.dsHigh)
    else none
  | .ptrAddConst _ offset => some (emitPtrAddConst offset cfg.guard c.dsHigh)
  | .ptrAddIndex _ scale => some (emitPtrAddIndex scale cfg.guard c.dsHigh)
  | .dup _ => some (emitDup cfg.guard c.dsHigh)
  | .drop _ => some emitDrop
  | .swap _ _ => some emitSwap
  | .addI64 => some (emitBinop .add c.dsHigh)
  | .subI64 => some (emitBinop .sub c.dsHigh)
  | .mulI64 => some (emitBinop .imul c.dsHigh)
  | .cmp _ k => some (emitCmp (setcc k) c.dsHigh)
  | .andBool => some (emitBool .and)
  | .orBool => some (emitBool .or)
  | .notBool => some emitNot
  | .localSet slot _ => if isU16 slot then some (emitStoreLocal slot) else none
  | .localGet slot _ => if isU16 slot then some (emitLoadLocal slot cfg.guard c.dsHigh) else none
  | .call name _ _ _ _ => if name.text ∈ inlined then none else some (asm [.call name])
  | .trapIfFalse code => some (emitTrapIfFalse cfg code op.span c.label)
  | .br target => some (asm [.jmp (.block base target)])
  | .brIf thenTgt elseTgt => some (emitBrIf base thenTgt elseTgt)
  | .ret => some (asm [.jmp (.endword base)])
  | _ => none

def Supply.next (c : Supply) (op : Op) : Supply :=
  match op.kind with
  | .constI64 _ | .constBool _ | .addrOf _ _ _ | .ptrAddConst _ _ | .ptrAddIndex _ _ | .dup _
  | .addI64 | .subI64 | .mulI64 | .cmp _ _ | .localGet _ _ => { c with dsHigh := c.dsHigh + 1 }
  | .trapIfFalse _ => { c with label := c.label + 1 }
  | _ => c

def Supply.issued (c : Supply) : Label → Prop
  | .trapOk id => id < c.label
  | .dsHigh id => id < c.dsHigh
  | _ => True

def emitter (cfg : Settings) (base : Nat) : Emitter Label Instr Op Supply where
  code := emitOp cfg base
  next := Supply.next
  issued := Supply.issued

def localSlot (op : Op) : Option Nat :=
  match op.kind with
  | .localSet slot _ | .localGet slot _ => some slot
  | _ => none

def localSlots (w : Word) : List Nat := w.blocks.items.flatMap fun b => b.ops.items.filterMap localSlot

def maxLocalSlotIr (w : Word) : Option Nat := (localSlots w).max?

def slotCount (w : Word) : Nat := (maxLocalSlotIr w).elim 0 (· + 1)

def localsBytesIr (slots : Nat) : Nat :=
  if slots = 0 then 0 else if slots * 8 % 16 = 0 then slots * 8 else slots * 8 + 8

/-- The frame: the locals only, since no word translated here allocates a scoped
slice. -/
def frameBytes (w : Word) : Nat := localsBytesIr (slotCount w)

def resizeFrame (op : Alu) (bytes : Nat) : List (Line Label Instr) :=
  if 0 < bytes then asm [.alu op .rsp (.imm bytes)] else []

/-- The code of a word, from its label to its `ret`. -/
def emitWord (cfg : Settings) (c : Supply) (w : Word) : Option (List (Line Label Instr)) :=
  ((emitter cfg c.label).blocks (Label.block c.label) { c with label := c.label + 1 } w.graph).map
    fun body =>
      .label (.word w.name) :: (resizeFrame .sub (frameBytes w) ++
        asm [.jmp (.block c.label w.entry)] ++ (body ++
          (.label (.endword c.label) :: (resizeFrame .add (frameBytes w) ++ asm [.ret]))))

end Tyu.X86

/-!
## The data stack and the frame of a word in memory

On every target a slot of the data stack has eight bytes, and so has a local.  The
stack grows upwards from its base; the values are listed as in the IR, the topmost
first.
-/

namespace Tyu

open Lib

def slotValue (m : Memory) (a : Nat) : Int := wrapI64 (m.read a 8)

/-- The slots from `base` up hold the values. -/
def Slots (m : Memory) (base : Nat) : List Int → Prop
  | [] => True
  | v :: vs => slotValue m (base + 8 * vs.length) = v ∧ Slots m base vs

/-- The frame at `fp` holds the first `count` locals. -/
def FrameSlots (m : Memory) (fp count : Nat) (locals : List Int) : Prop :=
  ∀ i, i < count → locals[i]? = some (slotValue m (fp + 8 * i))

variable {m m' : Memory} {a base fp count : Nat} {vs locals : List Int} {v : Int}

theorem slotValue_congr (h : ∀ x, a ≤ x → x < a + 8 → m x = m' x) : slotValue m a = slotValue m' a := by
  rw [slotValue, slotValue, Memory.read_congr h]

theorem wrapI64_mod (n : Nat) : wrapI64 ((n % 256 ^ 8 : Nat) : Int) = wrapI64 n := by
  have hpow : (256 : Nat) ^ 8 = 2 ^ 64 := by norm_num
  rw [wrapI64, wrapI64, hpow, Int.natCast_emod]
  exact Int.emod_bmod ..

theorem slotValue_write (m : Memory) (a n : Nat) : slotValue (m.write a 8 n) a = wrapI64 n := by
  rw [slotValue, Memory.read_write_same, wrapI64_mod]

theorem slotValue_write_of_disjoint {b n k : Nat} (h : a + 8 ≤ b ∨ b + n ≤ a) :
    slotValue (m.write b n k) a = slotValue m a :=
  slotValue_congr fun _ _ _ => Memory.write_outside (by omega)

theorem Slots.congr (h : Slots m base vs)
    (hm : ∀ x, base ≤ x → x < base + 8 * vs.length → m x = m' x) : Slots m' base vs := by
  induction vs with
  | nil => trivial
  | cons v vs ih =>
    obtain ⟨hv, hrest⟩ := h
    rw [List.length_cons] at hm
    refine ⟨?_, ih hrest fun x hx hx' => hm x hx (by omega)⟩
    rw [← slotValue_congr fun x hx hx' => hm x (by omega) (by omega)]
    exact hv

theorem Slots.write (h : Slots m base vs) {n k : Nat} (ha : base + 8 * vs.length ≤ a ∨ a + n ≤ base) :
    Slots (m.write a n k) base vs :=
  h.congr fun _ _ _ => (Memory.write_outside (by omega)).symm

theorem Slots.push (h : Slots m base vs) (n : Nat) :
    Slots (m.write (base + 8 * vs.length) 8 n) base (wrapI64 n :: vs) :=
  ⟨slotValue_write m _ n, h.write (.inl (Nat.le_refl _))⟩

theorem slots_append {xs ys : List Int} :
    Slots m base (xs ++ ys) ↔ Slots m (base + 8 * ys.length) xs ∧ Slots m base ys := by
  induction xs with
  | nil => simp [Slots]
  | cons x xs ih =>
    have haddr : base + 8 * (xs ++ ys).length = base + 8 * ys.length + 8 * xs.length := by
      rw [List.length_append]
      omega
    rw [List.cons_append, Slots, Slots, ih, haddr, and_assoc]

theorem FrameSlots.congr (h : FrameSlots m fp count locals)
    (hm : ∀ x, fp ≤ x → x < fp + 8 * count → m x = m' x) : FrameSlots m' fp count locals := by
  intro i hi
  rw [h i hi, slotValue_congr fun x hx hx' => hm x (by omega) (by omega)]

theorem FrameSlots.write (h : FrameSlots m fp count locals) {n k : Nat}
    (ha : fp + 8 * count ≤ a ∨ a + n ≤ fp) : FrameSlots (m.write a n k) fp count locals :=
  h.congr fun _ _ _ => (Memory.write_outside (by omega)).symm

theorem FrameSlots.set (h : FrameSlots m fp count locals) {slot : Nat} (hslot : slot < count) (n : Nat) :
    FrameSlots (m.write (fp + 8 * slot) 8 n) fp count (locals.set slot (wrapI64 n)) := by
  intro i hi
  have hlen : slot < locals.length := by
    by_contra hge
    have := h slot hslot
    rw [List.getElem?_eq_none (by omega)] at this
    cases this
  by_cases heq : slot = i
  · subst heq
    rw [List.getElem?_set_self hlen, slotValue_write]
  · rw [List.getElem?_set_ne heq, h i hi, slotValue_write_of_disjoint (by omega)]

end Tyu

/-!
## States that hold the values of a word

The three pieces of memory the code of a word works on: the data stack between its
base and its limit, the hardware stack with the frame at its end, and the high-water
mark.  A state holds values and locals when the pointers are where these say and the
memory there has them.  The parts that the emitted sequences are made of keep that, and
move the values as the operations do.
-/

namespace Tyu.X86

open Lib

structure Layout where
  base : Nat
  limit : Nat
  low : Nat
  fp : Nat
  count : Nat
  frame : Nat

namespace Layout

def Own (Λ : Layout) (high x : Nat) : Prop :=
  (Λ.base ≤ x ∧ x < Λ.limit) ∨ (Λ.low ≤ x ∧ x < Λ.fp + Λ.frame) ∨ (high ≤ x ∧ x < high + 8)

/-- Is there room for `n` values? -/
def Room (Λ : Layout) (n : Nat) : Prop := Λ.base + 8 * n ≤ Λ.limit

/-- The pieces lie apart inside the address space, and are what is writable. -/
structure Sound (Λ : Layout) (E : Env) : Prop where
  limit_lt : Λ.limit + 8 < 2 ^ 64
  low_le : Λ.low ≤ Λ.fp
  locals_le : 8 * Λ.count ≤ Λ.frame
  frame_lt : Λ.fp + Λ.frame < 2 ^ 64
  high_lt : E.address .dsHigh + 8 < 2 ^ 64
  apart : Λ.limit ≤ Λ.low ∨ Λ.fp + Λ.frame ≤ Λ.base
  high_data : Λ.limit ≤ E.address .dsHigh ∨ E.address .dsHigh + 8 ≤ Λ.base
  high_frame : Λ.fp + Λ.frame ≤ E.address .dsHigh ∨ E.address .dsHigh + 8 ≤ Λ.low
  writable : ∀ x, E.writable x = true ↔ Λ.Own (E.address .dsHigh) x

end Layout

structure Holds (Λ : Layout) (vals locals : List Int) (s : State) : Prop where
  top : (s.reg .r15).toNat = Λ.base + 8 * vals.length
  limit : (s.reg .r14).toNat = Λ.limit
  frame : (s.reg .rsp).toNat = Λ.fp
  fits : Λ.Room vals.length
  slots : Slots s.mem Λ.base vals
  locals : FrameSlots s.mem Λ.fp Λ.count locals

structure Scratch (s s' : State) : Prop where
  r15 : s'.reg .r15 = s.reg .r15
  r14 : s'.reg .r14 = s.reg .r14
  rsp : s'.reg .rsp = s.reg .rsp
  mem : s'.mem = s.mem

theorem Scratch.trans {s s' s'' : State} (h : Scratch s s') (h' : Scratch s' s'') : Scratch s s'' :=
  ⟨h'.r15.trans h.r15, h'.r14.trans h.r14, h'.rsp.trans h.rsp, h'.mem.trans h.mem⟩

variable {E : Env} {Λ : Layout} {vals locals : List Int} {s s' : State} {v : Int}

theorem Holds.scratch (h : Holds Λ vals locals s) (hs : Scratch s s') : Holds Λ vals locals s' where
  top := by rw [hs.r15, h.top]
  limit := by rw [hs.r14, h.limit]
  frame := by rw [hs.rsp, h.frame]
  fits := h.fits
  slots := by
    rw [hs.mem]
    exact h.slots
  locals := by
    rw [hs.mem]
    exact h.locals

theorem place_eq {r : Reg} {disp : Int} {a : Nat} (h : ((s.reg r).toNat : Int) + disp = a)
    (ha : a < 2 ^ 64) : s.place r disp = a := by
  unfold State.place
  have := (s.reg r).isLt
  rw [BitVec.toNat_add, BitVec.toNat_ofInt]
  omega

theorem toNat_add_imm {x : Word64} {d : Int} {a : Nat} (h : (x.toNat : Int) + d = a)
    (ha : a < 2 ^ 64) : (x + BitVec.ofInt 64 d).toNat = a := by
  have := x.isLt
  rw [BitVec.toNat_add, BitVec.toNat_ofInt]
  omega

theorem toNat_sub_imm {x : Word64} {d : Nat} {a : Nat} (h : x.toNat = a + d) (hd : d < 2 ^ 64) :
    (x - BitVec.ofInt 64 d).toNat = a := by
  have := x.isLt
  rw [BitVec.toNat_sub, BitVec.toNat_ofInt]
  omega

theorem move_load {r r' : Reg} {disp : Int} {a : Nat} (h : s.place r' disp = a) :
    move E s (.reg r) (.mem r' disp) = some (s.set r (s.load a)) := by
  rw [← h]
  rfl

theorem imm32_of_lt {n : Nat} (h : n < 2 ^ 31) : imm32 (n : Int) = true := by
  rw [imm32, Bool.and_eq_true, decide_eq_true_iff, decide_eq_true_iff]
  omega

theorem load_toInt (s : State) (a : Nat) : (s.load a).toInt = slotValue s.mem a := by
  rw [State.load, BitVec.toInt_ofNat']
  rfl

theorem wrapI64_toNat (x : Word64) : wrapI64 x.toNat = x.toInt := by
  rw [wrapI64, BitVec.toInt_eq_toNat_bmod]

theorem store_ok (hΛ : Λ.Sound E) {a : Nat} {x : Word64}
    (ha : ∀ y, a ≤ y → y < a + 8 → Λ.Own (E.address .dsHigh) y) :
    store E s a x = some { s with mem := s.mem.write a 8 x.toNat } := by
  refine if_pos (List.all_eq_true.mpr fun i hi => ?_)
  have hi := List.mem_range.mp hi
  exact (hΛ.writable _).mpr (ha _ (by omega) (by omega))

end Tyu.X86

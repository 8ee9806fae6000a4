import Tyu.Backend.X86.Ops

/-!
# Steps of the IR and the code for them

The condition on a step, the contract of the callees, and the simulation: where the condition
holds, the code of an operation does what the operation does.
-/

namespace Tyu.X86

open Lib

def Agreeing (kind : OpKind) (m : Machine) : Prop :=
  match kind with
  | .andBool => ∀ b a rest, m.values = b :: a :: rest → a ≠ 0 → b ≠ 0 →
      BitVec.ofInt 64 a &&& BitVec.ofInt 64 b ≠ 0
  | .ptrAddConst _ offset => offset < 2 ^ 31
  | .ptrAddIndex _ scale => scale < 2 ^ 31
  | _ => True

def Pushes : OpKind → Bool
  | .constI64 _ | .constBool _ | .addrOf _ _ _ | .dup _ | .localGet _ _ => true
  | _ => false

def Roomy (Λ : Layout) (need : Atom → Nat) (kind : OpKind) (m : Machine) : Prop :=
  (Pushes kind = true → Λ.Room (m.values.length + 1)) ∧
    ∀ name sig p r b, kind = .call name sig p r b → Λ.Room (m.values.length + need name)

/-- A trap: control is at the handler, which is given the number of the trap. -/
def Trapped (code : TrapCode) (w : Way) (s : State) : Prop :=
  (w = .langTrap ∨ w = .langTrapLoc) ∧ (s.reg .rdi).toNat = trapCodeU32 code

/-- What the callees of a word keep to.  One that is called with its arguments in the
slots from `B` on, and with room for what it needs, ends as the world says: it traps, or
returns with its results in the slots from `B` on.  It leaves the slots below `B` and
the frame of its caller, and writes to writable addresses only. -/
structure Serves (E : Env) (Λ : Layout) (W : World) (need : Atom → Nat) (w : Word) : Prop where
  call : ∀ clock name sig p r b, Occurs w (.call name sig p r b) → ∀ s args B,
    args.length = sig.inLen → Slots s.mem B args → (s.reg .r15).toNat = B + 8 * args.length →
    Λ.base ≤ B → (s.reg .r15).toNat + 8 * need name ≤ Λ.limit →
    (s.reg .r14).toNat = Λ.limit → (s.reg .rsp).toNat = Λ.fp →
    match W.callTrap clock name args with
    | some code => ∃ way s', E.call name s = some (.stop way s') ∧ Trapped code way s'
    | none => ∃ s', E.call name s = some (.back s') ∧
        (s'.reg .r15).toNat = B + 8 * sig.outLen ∧ B + 8 * sig.outLen ≤ Λ.limit ∧
        s'.reg .r14 = s.reg .r14 ∧ s'.reg .rsp = s.reg .rsp ∧
        Slots s'.mem B ((List.range sig.outLen).map (W.callResult clock name args)).reverse ∧
        (∀ x, Λ.base ≤ x → x < B → s'.mem x = s.mem x) ∧
        ∀ x, Λ.fp ≤ x → x < Λ.fp + Λ.frame → s'.mem x = s.mem x
  back : ∀ name s s' x, E.call name s = some (.back s') → E.writable x = false →
    s'.mem x = s.mem x
  stop : ∀ name s way s' x, E.call name s = some (.stop way s') → E.writable x = false →
    s'.mem x = s.mem x

def Rep (Λ : Layout) (m : Machine) (s : State) : Prop := Holds Λ m.view.vals m.view.locals s

/-! ## Labels -/

theorem labelled_update {id : Nat} {l : Label} (h : Labelled (emitUpdateDsHigh id) l) :
    l = .dsHigh id := by
  simpa [emitUpdateDsHigh, asm] using h

theorem labelled_emitOp {cfg : Settings} {base : Nat} {c : Supply} {op : Op}
    {own : List (Line Label Instr)} {l : Label} (h : emitOp cfg base c op = some own)
    (hl : Labelled own l) :
    (l = .dsHigh c.dsHigh ∧ (c.next op).dsHigh = c.dsHigh + 1) ∨
      (l = .trapOk c.label ∧ (c.next op).label = c.label + 1) := by
  have hfree : ∀ is, ¬Labelled (asm is) l := fun is => not_labelled_instrs is l
  have hupdate : ∀ {code}, Labelled (code ++ emitUpdateDsHigh c.dsHigh) l → ¬Labelled code l →
      l = .dsHigh c.dsHigh := by
    intro code hl hcode
    rcases labelled_append.mp hl with hl | hl
    · exact absurd hl hcode
    · exact labelled_update hl
  have hpush : Labelled (emitPushRax cfg.guard c.dsHigh) l → l = .dsHigh c.dsHigh := by
    intro hl
    rw [emitPushRax, ← List.append_assoc] at hl
    exact hupdate hl (by simp [emitGuard_free, hfree])
  have hafter : ∀ {is}, Labelled (asm is ++ emitPushRax cfg.guard c.dsHigh) l →
      l = .dsHigh c.dsHigh := by
    intro is hl
    rcases labelled_append.mp hl with hl | hl
    · exact absurd hl (hfree is)
    · exact hpush hl
  obtain ⟨kind, span⟩ := op
  cases kind <;> simp only [emitOp, reduceCtorEq, Option.some.injEq] at h
  case constI64 v =>
    split at h
    · cases h
      rw [emitPushI64, ← List.append_assoc] at hl
      exact .inl ⟨hupdate hl (by simp [emitGuard_free, hfree]), rfl⟩
    · cases h
  case constBool b =>
    cases h
    rw [emitPushI64, ← List.append_assoc] at hl
    exact .inl ⟨hupdate hl (by simp [emitGuard_free, hfree]), rfl⟩
  case addrOf place isMut addrBase =>
    split at h
    · cases h
      exact .inl ⟨hafter hl, rfl⟩
    · cases h
  case ptrAddConst ty offset =>
    cases h
    exact .inl ⟨hafter hl, rfl⟩
  case ptrAddIndex ty scale =>
    cases h
    exact .inl ⟨hafter hl, rfl⟩
  case dup ty =>
    cases h
    exact .inl ⟨hafter hl, rfl⟩
  case drop ty =>
    cases h
    exact absurd hl (hfree _)
  case swap a b =>
    cases h
    exact absurd hl (hfree _)
  case addI64 =>
    cases h
    exact .inl ⟨hupdate hl (hfree _), rfl⟩
  case subI64 =>
    cases h
    exact .inl ⟨hupdate hl (hfree _), rfl⟩
  case mulI64 =>
    cases h
    exact .inl ⟨hupdate hl (hfree _), rfl⟩
  case cmp out k =>
    cases h
    exact .inl ⟨hupdate hl (hfree _), rfl⟩
  case andBool =>
    cases h
    exact absurd hl (hfree _)
  case orBool =>
    cases h
    exact absurd hl (hfree _)
  case notBool =>
    cases h
    exact absurd hl (hfree _)
  case localSet slot ty =>
    split at h
    · cases h
      exact absurd hl (hfree _)
    · cases h
  case localGet slot ty =>
    split at h
    · cases h
      rw [emitLoadLocal, ← List.append_assoc] at hl
      exact .inl ⟨hupdate hl (by simp [emitGuard_free, hfree]), rfl⟩
    · cases h
  case call name sig p r b =>
    split at h
    · cases h
    · cases h
      exact absurd hl (hfree _)
  case trapIfFalse code =>
    cases h
    rw [emitTrapIfFalse, labelled_append, labelled_append, labelled_label] at hl
    rcases hl with hl | hl | hl | hl
    · exact absurd hl (hfree _)
    · exact absurd hl (hfree _)
    · exact .inr ⟨hl, rfl⟩
    · exact absurd hl not_labelled_nil
  case br target =>
    cases h
    exact absurd hl (hfree _)
  case brIf thenTgt elseTgt =>
    cases h
    rw [emitBrIf, labelled_append] at hl
    exact absurd hl (not_or.mpr ⟨hfree _, hfree _⟩)
  case ret =>
    cases h
    exact absurd hl (hfree _)

theorem next_issued {c : Supply} {op : Op} {l : Label} (h : c.issued l) : (c.next op).issued l := by
  have hcount : c.label ≤ (c.next op).label ∧ c.dsHigh ≤ (c.next op).dsHigh := by
    unfold Supply.next
    split <;> exact ⟨by simp, by simp⟩
  cases l with
  | trapOk id => exact Nat.lt_of_lt_of_le h hcount.1
  | dsHigh id => exact Nat.lt_of_lt_of_le h hcount.2
  | word name => trivial
  | block base id => trivial
  | endword base => trivial

theorem emitter_fresh (cfg : Settings) (base : Nat) :
    (emitter cfg base).Fresh (Label.block base) where
  keeps _ _ _ h := next_issued h
  own c op own l h hl := by
    rcases labelled_emitOp h hl with ⟨rfl, hnext⟩ | ⟨rfl, hnext⟩
    · exact show c.dsHigh < (c.next op).dsHigh by omega
    · exact show c.label < (c.next op).label by omega
  marks _ _ := trivial
  apart c op own b h hl := by
    rcases labelled_emitOp h hl with ⟨hl, -⟩ | ⟨hl, -⟩
    · cases hl
    · cases hl
  inj b b' h := by
    cases h
    rfl

theorem setcc_holds (k : CmpKind) (x y : Word64) :
    (setcc k).holds (x, y) = k.holds x.toInt y.toInt := by
  cases k with
  | lt => rfl
  | le => rfl
  | gt => rfl
  | ge => rfl
  | eq =>
    show (x == y) = decide (x.toInt = y.toInt)
    rw [Bool.eq_iff_iff, beq_iff_eq, decide_eq_true_iff, BitVec.toInt_inj]
  | ne =>
    show (x != y) = decide (x.toInt ≠ y.toInt)
    rw [Bool.eq_iff_iff, bne_iff_ne, decide_eq_true_iff, Ne, Ne, BitVec.toInt_inj]

theorem toInt_ne_zero (x : Word64) : (x.toInt != 0) = (x != 0) := by
  rw [Bool.eq_iff_iff, bne_iff_ne, bne_iff_ne, Ne, Ne, ← BitVec.toInt_inj]
  rfl

theorem and_agrees {x y : Word64}
    (h : x.toInt ≠ 0 → y.toInt ≠ 0 → BitVec.ofInt 64 x.toInt &&& BitVec.ofInt 64 y.toInt ≠ 0) :
    (Alu.and.eval x y != 0) = (x.toInt != 0 && y.toInt != 0) := by
  rw [BitVec.ofInt_toInt, BitVec.ofInt_toInt] at h
  rw [Bool.eq_iff_iff, Bool.and_eq_true, bne_iff_ne, bne_iff_ne, bne_iff_ne]
  constructor
  · intro hxy
    refine ⟨fun hx => hxy ?_, fun hy => hxy ?_⟩
    · have hzero : x = 0 := BitVec.toInt_inj.mp hx
      rw [hzero]
      exact BitVec.zero_and
    · have hzero : y = 0 := BitVec.toInt_inj.mp hy
      rw [hzero]
      exact BitVec.and_zero
  · rintro ⟨hx, hy⟩
    exact h hx hy

theorem or_agrees (x y : Word64) :
    (Alu.or.eval x y != 0) = (x.toInt != 0 || y.toInt != 0) := by
  rw [toInt_ne_zero, toInt_ne_zero, Bool.eq_iff_iff, Bool.or_eq_true, bne_iff_ne, bne_iff_ne,
    bne_iff_ne]
  show ¬(x ||| y = 0#64) ↔ _
  rw [BitVec.or_eq_zero_iff]
  exact Decidable.not_and_iff_or_not

/-! ## Steps -/

def Linked (E : Env) (W : World) : Prop :=
  ∀ clock place isMut,
    W.address clock (.addrOf place isMut .runtime) =
      (BitVec.ofNat 64 (E.address (.resource place))).toInt

section Steps

variable {E : Env} {Λ : Layout} {W : World} {need : Atom → Nat} {w : Word} {used : Label → Prop}
  {base : Nat} {m m' : Machine} {ctl : Control} {own : List (Line Label Instr)}

abbrev Goal (Λ : Layout) (base : Nat) (m' : Machine) (ctl : Control) :
    Exit Label Way → State → Prop :=
  Lands (Label.block base) (.endword base) Trapped (Rep Λ) m' ctl

theorem lands_next {vals locals : List Int} {x : View}
    (h : Straight (exec E) used (Holds Λ vals locals) own (Holds Λ x.vals x.locals))
    (hx : m'.view = x) (hm : m.view.vals = vals ∧ m.view.locals = locals) (hctl : ctl = .next)
    {s : State} (hs : Rep Λ m s) : Segment (exec E) used (· = s) own (Goal Λ base m' ctl) := by
  subst hctl
  obtain ⟨rfl, rfl⟩ := hm
  refine h.conseq (fun t ht => ht ▸ hs) fun e t ht => ⟨ht.1, ?_⟩
  rw [Rep, hx]
  exact ht.2

theorem call_segment (hΛ : Λ.Sound E) (hserves : Serves E Λ W need w) {name : Atom} {sig : Sig}
    {p : EffectSet} {r : CapSet} {b : StackBound} (hoccurs : Occurs w (.call name sig p r b))
    (hroom : Λ.Room (m.values.length + need name)) {s : State} (hs : Rep Λ m s)
    (hacts : Acts W m.clock (.call name sig p r b) m.view m'.view ctl) :
    Segment (exec E) used (· = s) (asm [.call name]) (Goal Λ base m' ctl) := by
  obtain ⟨args, rest, hvals, hlen, hends⟩ := hacts
  have hroom' : Λ.base + 8 * (m.view.vals.length + need name) ≤ Λ.limit := hroom
  have hslots : Slots s.mem Λ.base (args ++ rest) := hvals ▸ hs.slots
  have htop := hs.top
  rw [hvals, List.length_append] at htop hroom'
  obtain ⟨hargs, hrest⟩ := slots_append.mp hslots
  have hcall := hserves.call m.clock name sig p r b hoccurs s args (Λ.base + 8 * rest.length) hlen
    hargs (by omega) (by omega) (by omega) hs.limit hs.frame
  cases htrap : W.callTrap m.clock name args with
  | some code =>
    rw [htrap] at hcall hends
    obtain ⟨-, rfl⟩ := hends
    obtain ⟨way, s', hcall, htrapped⟩ := hcall
    refine Segment.leave ?_
    rintro _ rfl
    refine ⟨way, s', ?_, way, rfl, htrapped⟩
    rw [exec, hcall]
  | none =>
    rw [htrap] at hcall hends
    obtain ⟨hview, rfl⟩ := hends
    obtain ⟨s', hcall, htop', hfits, h14, hsp, hres, hbelow, hframe⟩ := hcall
    refine Segment.next (R := fun t => t = s') ?_ (Segment.nil ?_)
    · rintro _ rfl
      refine ⟨s', ?_, rfl⟩
      rw [exec, hcall]
    · rintro _ rfl
      refine ⟨rfl, ?_⟩
      have hlocals := hΛ.locals_le
      rw [Rep, hview]
      exact
        { top := by
            simp only [View.withVals, List.length_append, List.length_reverse, List.length_map,
              List.length_range]
            omega
          limit := by rw [h14, hs.limit]
          frame := by rw [hsp, hs.frame]
          fits := by
            simp only [View.withVals, Layout.Room, List.length_append, List.length_reverse,
              List.length_map, List.length_range]
            omega
          slots := slots_append.mpr
            ⟨hres, hrest.congr fun x hx hx' => (hbelow x hx hx').symm⟩
          locals := hs.locals.congr fun x hx hx' => (hframe x hx (by omega)).symm }

theorem step_segment {cfg : Settings} {c : Supply} {op : Op} {s : State} (hΛ : Λ.Sound E)
    (hserves : Serves E Λ W need w) (hlinked : Linked E W)
    (hlocal : ∀ slot, localSlot op = some slot → slot < Λ.count)
    (hown : emitOp cfg base c op = some own) (hs : Rep Λ m s) (hoccurs : Occurs w op.kind)
    (hagree : Agreeing op.kind m) (hroomy : Roomy Λ need op.kind m)
    (hexec : execOp W op.kind m = .ok (m', ctl)) :
    Segment (exec E) c.issued (· = s) own (Goal Λ base m' ctl) := by
  have hacts := acts_of_execOp hexec
  have hhigh : ¬c.issued (.dsHigh c.dsHigh) := Nat.lt_irrefl _
  have htrap : ¬c.issued (.trapOk c.label) := Nat.lt_irrefl _
  obtain ⟨hpush, hcall⟩ := hroomy
  obtain ⟨kind, span⟩ := op
  dsimp only at *
  cases kind with
  | constI64 v =>
    simp only [emitOp] at hown
    split at hown
    · rename_i hv
      cases hown
      exact lands_next (emitPushI64_holds hΛ (hpush rfl) hhigh hv) hacts.1 ⟨rfl, rfl⟩ hacts.2 hs
    · cases hown
  | constBool b =>
    cases hown
    exact lands_next (emitPushI64_holds hΛ (hpush rfl) hhigh (by cases b <;> rfl)) hacts.1 ⟨rfl, rfl⟩
      hacts.2 hs
  | addrOf place isMut addrBase =>
    simp only [emitOp] at hown
    split at hown
    · rename_i hres
      obtain ⟨rfl, hres⟩ := hres
      cases hown
      refine lands_next (Segment.next (fun t ht => ?_) (emitPushRax_holds hΛ (hpush rfl) hhigh))
        hacts.1 ⟨rfl, rfl⟩ hacts.2 hs
      refine ⟨t.set .rax (BitVec.ofNat 64 (E.address (.resource place))), rfl,
        ht.scratch ⟨rfl, rfl, rfl, rfl⟩, ?_⟩
      rw [State.set_reg_self, hlinked]
    · cases hown
  | ptrAddConst ty offset =>
    cases hown
    obtain ⟨⟨a, rest, hvals, hview⟩, hctl⟩ := hacts
    exact lands_next (emitPtrAddConst_holds hΛ hagree hhigh) hview ⟨hvals, rfl⟩ hctl hs
  | ptrAddIndex ty scale =>
    cases hown
    obtain ⟨⟨b, a, rest, hvals, hview⟩, hctl⟩ := hacts
    exact lands_next (emitPtrAddIndex_holds hΛ hagree hhigh) hview ⟨hvals, rfl⟩ hctl hs
  | dup ty =>
    cases hown
    obtain ⟨⟨v, rest, hvals, hview⟩, hctl⟩ := hacts
    have hroom : Λ.Room (m.view.vals.length + 1) := hpush rfl
    rw [hvals] at hroom
    exact lands_next (emitDup_holds hΛ hroom hhigh) hview ⟨hvals, rfl⟩ hctl hs
  | drop ty =>
    cases hown
    obtain ⟨⟨v, rest, hvals, hview⟩, hctl⟩ := hacts
    exact lands_next (emitDrop_holds hΛ) hview ⟨hvals, rfl⟩ hctl hs
  | swap ta tb =>
    cases hown
    obtain ⟨⟨b, a, rest, hvals, hview⟩, hctl⟩ := hacts
    exact lands_next (emitSwap_holds hΛ) hview ⟨hvals, rfl⟩ hctl hs
  | addI64 =>
    cases hown
    obtain ⟨⟨b, a, rest, hvals, hview⟩, hctl⟩ := hacts
    refine lands_next (emitBinop_holds hΛ hhigh ?_) hview ⟨hvals, rfl⟩ hctl hs
    rintro x y rfl rfl
    exact BitVec.toInt_add x y
  | subI64 =>
    cases hown
    obtain ⟨⟨b, a, rest, hvals, hview⟩, hctl⟩ := hacts
    refine lands_next (emitBinop_holds hΛ hhigh ?_) hview ⟨hvals, rfl⟩ hctl hs
    rintro x y rfl rfl
    exact BitVec.toInt_sub
  | mulI64 =>
    cases hown
    obtain ⟨⟨b, a, rest, hvals, hview⟩, hctl⟩ := hacts
    refine lands_next (emitBinop_holds hΛ hhigh ?_) hview ⟨hvals, rfl⟩ hctl hs
    rintro x y rfl rfl
    exact BitVec.toInt_mul x y
  | cmp out k =>
    cases hown
    obtain ⟨⟨b, a, rest, hvals, hview⟩, hctl⟩ := hacts
    refine lands_next (emitCmp_holds hΛ hhigh ?_) hview ⟨hvals, rfl⟩ hctl hs
    rintro x y rfl rfl
    exact setcc_holds k x y
  | andBool =>
    cases hown
    obtain ⟨⟨b, a, rest, hvals, hview⟩, hctl⟩ := hacts
    refine lands_next (emitBool_holds hΛ ?_) hview ⟨hvals, rfl⟩ hctl hs
    rintro x y rfl rfl
    exact and_agrees (hagree _ _ rest hvals)
  | orBool =>
    cases hown
    obtain ⟨⟨b, a, rest, hvals, hview⟩, hctl⟩ := hacts
    refine lands_next (emitBool_holds hΛ ?_) hview ⟨hvals, rfl⟩ hctl hs
    rintro x y rfl rfl
    exact or_agrees x y
  | notBool =>
    cases hown
    obtain ⟨⟨a, rest, hvals, hview⟩, hctl⟩ := hacts
    exact lands_next (emitNot_holds hΛ) hview ⟨hvals, rfl⟩ hctl hs
  | localSet slot ty =>
    simp only [emitOp] at hown
    split at hown
    · cases hown
      obtain ⟨⟨v, rest, hvals, hview⟩, hctl⟩ := hacts
      exact lands_next (emitStoreLocal_holds hΛ (hlocal slot rfl)) hview ⟨hvals, rfl⟩ hctl hs
    · cases hown
  | localGet slot ty =>
    simp only [emitOp] at hown
    split at hown
    · cases hown
      exact lands_next (emitLoadLocal_holds hΛ (hlocal slot rfl) (hpush rfl) hhigh) hacts.1
        ⟨rfl, rfl⟩ hacts.2 hs
    · cases hown
  | call name sig p r b =>
    simp only [emitOp] at hown
    split at hown
    · cases hown
    · cases hown
      exact call_segment hΛ hserves hoccurs (hcall name sig p r b rfl) hs hacts
  | trapIfFalse code =>
    cases hown
    obtain ⟨v, rest, hvals, hview, rfl⟩ := hacts
    have hrep : Holds Λ (v :: rest) m.view.locals s := hvals ▸ hs
    refine (emitTrapIfFalse_holds hΛ htrap).conseq (fun t ht => ht ▸ hrep) fun e t ht => ?_
    · rcases ht with ⟨hv, rfl, ht⟩ | ⟨hv, way, rfl, hway, hrdi⟩
      · rw [if_neg hv]
        refine ⟨rfl, ?_⟩
        rw [Rep, hview]
        exact ht
      · rw [if_pos hv]
        exact ⟨way, rfl, hway, hrdi⟩
  | br target =>
    cases hown
    obtain ⟨hview, rfl⟩ := hacts
    refine Segment.jump ?_
    rintro _ rfl
    refine ⟨_, _, rfl, rfl, ?_⟩
    rw [Rep, hview]
    exact hs
  | brIf thenTgt elseTgt =>
    cases hown
    obtain ⟨v, rest, hvals, hview, rfl⟩ := hacts
    have hrep : Holds Λ (v :: rest) m.view.locals s := hvals ▸ hs
    refine (emitBrIf_holds hΛ).conseq (fun t ht => ht ▸ hrep) fun e t ht => ⟨ht.1, ?_⟩
    · rw [Rep, hview]
      exact ht.2
  | ret =>
    cases hown
    obtain ⟨hview, rfl⟩ := hacts
    refine Segment.jump ?_
    rintro _ rfl
    refine ⟨_, _, rfl, rfl, ?_⟩
    rw [Rep, hview]
    exact hs
  | _ => cases hown

theorem push_stops {cfg : Settings} {c : Supply} {op : Op} {s : State} (hΛ : Λ.Sound E)
    (hguard : cfg.dsGuardsElided = false) (hown : emitOp cfg base c op = some own) (hs : Rep Λ m s)
    (hpush : Pushes op.kind = true) (hroom : ¬Λ.Room (m.values.length + 1)) :
    Segment (exec E) used (· = s) own fun e _ => e = .out .stackOverflow := by
  have hon : cfg.guard = true := by rw [Settings.guard, hguard, Bool.not_false]
  have hstop : ∀ r more, r ≠ .r14 → Segment (exec E) used (Holds Λ m.view.vals m.view.locals)
      (emitGuard r true ++ more) fun e _ => e = .out .stackOverflow := fun r more hr =>
    emitGuard_stops hΛ r (fun _ hs => hs) hroom hr
  have hstart : ∀ t, t = s → Holds Λ m.view.vals m.view.locals t := fun t ht => ht ▸ hs
  obtain ⟨kind, span⟩ := op
  dsimp only at *
  cases kind with
  | constI64 v =>
    simp only [emitOp] at hown
    split at hown
    · cases hown
      rw [emitPushI64, hon]
      exact (hstop .rax _ (by decide)).pre hstart
    · cases hown
  | constBool b =>
    cases hown
    rw [emitPushI64, hon]
    exact (hstop .rax _ (by decide)).pre hstart
  | addrOf place isMut addrBase =>
    simp only [emitOp] at hown
    split at hown
    · cases hown
      rw [emitPushRax, hon]
      refine Segment.next (fun t ht => ⟨_, rfl, ?_⟩) (hstop .rcx _ (by decide))
      exact (hstart t ht).scratch ⟨rfl, rfl, rfl, rfl⟩
    · cases hown
  | dup ty =>
    cases hown
    rw [emitDup, emitPushRax, hon]
    refine Segment.next (fun t ht => ⟨t.set .rax (t.load (t.place .r15 (-8))), rfl, ?_⟩)
      (hstop .rcx _ (by decide))
    exact (hstart t ht).scratch ⟨rfl, rfl, rfl, rfl⟩
  | localGet slot ty =>
    simp only [emitOp] at hown
    split at hown
    · cases hown
      rw [emitLoadLocal, hon]
      exact (hstop .rax _ (by decide)).pre hstart
    · cases hown
  | _ => cases hpush

end Steps

end Tyu.X86

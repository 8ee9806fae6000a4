import Tyu.Lower.Projections

/-! # Where projections lead -/

namespace Tyu.Irgen

open Lib

/-! ## The code of a hop, run -/

def runOps (W : World) : List OpKind → Machine → Except Fault Machine
  | [], m => .ok m
  | kind :: rest, m =>
    match execOp W kind m with
    | .ok (m', _) => runOps W rest m'.tick
    | .error f => .error f

def isLoad : OpKind → Bool
  | .load _ => true
  | _ => false

def Hop.indices : Hop → List Int
  | .dynamic i => [i]
  | _ => []

/-- The code of a hop, run on the word `a`, comes to the address `target` of an object and
leaves the word `a'`. -/
def HopRuns (W : World) (hop : Hop) (ops : List OpKind) (a target a' : Int) : Prop :=
  ∃ (m m₁ m₂ : Machine) (below : List Int), m.values = hop.indices ++ a :: below ∧
    runOps W (ops.takeWhile fun kind => !isLoad kind) m = .ok m₁ ∧
    m₁.values.head? = some target ∧
    runOps W ops m = .ok m₂ ∧ m₂.values.head? = some a'

def shift (hop : Hop) (move : OpKind) : Int :=
  match hop, move with
  | .dynamic i, .ptrAddIndex _ scale => i * scale
  | _, .ptrAddConst _ off => off
  | _, _ => 0

section Exec

variable {W : World} {m m' : Machine} {ctl : Control} {a : Int} {below : List Int}

variable {tid : TypeId} {db : NominalDb} {hop : Hop} {t t' : TypeAtom}

theorem exec_ptrAddConst {off : Nat} (hm : m.values = a :: below)
    (h : execOp W (.ptrAddConst tid off) m = .ok (m', ctl)) :
    m'.values = wrapI64 (a + off) :: below := by
  simp only [execOp, bind_eq_ok, pure_eq_ok, Prod.exists, Prod.mk.injEq] at h
  obtain ⟨p, m₁, hpop, m₂, hpush, rfl, -⟩ := h
  have hitems := (Machine.of_pop hpop).1
  rw [Machine.values, hitems, List.map_cons] at hm
  obtain ⟨rfl, hrest⟩ := List.cons.inj hm
  rw [Machine.values, (Machine.of_push hpush).1, List.map_cons, hrest]
  rfl

theorem exec_ptrAddIndex {scale : Nat} {i : Int} (hm : m.values = i :: a :: below)
    (h : execOp W (.ptrAddIndex tid scale) m = .ok (m', ctl)) :
    m'.values = wrapI64 (a + i * scale) :: below := by
  simp only [execOp, bind_eq_ok, pure_eq_ok, Prod.exists, Prod.mk.injEq] at h
  obtain ⟨idx, m₁, hidx, p, m₂, hpop, m₃, hpush, rfl, -⟩ := h
  rw [Machine.values, (Machine.of_pop hidx).1, (Machine.of_pop hpop).1, List.map_cons,
    List.map_cons] at hm
  obtain ⟨rfl, hbase⟩ := List.cons.inj hm
  obtain ⟨rfl, hrest⟩ := List.cons.inj hbase
  rw [Machine.values, (Machine.of_push hpush).1, List.map_cons, hrest]
  rfl

theorem exec_load (hm : m.values = a :: below) (h : execOp W (.load tid) m = .ok (m', ctl)) :
    m'.values = W.load m.clock m.mem a :: below := by
  obtain ⟨c, rest, hitems, hitems', -, -⟩ := of_readTop h
  rw [Machine.values, hitems, List.map_cons] at hm
  obtain ⟨rfl, hrest⟩ := List.cons.inj hm
  rw [Machine.values, hitems', List.map_cons, hrest]
  rfl

theorem Moves.exec {move : OpKind} (h : Moves db hop t move t')
    (hm : m.values = hop.indices ++ a :: below) (hrun : execOp W move m = .ok (m', ctl)) :
    m'.values = wrapI64 (a + shift hop move) :: below := by
  cases h with
  | field hs hf => exact exec_ptrAddConst hm hrun
  | index he hl hn hk => exact exec_ptrAddConst hm hrun
  | dynamic he hl hk => exact exec_ptrAddIndex hm hrun

theorem Moves.not_load {move : OpKind} (h : Moves db hop t move t') : isLoad move = false := by
  cases h <;> rfl

theorem runOps_cons {kind : OpKind} {rest : List OpKind}
    (h : runOps W (kind :: rest) m = .ok m') :
    ∃ m₁ ctl, execOp W kind m = .ok (m₁, ctl) ∧ runOps W rest m₁.tick = .ok m' := by
  unfold runOps at h
  split at h
  · next m₁ ctl hexec => exact ⟨m₁, ctl, hexec, h⟩
  · cases h

theorem HopCode.address {v v' : Value} {ops : List OpKind} {move : OpKind}
    (h : HopCode db hop v ops v' t t' move) :
    ops.takeWhile (fun kind => !isLoad kind) = [move] := by
  have hmove : (!isLoad move) = true := by
    rw [h.moves.not_load]
    rfl
  have hops := h.code
  split at hops
  · subst hops
    simp only [List.takeWhile_cons, hmove, List.takeWhile_nil, if_true]
  · obtain ⟨tid, rfl⟩ := hops
    have hload : (!isLoad (.load tid)) = false := rfl
    simp only [List.takeWhile_cons, hmove, hload, if_true, Bool.false_eq_true, if_false]

/-- The code of a hop comes to the moved base; a reference is that address, a value is what
the memory has there. -/
theorem HopCode.runs {v v' : Value} {ops : List OpKind} {move : OpKind} {target a' : Int}
    (hcode : HopCode db hop v ops v' t t' move) (h : HopRuns W hop ops a target a') :
    target = wrapI64 (a + shift hop move) ∧
      if v.byRef then a' = target else ∃ clock mem, a' = W.load clock mem target := by
  obtain ⟨m, m₁, m₂, below, hm, hrun₁, htarget, hrun₂, ha'⟩ := h
  rw [hcode.address] at hrun₁
  obtain ⟨m₃, ctl, hexec, hrun₁⟩ := runOps_cons hrun₁
  have hvalues := hcode.moves.exec hm hexec
  cases hrun₁
  have htarget : m₃.values.head? = some target := htarget
  rw [hvalues] at htarget
  cases htarget
  refine ⟨rfl, ?_⟩
  have hops := hcode.code
  split at hops
  · next hby =>
    rw [if_pos hby]
    subst hops
    obtain ⟨m₄, ctl', hexec', hrun₂⟩ := runOps_cons hrun₂
    cases hexec.symm.trans hexec'
    cases hrun₂
    have ha' : m₃.values.head? = some a' := ha'
    rw [hvalues] at ha'
    exact (Option.some.inj ha').symm
  · next hby =>
    rw [if_neg hby]
    obtain ⟨tid, rfl⟩ := hops
    obtain ⟨m₄, ctl', hexec', hrun₂⟩ := runOps_cons hrun₂
    cases hexec.symm.trans hexec'
    obtain ⟨m₅, ctl₂, hload, hrun₂⟩ := runOps_cons hrun₂
    have hvalues' : m₃.tick.values = wrapI64 (a + shift hop move) :: below := hvalues
    have hloaded := exec_load hvalues' hload
    cases hrun₂
    have ha' : m₅.values.head? = some a' := ha'
    rw [hloaded] at ha'
    exact ⟨_, _, (Option.some.inj ha').symm⟩

end Exec

def Hop.machine (hop : Hop) (a : Int) : Machine where
  stack := ⟨hop.indices.map (fun i => ⟨⟨i, none⟩, TY_I64⟩) ++ [⟨⟨a, none⟩, TY_PTR⟩], by
    cases hop <;> simp [Hop.indices]⟩
  locals := []
  mem := ⟨[], 0, 0⟩
  clock := 0

theorem HopCode.run {db : NominalDb} {hop : Hop} {v v' : Value} {ops : List OpKind}
    {t t' : TypeAtom} {move : OpKind} (hcode : HopCode db hop v ops v' t t' move) (W : World)
    (a : Int) : HopRuns W hop ops a (wrapI64 (a + shift hop move))
      (if v.byRef then wrapI64 (a + shift hop move)
        else W.load 1 ⟨[], 0, 0⟩ (wrapI64 (a + shift hop move))) := by
  have hm : (hop.machine a).values = hop.indices ++ [a] := by
    cases hop <;> rfl
  obtain ⟨m, hexec, hitems, hclock, hmem⟩ : ∃ m, execOp W move (hop.machine a) = .ok (m, .next) ∧
      m.stack.items = [⟨⟨wrapI64 (a + shift hop move), none⟩, TY_PTR⟩] ∧ m.clock = 0 ∧
      m.mem = ⟨[], 0, 0⟩ := by
    cases hcode.moves <;> exact ⟨_, rfl, rfl, rfl, rfl⟩
  have hvalues : m.values = [wrapI64 (a + shift hop move)] := by
    rw [Machine.values, hitems]
    rfl
  have hrun : runOps W [move] (hop.machine a) = .ok m.tick := by
    rw [runOps, hexec]
    rfl
  have hops := hcode.code
  split at hops
  · next hby =>
    rw [if_pos hby]
    refine ⟨hop.machine a, m.tick, m.tick, [], hm, ?_, congrArg List.head? hvalues, ?_,
      congrArg List.head? hvalues⟩
    · rw [hcode.address]
      exact hrun
    · rw [hops]
      exact hrun
  · next hby =>
    rw [if_neg hby]
    obtain ⟨tid, hops⟩ := hops
    obtain ⟨m', hload, hloaded⟩ : ∃ m', execOp W (.load tid) m.tick = .ok (m', .next) ∧
        m'.values = [W.load 1 ⟨[], 0, 0⟩ (wrapI64 (a + shift hop move))] := by
      obtain ⟨⟨items, hb⟩, locals, mem, clock⟩ := m
      cases hitems
      cases hclock
      cases hmem
      exact ⟨_, rfl, rfl⟩
    refine ⟨hop.machine a, m.tick, m'.tick, [], hm, ?_, congrArg List.head? hvalues, ?_,
      congrArg List.head? hloaded⟩
    · rw [hcode.address]
      exact hrun
    · rw [hops, runOps, hexec]
      show runOps W [.load tid] m.tick = _
      rw [runOps, hload]
      rfl

end Tyu.Irgen

import Tyu.Repl.Engine
import Tyu.Repl.HeapSize

/-!
# What an operation can do

Every operation of the engine is built from a few kinds of changes: it looks at the core but not
at the output written so far, it updates the core beside the heap, it changes the heap by a heap
operation and records its effect, and it uses the device.
-/

namespace Tyu.Repl

open Lib Lib.Wire Exec

variable {σ α β : Type}

def ExecCore.prepend (pre : Bytes) (st : ExecCore) : ExecCore := { st with out := pre ++ st.out }

def Effect.isTrace : Effect → Bool
  | .output _ _ | .call _ _ | .periph _ _ _ _ _ => true
  | _ => false

def HeapOp.isCreate : HeapOp → Bool
  | .create _ => true
  | _ => false

/-- An update beside the heap: it records effects of the trace only, and adds to the output
without looking at it. -/
structure Beside (f : ExecCore → ExecCore) : Prop where
  heap : ∀ st, (f st).heap = st.heap
  journal : ∀ st, ∃ es, (f st).journal = es ++ st.journal ∧ ∀ e ∈ es, e.isTrace = true
  out : ∀ pre st, f (st.prepend pre) = (f st).prepend pre

def ByHeapOp (o : HeapOp) (h : RegionHeap) : Except Stop (α × Effect) × RegionHeap → Prop
  | (.ok (_, e), h') => o.exec h = some (some e, h')
  | (.error _, h') => o.exec h = some (none, h') ∨ h' = h

/-- The computations an operation is made of; `creates` allows it to create regions. -/
inductive Does (creates : Bool) : {α : Type} → Exec σ α → Prop
  | pure {α : Type} (a : α) : Does creates (pure a : Exec σ α)
  | stop {α : Type} (r : Stop) : Does creates (stop r : Exec σ α)
  | bind {α β : Type} {x : Exec σ α} {f : α → Exec σ β} (hx : Does creates x)
      (hf : ∀ a, Does creates (f a)) : Does creates (x >>= f)
  | view {α : Type} (f : ExecCore → α) (hf : ∀ pre st, f (st.prepend pre) = f st) :
      Does creates (view f : Exec σ α)
  | update (f : ExecCore → ExecCore) (hf : Beside f) : Does creates (update f : Exec σ PUnit)
  | device {α : Type} (f : σ → α × σ) : Does creates (device f)
  | changeHeap {α : Type} (f : RegionHeap → Except Stop (α × Effect) × RegionHeap)
      (hf : ∀ h, ∃ o : HeapOp, (o.isCreate = true → creates = true) ∧ ByHeapOp o h (f h)) :
      Does creates (changeHeap f : Exec σ α)

/-! ## The output -/

def CarriesOut (x : Exec σ α) : Prop :=
  ∀ pre st d, x (st.prepend pre, d) = ((x (st, d)).1, ((x (st, d)).2.1.prepend pre, (x (st, d)).2.2))

theorem carriesOut_bind {x : Exec σ α} {f : α → Exec σ β} (hx : CarriesOut x)
    (hf : ∀ a, CarriesOut (f a)) : CarriesOut (x >>= f) := by
  intro pre st d
  rcases hr : x (st, d) with ⟨r, st', d'⟩
  have hpre := hx pre st d
  rw [hr] at hpre
  cases r with
  | error e => rw [Stoppable.bind_of_error hpre, Stoppable.bind_of_error hr]
  | ok a => rw [Stoppable.bind_of_ok hpre, Stoppable.bind_of_ok hr, hf a pre st' d']

theorem Does.carriesOut {creates : Bool} {x : Exec σ α} (h : Does creates x) : CarriesOut x := by
  induction h with
  | pure a => exact fun pre st d => rfl
  | stop r => exact fun pre st d => rfl
  | bind hx hf ihx ihf => exact carriesOut_bind ihx ihf
  | view f hf =>
    intro pre st d
    show (Except.ok (f (st.prepend pre)), (st.prepend pre, d)) = _
    rw [hf]
    rfl
  | update f hf =>
    intro pre st d
    show (Except.ok PUnit.unit, (f (st.prepend pre), d)) = _
    rw [hf.out]
    rfl
  | device f => exact fun pre st d => rfl
  | changeHeap f hf =>
    intro pre st d
    rcases hr : f st.heap with ⟨r | ⟨a, e⟩, h⟩ <;>
      simp only [Repl.changeHeap, ExecCore.prepend, hr]

/-! ## The heap and its journal

What the operations keep is said for any undo log over the heap that takes effects back as
the journal does, and for any invariant that the heap operations keep: the agreement of
heaps, and the size of the arena. -/

/-- The heap is good and the journal leads back to one that matches `b`. -/
structure Logged (L : UndoLog RegionHeap Effect) (I : RegionHeap → Prop) (b : RegionHeap)
    (st : ExecCore) : Prop where
  good : I st.heap
  back : L.LeadsTo b st.journal st.heap

/-- The log takes effects back, and the heap operations that are `ok` keep the invariant and
lead back. -/
structure Tracks (L : UndoLog RegionHeap Effect) (I : RegionHeap → Prop)
    (ok : HeapOp → RegionHeap → Prop) : Prop where
  undo : L.undo = Effect.compensate
  exec : ∀ {o : HeapOp} {h h' : RegionHeap} {e : Option Effect}, I h → ok o h →
    o.exec h = some (e, h') → I h' ∧ LeadsBack L.same h e h'

theorem tracks_heapLog : Tracks heapLog Rep HeapOp.Allowed := ⟨rfl, HeapOp.exec_spec⟩

theorem tracks_sizeLog : Tracks sizeLog Sized fun _ _ => True :=
  ⟨rfl, fun hs _ hx => HeapOp.exec_sized hs hx⟩

theorem compensate_trace {e : Effect} (he : e.isTrace = true) (h : RegionHeap) :
    e.compensate h = some h := by
  cases e with
  | output | call | periph => rfl
  | store | regionCreate | intern | regionAlloc | regionReset | regionDestroy | scopedEnter =>
    cases he

section Logs

variable {L : UndoLog RegionHeap Effect} {I : RegionHeap → Prop}
  {ok : HeapOp → RegionHeap → Prop} {b : RegionHeap}

theorem leadsTo_trace (t : Tracks L I ok) {h : RegionHeap} {es es' : List Effect}
    (hes : ∀ e ∈ es, e.isTrace = true) (hb : L.LeadsTo b es' h) : L.LeadsTo b (es ++ es') h := by
  induction es with
  | nil => exact hb
  | cons e es ih =>
    have hrest := ih fun e he => hes e (List.mem_cons_of_mem _ he)
    refine hrest.record ?_ (L.refl h)
    rw [t.undo]
    exact compensate_trace (hes e List.mem_cons_self) h

theorem Logged.byHeapOp (t : Tracks L I ok) {h' : RegionHeap} {st : ExecCore}
    (hl : Logged L I b st) {o : HeapOp} (ha : ok o st.heap) {r : Except Stop (α × Effect)}
    (ho : ByHeapOp o st.heap (r, h')) :
    match r with
    | .ok (_, e) => Logged L I b { st with heap := h', journal := e :: st.journal }
    | .error _ => Logged L I b { st with heap := h' } := by
  cases r with
  | error r =>
    rcases ho with ho | rfl
    · obtain ⟨hgood, hsame⟩ := t.exec hl.good ha ho
      exact ⟨hgood, hl.back.of_same hsame⟩
    · exact ⟨hl.good, hl.back⟩
  | ok p =>
    obtain ⟨hgood, k, hk, hsame⟩ := t.exec hl.good ha ho
    refine ⟨hgood, hl.back.record ?_ hsame⟩
    rw [t.undo]
    exact hk

theorem Does.logged (t : Tracks L I ok) {creates : Bool}
    (hok : ∀ (o : HeapOp) h, (o.isCreate = true → creates = true) → ok o h) {x : Exec σ α}
    (h : Does creates x) :
    Stoppable.Moves (fun s s' => Logged L I b s.1 → Logged L I b s'.1) x := by
  induction h with
  | pure a => exact fun s hl => hl
  | stop r => exact fun s hl => hl
  | bind hx hf ihx ihf => exact Stoppable.moves_bind (fun s m s' h h' hl => h' (h hl)) ihx ihf
  | view f hf => exact fun s hl => hl
  | update f hf =>
    intro s hl
    obtain ⟨es, hjournal, hes⟩ := hf.journal s.1
    refine ⟨?_, ?_⟩
    · show I (f s.1).heap
      rw [hf.heap]
      exact hl.good
    · show L.LeadsTo b (f s.1).journal (f s.1).heap
      rw [hf.heap, hjournal]
      exact leadsTo_trace t hes hl.back
  | device f => exact fun s hl => hl
  | changeHeap f hf =>
    intro s hl
    obtain ⟨o, hcreate, ho⟩ := hf s.1.heap
    unfold Repl.changeHeap
    rcases hr : f s.1.heap with ⟨r | ⟨a, e⟩, h⟩
    · rw [hr] at ho
      exact hl.byHeapOp t (hok o _ hcreate) ho
    · rw [hr] at ho
      exact hl.byHeapOp t (hok o _ hcreate) ho

end Logs

/-! ## The operations of the engine -/

namespace Does

variable {creates : Bool}

theorem orStop (r : Stop) (x : Option α) : Does creates (Exec.orStop r x : Exec σ α) := by
  cases x with
  | none => exact stop r
  | some a => exact pure a

theorem ofExcept {ε : Type} (f : ε → Stop) (x : Except ε α) :
    Does creates (Exec.ofExcept f x : Exec σ α) := by
  cases x with
  | error e => exact stop _
  | ok a => exact pure a

theorem stack : Does creates (Exec.view ExecCore.stack : Exec σ _) := view _ fun _ _ => rfl

theorem depth : Does creates (Exec.view fun st => st.stack.length : Exec σ _) :=
  view _ fun _ _ => rfl

theorem frames : Does creates (Exec.view ExecCore.frames : Exec σ _) := view _ fun _ _ => rfl

theorem heap : Does creates (Exec.view ExecCore.heap : Exec σ _) := view _ fun _ _ => rfl

theorem setStack (stack : List Slot) : Does creates (Repl.setStack stack : Exec σ _) :=
  update _ ⟨fun _ => rfl, fun _ => ⟨[], rfl, by simp⟩, fun _ _ => rfl⟩

theorem setFrames (frames : List Frame) : Does creates (Repl.setFrames frames : Exec σ _) :=
  update _ ⟨fun _ => rfl, fun _ => ⟨[], rfl, by simp⟩, fun _ _ => rfl⟩

theorem push (s : Slot) : Does creates (Repl.push s : Exec σ _) :=
  update _ ⟨fun _ => rfl, fun _ => ⟨[], rfl, by simp⟩, fun _ _ => rfl⟩

theorem emit (b : UInt8) : Does creates (Repl.emit b : Exec σ _) :=
  update _ ⟨fun _ => rfl, fun _ => ⟨[], rfl, by simp⟩, fun pre st => by
    simp only [ExecCore.prepend, List.append_assoc]⟩

theorem record {e : Effect} (he : e.isTrace = true) : Does creates (Repl.record e : Exec σ _) :=
  update _ ⟨fun _ => rfl, fun _ => ⟨[e], rfl, by simpa using he⟩, fun _ _ => rfl⟩

theorem ofAccess (span : Span) (x : Access α) : Does creates (Repl.ofAccess span x : Exec σ α) := by
  cases x with
  | ok a => exact pure a
  | fault f => exact stop _
  | panic => exact stop _

theorem orAssert (span : Span) (x : Access α) : Does creates (Repl.orAssert span x : Exec σ α) := by
  cases x with
  | ok a => exact pure a
  | fault f => exact stop _
  | panic => exact stop _

theorem popAny : Does creates (Repl.popAny : Exec σ _) := by
  refine bind stack ?_
  intro stack
  cases stack with
  | nil => exact pure _
  | cons s rest => exact bind (setStack rest) fun _ => pure _

theorem popAs (as : Value → Option α) : Does creates (Repl.popAs as : Exec σ _) := by
  refine bind popAny ?_
  intro r
  cases r with
  | error f => exact pure _
  | ok s =>
    dsimp only
    cases as s.val with
    | some a => exact pure _
    | none => exact pure _

theorem popInt (w : Word) (span : Span) : Does creates (Repl.popInt w span : Exec σ _) :=
  bind (popAs _) fun _ => ofExcept _ _

theorem popBool (w : Word) (span : Span) : Does creates (Repl.popBool w span : Exec σ _) :=
  bind (popAs _) fun _ => ofExcept _ _

theorem popPtr (w : Word) (span : Span) : Does creates (Repl.popPtr w span : Exec σ _) :=
  bind (popAs _) fun _ => ofExcept _ _

theorem popTwo (w : Word) (span : Span) (want : ValKind) (as : Value → Option α) :
    Does creates (Repl.popTwo w span want as : Exec σ _) :=
  bind (popAs as) fun _ => bind (popAs as) fun _ => bind (ofExcept _ _) fun _ =>
    bind (ofExcept _ _) fun _ => pure _

theorem heapOp {γ : Type} (span : Span) (f : RegionHeap → Except HeapFault (γ × RegionHeap))
    (effect : γ → Effect) (result : γ → α) (o : HeapOp) (hcreate : o.isCreate = false)
    (ho : ∀ h x h', f h = .ok (x, h') → o.exec h = some (some (effect x), h')) :
    Does creates (Repl.heapOp span f effect result : Exec σ α) := by
  refine changeHeap _ fun h => ⟨o, fun hc => ?_, ?_⟩
  · rw [hcreate] at hc
    cases hc
  · cases hf : f h with
    | error fault => exact .inr rfl
    | ok p => exact ho h p.1 p.2 hf

theorem intern (span : Span) :
    Does creates (Repl.heapOp span (fun h => h.intern []) (fun r => .intern r.1 r.2) Prod.fst :
      Exec σ Nat) := by
  refine heapOp span _ _ _ .resource rfl ?_
  intro h x h' hf
  simp only [HeapOp.exec, hf]

theorem scopedEnter (span : Span) (ptr len : UInt64) :
    Does creates (Repl.heapOp span (fun h => h.scopedEnter ptr len)
      (fun r => .scopedEnter r.1 r.2) Prod.fst : Exec σ Nat) := by
  refine heapOp span _ _ _ (.scopedEnter ptr len) rfl ?_
  intro h x h' hf
  simp only [HeapOp.exec, hf]

theorem resourceAddr (place : Atom) (span : Span) :
    Does creates (Repl.resourceAddr place span : Exec σ Nat) := by
  refine bind (view _ fun _ _ => rfl) ?_
  intro resources
  cases resources.find? fun e => e.1 = place with
  | some e => exact pure _
  | none =>
    refine bind (intern span) fun addr => bind (update _ ?_) fun _ => pure _
    exact ⟨fun _ => rfl, fun _ => ⟨[], rfl, by simp⟩, fun _ _ => rfl⟩

/-! ### Built-in words -/

theorem recordOutput (len : Nat) : Does creates (Repl.recordOutput len : Exec σ _) := by
  unfold Repl.recordOutput
  by_cases hlen : len = 0
  · rw [if_pos hlen]
    exact pure _
  · rw [if_neg hlen]
    exact bind (view _ fun _ _ => rfl) fun _ => record rfl

theorem popRaw (span : Span) : Does creates (Repl.popRaw span : Exec σ _) := by
  refine bind popAny ?_
  intro r
  cases r with
  | error f => exact stop _
  | ok s => exact pure _

theorem writeStr (span : Span) (ptr : UInt64) (n i : Nat) :
    Does creates (Repl.writeStr span ptr n i : Exec σ _) := by
  induction n generalizing i with
  | zero => exact pure _
  | succ n ih =>
    exact bind heap fun _ => bind (orAssert _ _) fun _ => bind (emit _) fun _ => ih (i + 1)

theorem execute (span : Span) {b : Builtin} (hb : b = .regionCreate → creates = true) :
    Does creates (b.execute span : Exec σ _) := by
  cases b with
  | testioWriteByte => exact bind (popRaw span) fun _ => bind (emit _) fun _ => recordOutput 1
  | testioWriteStr | ioLog =>
    exact bind (popRaw span) fun _ => bind heap fun _ => bind (orAssert _ _) fun _ =>
      bind (writeStr _ _ _ _) fun _ => recordOutput _
  | testioExit => exact bind (popRaw span) fun _ => stop _
  | regionCreate =>
    refine bind (popRaw span) fun size => bind (changeHeap _ fun h => ?_) fun _ => push _
    refine ⟨.create size.asU64, fun _ => hb rfl, ?_⟩
    rcases hc : h.regionCreate size.asU64 with ⟨f | ⟨handle, old⟩, h'⟩
    · exact .inl (by simp only [HeapOp.exec, hc])
    · simp only [ByHeapOp, HeapOp.exec, hc]
  | regionAlloc =>
    refine bind (popRaw span) fun size => bind (popRaw span) fun handle => bind ?_ fun _ => push _
    refine heapOp span _ _ _ (.alloc handle.asU64 size.asU64) rfl ?_
    intro h x h' hf
    simp only [HeapOp.exec, hf]
  | regionReset =>
    refine bind (popRaw span) fun handle => ?_
    refine heapOp span _ _ _ (.reset handle.asU64) rfl ?_
    intro h x h' hf
    simp only [HeapOp.exec, hf]
  | regionDestroy =>
    refine bind (popRaw span) fun handle => ?_
    refine heapOp span _ _ _ (.destroy handle.asU64) rfl ?_
    intro h x h' hf
    simp only [HeapOp.exec, hf]

/-! ### Loads, stores and registers -/

theorem stepLoad (c : Compiled) (w : Word) (ty : TypeId) (span : Span) :
    Does creates (Repl.stepLoad c w ty span : Exec σ _) :=
  bind (orStop _ _) fun _ => bind (popPtr w span) fun _ => bind heap fun _ =>
    bind (ofAccess span _) fun _ => bind (orStop _ _) fun _ => push _

theorem stepStore (c : Compiled) (w : Word) (ty : TypeId) (span : Span) :
    Does creates (Repl.stepStore c w ty span : Exec σ _) := by
  refine bind (orStop _ _) fun r => bind (popInt w span) fun v => bind (popPtr w span) fun addr =>
    changeHeap _ fun h => ?_
  have hwidth : (UInt8.ofNat (bitsToWidth r.1)).toNat = bitsToWidth r.1 :=
    UInt8.toNat_ofNat_of_lt' (Nat.mod_lt _ (by omega))
  refine ⟨.store addr (UInt8.ofNat (bitsToWidth r.1)) v.toUInt64.toNat, (fun hc => by cases hc), ?_⟩
  cases hs : h.store addr (bitsToWidth r.1) v.toUInt64.toNat with
  | ok p => simp only [ByHeapOp, HeapOp.exec, hwidth, hs]
  | fault f => exact .inr rfl
  | panic => exact .inr rfl

theorem stepScopedEnter (w : Word) (ty : TypeId) (len : Nat) (span : Span) :
    Does creates (Repl.stepScopedEnter w ty len span : Exec σ _) := by
  unfold Repl.stepScopedEnter
  cases w.typeClasses.get? ty.idx with
  | none => exact stop _
  | some k =>
    cases k with
    | slice =>
      refine bind stack ?_
      intro stack
      cases stack with
      | nil => exact stop _
      | cons top rest =>
        dsimp only
        cases top.val with
        | ptr base => exact bind (scopedEnter span _ _) fun _ => push _
        | int v | bool b => exact stop _
    | regionRef | regionRefMut =>
      refine bind stack ?_
      intro stack
      cases stack with
      | nil => exact stop _
      | cons top rest => exact push top
    | i64 | bool | str | ptr | ptrMut | mmio | other => exact stop _

theorem mmioWidth (c : Compiled) (w : Word) (ty : TypeId) (span : Span) :
    Does creates (Repl.mmioWidth c w ty span : Exec σ _) := bind (orStop _ _) fun _ => pure _

theorem popTarget (c : Compiled) (w : Word) (span : Span) :
    Does creates (Repl.popTarget c w span : Exec σ _) := bind (popPtr w span) fun _ => orStop _ _

theorem readDevice (p : Peripheral σ) (target : Nat × Nat) (width : Nat) (span : Span) :
    Does creates (Repl.readDevice p target width span) := bind (device _) fun _ => orStop _ _

theorem writeDevice (p : Peripheral σ) (target : Nat × Nat) (width : Nat) (val : UInt64)
    (span : Span) : Does creates (Repl.writeDevice p target width val span) := by
  refine bind (device _) fun ok => ?_
  by_cases hok : ok = true
  · rw [if_pos hok]
    exact record rfl
  · rw [if_neg hok]
    exact stop _

theorem stepMmioLoad (c : Compiled) (p : Peripheral σ) (w : Word) (ty : TypeId) (span : Span) :
    Does creates (Repl.stepMmioLoad c p w ty span) :=
  bind (mmioWidth c w ty span) fun _ => bind (popTarget c w span) fun _ =>
    bind (readDevice p _ _ span) fun _ => bind (push _) fun _ => record rfl

theorem stepMmioStore (c : Compiled) (p : Peripheral σ) (w : Word) (ty : TypeId) (k : WriteKind)
    (span : Span) : Does creates (Repl.stepMmioStore c p w ty k span) := by
  refine bind (mmioWidth c w ty span) fun _ => bind (popInt w span) fun _ =>
    bind (popTarget c w span) fun _ => ?_
  by_cases hk : k = .plain
  · rw [if_pos hk]
    exact writeDevice p _ _ _ span
  · rw [if_neg hk]
    exact bind (readDevice p _ _ span) fun _ => writeDevice p _ _ _ span

theorem stepMmioLoadField (c : Compiled) (p : Peripheral σ) (w : Word) (regTy fieldTy : TypeId)
    (mask shift : Nat) (span : Span) :
    Does creates (Repl.stepMmioLoadField c p w regTy fieldTy mask shift span) :=
  bind (mmioWidth c w regTy span) fun _ => bind (popTarget c w span) fun _ =>
    bind (readDevice p _ _ span) fun _ => bind (push _) fun _ => record rfl

theorem stepMmioStoreField (c : Compiled) (p : Peripheral σ) (w : Word) (regTy : TypeId)
    (mask shift : Nat) (k : WriteKind) (span : Span) :
    Does creates (Repl.stepMmioStoreField c p w regTy mask shift k span) :=
  bind (mmioWidth c w regTy span) fun _ => bind (popInt w span) fun _ =>
    bind (popTarget c w span) fun _ => bind (readDevice p _ _ span) fun _ =>
      writeDevice p _ _ _ span

/-! ### Calls and returns -/

theorem retagOutputs (outs : List TypeId) : Does creates (Repl.retagOutputs outs : Exec σ _) := by
  refine bind stack fun stack => ?_
  by_cases hlen : stack.length < outs.length
  · rw [if_pos hlen]
    exact stop _
  · rw [if_neg hlen]
    exact setStack _

theorem callBuiltin (w : Word) (name : Atom) (sig : Sig) {b : Builtin} (span : Span)
    (hb : b = .regionCreate → creates = true) :
    Does creates (Repl.callBuiltin w name sig b span : Exec σ _) := by
  refine bind stack fun stack => ?_
  cases b.checkArgs stack with
  | ok u => exact bind (execute span hb) fun _ => retagOutputs _
  | error want =>
    cases want with
    | none => exact stop _
    | some want => exact stop _

theorem checkBlockEntry (w : Word) (blockIdx : Nat) (span : Span) :
    Does creates (Repl.checkBlockEntry w blockIdx span : Exec σ _) := by
  unfold Repl.checkBlockEntry
  cases w.blocks.items[blockIdx]? with
  | none => exact pure _
  | some block =>
    refine bind stack fun stack => ?_
    dsimp only
    split
    · exact stop _
    split
    · exact stop _
    exact pure _

theorem retagInputs (w callee : Word) (span : Span) (inLen : Nat) (wants : List TypeId) (i : Nat) :
    Does creates (Repl.retagInputs w callee span inLen i wants : Exec σ _) := by
  induction wants generalizing i with
  | nil => exact pure _
  | cons want wants ih =>
    refine bind stack fun stack => bind (orStop _ _) fun slot => bind (ofExcept _ _) fun id => ?_
    by_cases hid : id ≠ want
    · rw [if_pos hid]
      exact stop _
    · rw [if_neg hid]
      exact bind (setStack _) fun _ => ih (i + 1)

theorem callWord (c : Compiled) (cur : Cursor) (w : Word) (sig : Sig) (calleeIdx : Nat)
    (span : Span) : Does creates (Repl.callWord c cur w sig calleeIdx span : Exec σ _) := by
  refine bind depth fun depth => bind frames fun frames => bind (orStop _ _) fun callee => ?_
  split
  · exact stop _
  split
  · exact stop _
  split
  · exact stop _
  exact bind (retagInputs w callee span _ _ 0) fun _ => bind (setFrames _) fun _ =>
    bind (record rfl) fun _ => bind (checkBlockEntry callee _ span) fun _ => pure _

theorem retagResults (callee caller : Word) (span : Span) (n : Nat) :
    Does creates (Repl.retagResults callee caller span n : Exec σ _) := by
  induction n with
  | zero => exact pure _
  | succ n ih =>
    exact bind stack fun _ => bind (orStop _ _) fun _ => bind (ofExcept _ _) fun _ =>
      bind (setStack _) fun _ => ih

theorem stepRet (c : Compiled) (callee : Word) (span : Span) :
    Does creates (Repl.stepRet c callee span : Exec σ _) := by
  refine bind frames fun frames => ?_
  cases frames with
  | nil => exact stop _
  | cons frame frames =>
    refine bind (setFrames frames) fun _ => ?_
    dsimp only
    cases frame.ret with
    | none => exact stop _
    | some ret =>
      by_cases hout : 0 < callee.sig.outLen
      · simp only [if_pos hout]
        cases frames with
        | nil => exact stop _
        | cons f rest =>
          exact bind (orStop _ _) fun _ => bind depth fun _ =>
            bind (retagResults callee _ span _) fun _ => pure _
      · simp only [if_neg hout]
        exact pure _

/-! ### One operation -/

theorem jump (cur : Cursor) (w : Word) (target : BlockId) (span : Span) :
    Does creates (Repl.jump cur w target span : Exec σ _) :=
  bind (orStop _ _) fun _ => bind (checkBlockEntry w _ span) fun _ => pure _

theorem intOp (w : Word) (span : Span) (f : Int64 → Int64 → Slot) :
    Does creates (Repl.intOp w span f : Exec σ _) := bind (popTwo w span _ _) fun _ => push _

theorem boolOp (w : Word) (span : Span) (f : Bool → Bool → Bool) :
    Does creates (Repl.boolOp w span f : Exec σ _) := bind (popTwo w span _ _) fun _ => push _

theorem stepPlain (c : Compiled) (p : Peripheral σ) (w : Word) (op : Op) :
    Does creates (Repl.stepPlain c p w op) := by
  unfold Repl.stepPlain
  cases op.kind with
  | constI64 v => exact push _
  | constBool b => exact push _
  | constStr lit => exact bind (view _ fun _ _ => rfl) fun _ => bind (orStop _ _) fun _ => push _
  | addrOf place isMut base =>
    cases base with
    | runtime => exact bind (resourceAddr place _) fun _ => push _
    | mmio aperture offset => exact push _
  | mmioPlace place aperture offset => exact push _
  | scopedEnter ty len => exact stepScopedEnter w ty len _
  | taskSpawn name taskTy => exact stop _
  | ptrAddConst ty offset => exact bind (popPtr w _) fun _ => push _
  | ptrAddIndex ty scale =>
    exact bind (popAs _) fun _ => bind (popAs _) fun _ => bind (ofExcept _ _) fun _ =>
      bind (ofExcept _ _) fun _ => push _
  | dup ty =>
    refine bind stack fun stack => ?_
    cases stack with
    | nil => exact stop _
    | cons top rest => exact push top
  | drop ty => exact bind popAny fun _ => bind (ofExcept _ _) fun _ => pure _
  | swap a b =>
    refine bind stack fun stack => ?_
    match stack with
    | [] | [_] => exact stop _
    | _ :: _ :: _ => exact setStack _
  | addI64 | subI64 | mulI64 => exact intOp w _ _
  | cmp out k => exact intOp w _ _
  | andBool | orBool => exact boolOp w _ _
  | notBool => exact bind (popBool w _) fun _ => push _
  | interruptDisable | interruptEnable => exact stop _
  | localSet slot ty =>
    refine bind popAny fun _ => bind (ofExcept _ _) fun v => bind frames fun frames => ?_
    cases frames with
    | nil => exact stop _
    | cons f rest => exact setFrames _
  | localGet slot ty => exact bind frames fun _ => bind (orStop _ _) fun v => push v
  | cast src tgt =>
    exact bind popAny fun _ => bind (ofExcept _ _) fun _ => bind (orStop _ _) fun s => push s
  | bitcast src tgt => exact bind popAny fun _ => bind (ofExcept _ _) fun _ => push _
  | load ty => exact stepLoad c w ty _
  | store ty => exact stepStore c w ty _
  | mmioVolLoad ty => exact stepMmioLoad c p w ty _
  | mmioVolStore ty place k => exact stepMmioStore c p w ty k _
  | mmioVolLoadField regTy fieldTy place mask shift =>
    exact stepMmioLoadField c p w regTy fieldTy mask shift _
  | mmioVolStoreField regTy fieldTy place mask shift k =>
    exact stepMmioStoreField c p w regTy mask shift k _
  | trapIfFalse code =>
    refine bind (popBool w _) fun b => bind (view _ fun _ _ => rfl) fun elide =>
      bind stack fun stack => ?_
    split
    · exact pure _
    split
    · exact stop _
    exact stop _
  | call | br | brIf | ret => exact pure _

theorem stepOp (c : Compiled) (p : Peripheral σ) (cur : Cursor) (w : Word) (op : Op)
    (hcreate : ∀ name sig performs requires bound,
      op.kind = .call name sig performs requires bound →
        c.dictLookup name = some (.builtin .regionCreate) → creates = true) :
    Does creates (Repl.stepOp c p cur w op) := by
  have hplain : Does creates (do
      Repl.stepPlain c p w op
      Pure.pure { cur with op := cur.op + 1 } : Exec σ Cursor) :=
    bind (stepPlain c p w op) fun _ => pure _
  unfold Repl.stepOp
  cases hkind : op.kind with
  | call name sig performs requires bound =>
    dsimp only
    cases hname : c.dictLookup name with
    | none => exact stop _
    | some target =>
      cases target with
      | word callee => exact callWord c cur w sig callee _
      | builtin b =>
        refine bind (callBuiltin w name sig _ ?_) fun _ => pure _
        rintro rfl
        exact hcreate _ _ _ _ _ hkind hname
  | br target => exact jump cur w target _
  | brIf thenTgt elseTgt => exact bind (popBool w _) fun _ => jump cur w _ _
  | ret => exact stepRet c w _
  | _ => exact hplain

end Does

/-- Is the operation at the cursor a call of the built-in word that creates regions? -/
def createsRegion (c : Compiled) (cur : Cursor) : Bool :=
  match (c.module.words[cur.word]?).bind fun w => opAt w cur with
  | some op =>
    match op.kind with
    | .call name _ _ _ _ => c.dictLookup name = some (.builtin .regionCreate)
    | _ => false
  | none => false

theorem Does.step (c : Compiled) (p : Peripheral σ) (cur : Cursor) {creates : Bool}
    (hcreate : createsRegion c cur = true → creates = true) : Does creates (step c p cur) := by
  unfold createsRegion at hcreate
  unfold Repl.step
  cases hw : c.module.words[cur.word]? with
  | none => exact stop _
  | some w =>
    rw [hw] at hcreate
    show Does creates (do
      let block ← Exec.orStop _ w.blocks.items[cur.block]?
      let op ← Exec.orStop _ block.ops.items[cur.op]?
      Repl.stepOp c p cur w op)
    cases hb : w.blocks.items[cur.block]? with
    | none => exact stop _
    | some block =>
      show Does creates (do
        let op ← Exec.orStop _ block.ops.items[cur.op]?
        Repl.stepOp c p cur w op)
      cases hop : block.ops.items[cur.op]? with
      | none => exact stop _
      | some op =>
        refine Does.stepOp c p cur w op ?_
        intro name sig performs requires bound hkind hname
        refine hcreate ?_
        have hat : opAt w cur = some op := by
          unfold opAt
          rw [hb]
          exact hop
        simp only [Option.bind_some, hat, hkind, hname, decide_true]

end Tyu.Repl

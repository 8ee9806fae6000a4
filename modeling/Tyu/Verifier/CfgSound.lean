import Tyu.Ir.TypeSafety
import Tyu.Verifier.Walk

/-!
# The worklist engine describes the runs of a word

The engine follows the walk: it holds a state per block, and an outcome of the walk tells which of
the states may still be behind.
-/

namespace Tyu

open Lib

def CfgState.state {M : Type} (c : CfgState M) (id : BlockId) : State :=
  c.states.getD id.idx (.fresh 64)

/-- The state at the end of a block entered in `s`. -/
def blockFlow {M : Type} [MemModel M] (sr : SubtypeRange) (wordBits : Nat) (mem : M) (s : State)
    (b : Block) : State := (s.steps b.ops.items sr wordBits mem).1

structure Tracks {M : Type} (w : Word) (c : CfgState M) (x : Walk) : Prop where
  worklist : c.worklist = x.worklist
  known : ∀ id ∈ x.worklist, ∃ b, w.blocks.items[id.idx]? = some b
  visits : ∀ id, id.idx < cfgBlocks w → c.visits[id.idx]? = some (x.mark id).visits
  marks : x.marks.length = cfgBlocks w
  states : c.states.length = cfgBlocks w

/-- What the states are like as long as no stack was cut.  A state of a block that was
entered has the block's depth; a block that was visited can lose no more claims than
the walk allows it. -/
structure Shaped {M : Type} (w : Word) (c : CfgState M) (x : Walk) : Prop where
  locals : ∀ id, OpenLocals (c.state id)
  missing : ∀ id, ¬ x.Entered id → (c.state id).stack = []
  depth : ∀ id, x.Entered id → (c.state id).stack.length = entryDepth w id
  unvisited : ∀ id, id.idx < cfgBlocks w → (x.mark id).visits = 0 →
    (x.mark id).slack = entryDepth w id
  slack : ∀ id, 0 < (x.mark id).visits → (c.state id).claims ≤ (x.mark id).slack
  entered : x.Entered ⟨0⟩
  entry : Below (.calleeEntry w.sig.inLen 64) (c.state ⟨0⟩)

/-- The flow of a visited block has reached its successors, and unless the block's state
changed since, it is below their states. -/
structure Propagated {M : Type} [MemModel M] (w : Word) (sr : SubtypeRange) (wordBits : Nat)
    (mem : M) (c : CfgState M) (x : Walk) (id : BlockId) : Prop where
  entered : ∀ b t, w.blocks.items[id.idx]? = some b → 0 < (x.mark id).visits →
    t ∈ blockSuccessors b → x.Entered t
  below : ∀ b t, w.blocks.items[id.idx]? = some b → 0 < (x.mark id).visits →
    (x.mark id).stale = false → t ∈ blockSuccessors b →
    Below (blockFlow sr wordBits mem (c.state id) b) (c.state t)

/-- How a walk goes on: blocks stay entered, states grow, and the state of a visited
block that is not stale is what it was. -/
structure Advances {M : Type} (c : CfgState M) (x : Walk) (c' : CfgState M) (x' : Walk) : Prop where
  entered : ∀ id, x.Entered id → x'.Entered id
  grows : ∀ id, x.Entered id → Below (c.state id) (c'.state id)
  visits : ∀ id, (x'.mark id).visits = (x.mark id).visits
  settled : ∀ id, 0 < (x.mark id).visits → (x'.mark id).stale = false →
    (x.mark id).stale = false ∧ Alike (c.state id) (c'.state id)

namespace Advances

variable {M : Type} {c c₁ c₂ : CfgState M} {x x₁ x₂ : Walk}

theorem refl (c : CfgState M) (x : Walk) : Advances c x c x :=
  ⟨fun _ h => h, fun _ _ => .refl _, fun _ => rfl, fun _ _ h => ⟨h, .refl _⟩⟩

theorem trans (h₁ : Advances c x c₁ x₁) (h₂ : Advances c₁ x₁ c₂ x₂) : Advances c x c₂ x₂ := by
  refine ⟨?_, ?_, ?_, ?_⟩
  · intro id h
    exact h₂.entered id (h₁.entered id h)
  · intro id h
    exact (h₁.grows id h).trans (h₂.grows id (h₁.entered id h))
  · intro id
    rw [h₂.visits, h₁.visits]
  · intro id hv hs
    obtain ⟨hs₁, ha₂⟩ := h₂.settled id (by rwa [h₁.visits]) hs
    obtain ⟨hs₀, ha₁⟩ := h₁.settled id hv hs₁
    exact ⟨hs₀, ha₁.trans ha₂⟩

end Advances

section Flow

variable {M : Type} [MemModel M] [BlindMem M] {w : Word} {sr : SubtypeRange} {wordBits : Nat}
  {s s' : State}

theorem blockFlow_alike (h : Alike s s') (b : Block) (mem mem' : M) :
    Alike (blockFlow sr wordBits mem s b) (blockFlow sr wordBits mem' s' b) :=
  h.steps b.ops.items sr wordBits mem mem'

theorem Propagated.advance {mem : M} {c c' : CfgState M} {x x' : Walk} {id : BlockId}
    (h : Propagated w sr wordBits mem c x id) (hadv : Advances c x c' x') :
    Propagated w sr wordBits mem c' x' id := by
  refine ⟨?_, ?_⟩
  · intro b t hb hv ht
    rw [hadv.visits] at hv
    exact hadv.entered t (h.entered b t hb hv ht)
  · intro b t hb hv hs ht
    rw [hadv.visits] at hv
    obtain ⟨hs₀, halike⟩ := hadv.settled id hv hs
    have hflow : Below (blockFlow sr wordBits mem (c'.state id) b)
        (blockFlow sr wordBits mem (c.state id) b) :=
      (blockFlow_alike halike.symm b mem mem).below
    exact hflow.trans ((h.below b t hb hv hs₀ ht).trans
      (hadv.grows t (h.entered b t hb hv ht)))

end Flow

/-! ## One arrival -/

section Merge

variable {old flow : State} {depth : Nat}

def arriveState (n count : Nat) (old flow : State) : State :=
  if 0 < count then widenState old flow n else mergeFirstVisit old flow

structure Arrived (count d : Nat) (old flow new : State) : Prop where
  locals : OpenLocals new
  depth : new.stack.length = d
  above : Below flow new
  grows : old.stack.length = d → Below old new
  settled : 0 < count → Below flow old → Alike old new
  loses : 0 < count → Alike old new ∨ new.claims < old.claims

theorem arrived_of (n count : Nat) (hopen : OpenLocals old) (hflow : flow.stack.length = depth)
    (hlocals : flow.locals.length = 64) (hold : old.stack = [] ∨ old.stack.length = depth)
    (hvisited : 0 < count → old.stack.length = depth ∧ depth ≤ n) :
    Arrived count depth old flow (arriveState n count old flow) := by
  unfold arriveState
  by_cases hc : 0 < count
  · obtain ⟨hlen, hn⟩ := hvisited hc
    have heq : old.stack.length = flow.stack.length := hlen.trans hflow.symm
    have hn' : old.stack.length ≤ n := by omega
    rw [if_pos hc]
    refine ⟨widenState_open hopen hlocals, ?_, below_widenState_right heq hn', ?_, ?_, ?_⟩
    · rw [widenState_length heq hn', hlen]
    · intro _
      exact below_widenState_left heq hn'
    · intro _ hbelow
      exact widenState_alike hbelow hn' hopen hlocals
    · intro _
      exact widenState_claims heq hn' hopen hlocals
  · have hle : old.stack.length ≤ flow.stack.length := by
      rcases hold with hnil | hlen
      · rw [hnil]
        exact Nat.zero_le _
      · omega
    rw [if_neg hc]
    refine ⟨mergeFirstVisit_open hopen hlocals, ?_, below_mergeFirstVisit_right hle, ?_, ?_, ?_⟩
    · rw [mergeFirstVisit_length, Nat.max_eq_right hle, hflow]
    · intro hlen
      exact below_mergeFirstVisit_left (by omega)
    · intro h _
      exact absurd h hc
    · intro h
      exact absurd h hc

end Merge

section Arrive

variable {M : Type} {w : Word} {c : CfgState M} {x : Walk} {t : BlockId} {flow : State}

theorem Tracks.state_at (h : Tracks w c x) {id : BlockId} (hid : id.idx < cfgBlocks w) :
    c.states[id.idx]? = some (c.state id) := by
  have hs : id.idx < c.states.length := by
    rw [h.states]
    exact hid
  rw [List.getElem?_eq_getElem hs, CfgState.state, List.getD_eq_getElem _ _ hs]

def arriveCfg (w : Word) (c : CfgState M) (x : Walk) (flow : State) (t : BlockId) : CfgState M :=
  { c with
    states := c.states.set t.idx
      (arriveState w.sig.outLen (x.mark t).visits (c.state t) flow)
    worklist := t :: c.worklist }

theorem Tracks.cfgArrive_eq (h : Tracks w c x) (ht : t.idx < cfgBlocks w) :
    cfgArrive w.sig.outLen flow c t = some (arriveCfg w c x flow t) := by
  unfold cfgArrive
  rw [h.visits t ht, h.state_at ht]
  rfl

theorem Tracks.arriveCfg_state (h : Tracks w c x) (flow : State) (ht : t.idx < cfgBlocks w)
    (id : BlockId) :
    (arriveCfg w c x flow t).state id =
      if id = t then arriveState w.sig.outLen (x.mark t).visits (c.state t) flow
      else c.state id := by
  have hs : t.idx < c.states.length := by
    rw [h.states]
    exact ht
  unfold CfgState.state arriveCfg
  by_cases hid : id = t
  · rw [if_pos hid, hid, List.getD_eq_getElem _ _ (by rwa [List.length_set]),
      List.getElem_set_self]
    rfl
  · have hne : t.idx ≠ id.idx := fun he => hid (by cases id; cases t; cases he; rfl)
    rw [if_neg hid, List.getD_eq_getElem?_getD, List.getElem?_set_ne hne,
      ← List.getD_eq_getElem?_getD]

/-- What the walk records of an arrival: the target waits, and its mark is as before
unless its state changed. -/
structure WalkArrived (w : Word) (x y : Walk) (t : BlockId) (changed : Prop) : Prop where
  worklist : y.worklist = t :: x.worklist
  length : y.marks.length = x.marks.length
  other : ∀ id, id ≠ t → y.mark id = x.mark id
  same : ¬ changed → y.mark t = x.mark t
  moved : changed → y.mark t = ⟨(x.mark t).visits, (x.mark t).slack - 1, true⟩
  shallow : y.shallow = true →
    x.shallow = true ∧ (0 < (x.mark t).visits → entryDepth w t ≤ w.sig.outLen)

theorem exists_walkArrive (moved : Bool) (changed : Prop) (ht : t.idx < x.marks.length)
    (hchanged : changed → moved = true ∧ 0 < (x.mark t).visits ∧ 0 < (x.mark t).slack) :
    ∃ y ∈ walkArrive w moved x t, WalkArrived w x y t changed := by
  by_cases hv : (x.mark t).visits = 0
  · have hnot : ¬ changed := fun h => by have := (hchanged h).2.1; omega
    refine ⟨{ x with worklist := t :: x.worklist }, ?_, ?_⟩
    · unfold walkArrive
      rw [if_pos hv]
      exact List.mem_singleton.mpr rfl
    · refine ⟨rfl, rfl, fun _ _ => rfl, fun _ => rfl, fun h => absurd h hnot, ?_⟩
      intro hs
      exact ⟨hs, fun h => by omega⟩
  · let y : Walk := { x with
      worklist := t :: x.worklist
      shallow := x.shallow && decide (entryDepth w t ≤ w.sig.outLen) }
    have hshallow : y.shallow = true →
        x.shallow = true ∧ (0 < (x.mark t).visits → entryDepth w t ≤ w.sig.outLen) := by
      intro hs
      obtain ⟨hx, hd⟩ := Bool.and_eq_true_iff.mp hs
      exact ⟨hx, fun _ => of_decide_eq_true hd⟩
    by_cases hc : changed
    · obtain ⟨hm, -, hslack⟩ := hchanged hc
      have hmark := Walk.mark_setMark (x := y) ht
        ⟨(x.mark t).visits, (x.mark t).slack - 1, true⟩
      refine ⟨y.setMark t ⟨(x.mark t).visits, (x.mark t).slack - 1, true⟩, ?_, ?_⟩
      · simp only [walkArrive, if_neg hv, hm, hslack, decide_true, Bool.and_self, if_true]
        exact List.mem_cons_of_mem _ (List.mem_singleton.mpr rfl)
      · refine ⟨rfl, List.length_set, ?_, fun h => absurd hc h, ?_, hshallow⟩
        · intro id hid
          exact (hmark id).trans (if_neg hid)
        · intro _
          exact (hmark t).trans (if_pos rfl)
    · refine ⟨y, ?_, rfl, rfl, fun _ _ => rfl, fun _ => rfl, fun h => absurd h hc, hshallow⟩
      simp only [walkArrive, if_neg hv]
      split
      · exact List.mem_cons_self ..
      · exact List.mem_singleton.mpr rfl

namespace WalkArrived

variable {y : Walk} {changed : Prop} (h : WalkArrived w x y t changed)
include h

theorem visits (id : BlockId) : (y.mark id).visits = (x.mark id).visits := by
  by_cases hid : id = t
  · subst hid
    by_cases hc : changed
    · rw [h.moved hc]
    · rw [h.same hc]
  · rw [h.other id hid]

theorem entered_iff (id : BlockId) : y.Entered id ↔ id = t ∨ x.Entered id := by
  unfold Walk.Entered
  rw [h.visits, h.worklist, List.mem_cons, or_assoc]

end WalkArrived

theorem Tracks.arrive {y : Walk} {changed : Prop} (h : Tracks w c x)
    (hy : WalkArrived w x y t changed) {b : Block} (hb : w.blocks.items[t.idx]? = some b) :
    Tracks w (arriveCfg w c x flow t) y := by
  refine ⟨?_, ?_, ?_, ?_, ?_⟩
  · rw [hy.worklist, ← h.worklist]
    rfl
  · intro id hid
    rw [hy.worklist] at hid
    rcases List.mem_cons.mp hid with rfl | hid
    · exact ⟨b, hb⟩
    · exact h.known id hid
  · intro id hid
    rw [hy.visits]
    exact h.visits id hid
  · rw [hy.length, h.marks]
  · show (c.states.set _ _).length = _
    rw [List.length_set, h.states]

theorem Shaped.arrive {y : Walk} (htr : Tracks w c x) (ht : t.idx < cfgBlocks w)
    (h : Shaped w c x)
    (hnew : Arrived (x.mark t).visits (entryDepth w t) (c.state t) flow
      (arriveState w.sig.outLen (x.mark t).visits (c.state t) flow))
    (hy : WalkArrived w x y t (0 < (x.mark t).visits ∧
      ¬ Alike (c.state t) (arriveState w.sig.outLen (x.mark t).visits (c.state t) flow))) :
    Shaped w (arriveCfg w c x flow t) y ∧ Advances c x (arriveCfg w c x flow t) y := by
  have hstate := htr.arriveCfg_state flow ht
  have hgrows : ∀ id, x.Entered id → Below (c.state id) ((arriveCfg w c x flow t).state id) := by
    intro id hid
    rw [hstate]
    split
    · rename_i heq
      subst heq
      exact hnew.grows (h.depth id hid)
    · exact .refl _
  refine ⟨⟨?_, ?_, ?_, ?_, ?_, ?_, ?_⟩, ⟨?_, hgrows, hy.visits, ?_⟩⟩
  · intro id
    rw [hstate]
    split
    · exact hnew.locals
    · exact h.locals id
  · intro id hid
    rw [hy.entered_iff, not_or] at hid
    rw [hstate, if_neg hid.1]
    exact h.missing id hid.2
  · intro id hid
    rw [hstate]
    split
    · rename_i heq
      rw [heq]
      exact hnew.depth
    · rename_i hne
      exact h.depth id (((hy.entered_iff id).mp hid).resolve_left hne)
  · intro id hid hv
    rw [hy.visits] at hv
    by_cases heq : id = t
    · subst heq
      rw [hy.same (fun hc => by omega)]
      exact h.unvisited id hid hv
    · rw [hy.other id heq]
      exact h.unvisited id hid hv
  · intro id hv
    rw [hy.visits] at hv
    have hold := h.slack id hv
    by_cases heq : id = t
    · subst heq
      rw [hstate, if_pos rfl]
      by_cases halike : Alike (c.state id)
          (arriveState w.sig.outLen (x.mark id).visits (c.state id) flow)
      · rw [hy.same (fun hc => hc.2 halike), ← halike.claims_eq]
        exact hold
      · rw [hy.moved ⟨hv, halike⟩]
        have hlt := (hnew.loses hv).resolve_left halike
        show _ ≤ (x.mark id).slack - 1
        omega
    · rw [hstate, if_neg heq, hy.other id heq]
      exact hold
  · exact (hy.entered_iff _).mpr (.inr h.entered)
  · exact h.entry.trans (hgrows _ h.entered)
  · intro id hid
    exact (hy.entered_iff id).mpr (.inr hid)
  · intro id hv hs
    by_cases heq : id = t
    · subst heq
      by_cases halike : Alike (c.state id)
          (arriveState w.sig.outLen (x.mark id).visits (c.state id) flow)
      · rw [hy.same (fun hc => hc.2 halike)] at hs
        rw [hstate, if_pos rfl]
        exact ⟨hs, halike⟩
      · rw [hy.moved ⟨hv, halike⟩] at hs
        cases hs
    · rw [hy.other id heq] at hs
      rw [hstate, if_neg heq]
      exact ⟨hs, .refl _⟩

/-- **One arrival.**  The engine arrives, and the walk has an outcome that records it. -/
theorem arrive_step (flow : State) (moved : Bool) (htr : Tracks w c x) {b : Block}
    (hb : w.blocks.items[t.idx]? = some b)
    (hgood : x.shallow = true → Shaped w c x ∧ flow.stack.length = entryDepth w t ∧
      flow.locals.length = 64 ∧ (moved = false → Below flow (c.state t))) :
    ∃ c', cfgArrive w.sig.outLen flow c t = some c' ∧ ∃ y ∈ walkArrive w moved x t,
      Tracks w c' y ∧ (y.shallow = true →
        x.shallow = true ∧ Shaped w c' y ∧ Advances c x c' y ∧ y.Entered t ∧
          Below flow (c'.state t)) := by
  have ht := lt_cfgBlocks hb
  have htm : t.idx < x.marks.length := by
    rw [htr.marks]
    exact ht
  refine ⟨arriveCfg w c x flow t, htr.cfgArrive_eq ht, ?_⟩
  by_cases hx : x.shallow = true ∧ (0 < (x.mark t).visits → entryDepth w t ≤ w.sig.outLen)
  · obtain ⟨hsh, hflow, hlocals, hmoved⟩ := hgood hx.1
    have hnew := arrived_of w.sig.outLen (x.mark t).visits
      (hsh.locals t) hflow hlocals
      (by
        by_cases hent : x.Entered t
        · exact .inr (hsh.depth t hent)
        · exact .inl (hsh.missing t hent))
      fun hv => ⟨hsh.depth t (.inr hv), hx.2 hv⟩
    obtain ⟨y, hmem, hy⟩ := exists_walkArrive (w := w) moved
      (0 < (x.mark t).visits ∧
        ¬ Alike (c.state t) (arriveState w.sig.outLen (x.mark t).visits (c.state t) flow)) htm <| by
      rintro ⟨hv, halike⟩
      have hlt := (hnew.loses hv).resolve_left halike
      have hle := hsh.slack t hv
      refine ⟨?_, hv, by omega⟩
      cases hm : moved with
      | true => rfl
      | false => exact absurd (hnew.settled hv (hmoved hm)) halike
    refine ⟨y, hmem, htr.arrive hy hb, ?_⟩
    intro _
    obtain ⟨hsh', hadv⟩ := hsh.arrive htr ht hnew hy
    refine ⟨hx.1, hsh', hadv, (hy.entered_iff t).mpr (.inl rfl), ?_⟩
    rw [htr.arriveCfg_state flow ht, if_pos rfl]
    exact hnew.above
  · -- a stack is cut here or was before: nothing is claimed of the states
    obtain ⟨y, hmem, hy⟩ := exists_walkArrive (w := w) moved False htm False.elim
    exact ⟨y, hmem, htr.arrive hy hb, fun hs => absurd (hy.shallow hs) hx⟩

end Arrive

/-! ## One visit -/

section Visit

variable {M : Type} {w : Word} {c : CfgState M} {x : Walk}

theorem arrivals_step (flow : State) (moved : Bool) (tgts : List BlockId)
    (hknown : ∀ t ∈ tgts, ∃ b, w.blocks.items[t.idx]? = some b) (htr : Tracks w c x)
    (hgood : x.shallow = true → Shaped w c x ∧ flow.locals.length = 64 ∧
      ∀ t ∈ tgts, flow.stack.length = entryDepth w t ∧
        (moved = false → x.Entered t ∧ Below flow (c.state t))) :
    ∃ c', tgts.foldlM (cfgArrive w.sig.outLen flow) c = some c' ∧
      ∃ y ∈ walkArrivals w moved tgts x, Tracks w c' y ∧ (y.shallow = true →
        x.shallow = true ∧ Shaped w c' y ∧ Advances c x c' y ∧
          ∀ t ∈ tgts, y.Entered t ∧ Below flow (c'.state t)) := by
  induction tgts generalizing c x with
  | nil =>
    refine ⟨c, rfl, x, List.mem_singleton.mpr rfl, htr, ?_⟩
    intro hs
    exact ⟨hs, (hgood hs).1, .refl c x, fun t ht => by cases ht⟩
  | cons t tgts ih =>
    obtain ⟨b, hb⟩ := hknown t (List.mem_cons_self ..)
    obtain ⟨c₁, hc₁, x₁, hx₁, htr₁, hstep⟩ := arrive_step flow moved htr hb <| by
      intro hs
      obtain ⟨hsh, hlocals, hts⟩ := hgood hs
      obtain ⟨hflow, hmoved⟩ := hts t (List.mem_cons_self ..)
      exact ⟨hsh, hflow, hlocals, fun hm => (hmoved hm).2⟩
    obtain ⟨c', hc', y, hy, htr', hrest⟩ := ih
      (fun t' ht' => hknown t' (List.mem_cons_of_mem _ ht')) htr₁ <| by
        intro hs₁
        obtain ⟨hs, hsh₁, hadv₁, -, -⟩ := hstep hs₁
        obtain ⟨-, hlocals, hts⟩ := hgood hs
        refine ⟨hsh₁, hlocals, ?_⟩
        intro t' ht'
        obtain ⟨hflow, hmoved⟩ := hts t' (List.mem_cons_of_mem _ ht')
        refine ⟨hflow, ?_⟩
        intro hm
        obtain ⟨hent, hbelow⟩ := hmoved hm
        exact ⟨hadv₁.entered t' hent, hbelow.trans (hadv₁.grows t' hent)⟩
    refine ⟨c', ?_, y, List.mem_flatMap.mpr ⟨x₁, hx₁, hy⟩, htr', ?_⟩
    · rw [List.foldlM_cons, hc₁]
      exact hc'
    · intro hs'
      obtain ⟨hs₁, hsh', hadv', hall⟩ := hrest hs'
      obtain ⟨hs, hsh₁, hadv₁, hent, hbelow⟩ := hstep hs₁
      refine ⟨hs, hsh', hadv₁.trans hadv', ?_⟩
      intro t' ht'
      rcases List.mem_cons.mp ht' with rfl | ht'
      · exact ⟨hadv'.entered _ hent, hbelow.trans (hadv'.grows _ hent)⟩
      · exact hall t' ht'

def Walk.take (x : Walk) (bid : BlockId) (rest : List BlockId) : Walk :=
  { x.setMark bid ⟨(x.mark bid).visits + 1, (x.mark bid).slack, false⟩ with worklist := rest }

def CfgState.take (c : CfgState M) (bid : BlockId) (count : Nat) (rest : List BlockId) :
    CfgState M :=
  { c with visits := c.visits.set bid.idx (count + 1), worklist := rest }

variable {bid : BlockId} {rest : List BlockId}

theorem Walk.take_mark (rest : List BlockId) (hb : bid.idx < x.marks.length) (id : BlockId) :
    (x.take bid rest).mark id =
      if id = bid then ⟨(x.mark bid).visits + 1, (x.mark bid).slack, false⟩ else x.mark id :=
  Walk.mark_setMark hb _ id

theorem Walk.take_entered (hb : bid.idx < x.marks.length) (hwl : x.worklist = bid :: rest)
    (id : BlockId) : (x.take bid rest).Entered id ↔ x.Entered id := by
  unfold Walk.Entered
  rw [Walk.take_mark rest hb, hwl, List.mem_cons]
  show id ∈ rest ∨ _ ↔ _
  split
  · rename_i heq
    exact iff_of_true (.inr (Nat.succ_pos _)) (.inl (.inl heq))
  · rename_i hne
    simp only [hne, false_or]

theorem Tracks.take (h : Tracks w c x) (hwl : x.worklist = bid :: rest)
    (hb : bid.idx < cfgBlocks w) :
    Tracks w (c.take bid (x.mark bid).visits rest) (x.take bid rest) := by
  have hbm : bid.idx < x.marks.length := by
    rw [h.marks]
    exact hb
  refine ⟨rfl, ?_, ?_, ?_, h.states⟩
  · intro id hid
    exact h.known id (by rw [hwl]; exact List.mem_cons_of_mem _ hid)
  · intro id hid
    have hvis := h.visits id hid
    show (c.visits.set bid.idx _)[id.idx]? = _
    rw [Walk.take_mark rest hbm]
    split
    · rename_i heq
      subst heq
      exact List.getElem?_set_self (List.getElem?_eq_some_iff.mp hvis).1
    · rename_i hne
      have hidx : bid.idx ≠ id.idx := fun he => hne (by cases bid; cases id; cases he; rfl)
      rw [List.getElem?_set_ne hidx]
      exact hvis
  · show (x.marks.set _ _).length = _
    rw [List.length_set, h.marks]

theorem Shaped.take (h : Shaped w c x) (hwl : x.worklist = bid :: rest)
    (hb : bid.idx < cfgBlocks w) (hbm : bid.idx < x.marks.length) :
    Shaped w (c.take bid (x.mark bid).visits rest) (x.take bid rest) := by
  have hent := Walk.take_entered hbm hwl
  have hmark := Walk.take_mark rest hbm
  refine ⟨h.locals, ?_, ?_, ?_, ?_, (hent _).mpr h.entered, h.entry⟩
  · intro id hid
    exact h.missing id fun he => hid ((hent id).mpr he)
  · intro id hid
    exact h.depth id ((hent id).mp hid)
  · intro id hid hv
    rw [hmark] at hv ⊢
    split at hv
    · cases hv
    · rename_i hne
      rw [if_neg hne]
      exact h.unvisited id hid hv
  · intro id hv
    show (c.state id).claims ≤ _
    rw [hmark] at hv ⊢
    by_cases heq : id = bid
    · subst heq
      rw [if_pos rfl]
      by_cases hzero : (x.mark id).visits = 0
      · show _ ≤ (x.mark id).slack
        rw [h.unvisited id hb hzero, ← h.depth id (.inl (by rw [hwl]; exact List.mem_cons_self ..))]
        exact List.countP_le_length
      · exact h.slack id (Nat.pos_of_ne_zero hzero)
    · rw [if_neg heq] at hv ⊢
      exact h.slack id hv

variable [MemModel M] {sr : SubtypeRange} {wordBits : Nat}

theorem Propagated.take {mem : M} {id : BlockId} (h : Propagated w sr wordBits mem c x id)
    (hne : id ≠ bid) (hwl : x.worklist = bid :: rest) (hbm : bid.idx < x.marks.length) :
    Propagated w sr wordBits mem (c.take bid (x.mark bid).visits rest) (x.take bid rest) id := by
  have hmark : (x.take bid rest).mark id = x.mark id := by
    rw [Walk.take_mark rest hbm, if_neg hne]
  refine ⟨?_, ?_⟩
  · intro b t hb hv ht
    rw [hmark] at hv
    exact (Walk.take_entered hbm hwl t).mpr (h.entered b t hb hv ht)
  · intro b t hb hv hs ht
    rw [hmark] at hv hs
    exact h.below b t hb hv hs ht

variable [BlindMem M]

/-- **One visit.**  The engine visits the next block, and the walk has an outcome that
records it. -/
theorem visit_step (hw : Accepted w) (hidx : Indexed w) {mem : M} (htr : Tracks w c x)
    (hgood : x.shallow = true → Shaped w c x ∧ ∀ id, Propagated w sr wordBits mem c x id) :
    ∃ c', cfgVisit w sr wordBits c = some c' ∧ ∃ y ∈ walkVisit w x, Tracks w c' y ∧
      (y.shallow = true → Shaped w c' y ∧ ∀ id, Propagated w sr wordBits mem c' y id) := by
  cases hwl : x.worklist with
  | nil =>
    refine ⟨c, ?_, x, ?_, htr, hgood⟩
    · unfold cfgVisit
      rw [htr.worklist, hwl]
    · unfold walkVisit
      rw [hwl]
      exact List.mem_singleton.mpr rfl
  | cons bid rest =>
    obtain ⟨block, hblock⟩ := htr.known bid (by rw [hwl]; exact List.mem_cons_self ..)
    have hb := lt_cfgBlocks hblock
    have hbm : bid.idx < x.marks.length := by
      rw [htr.marks]
      exact hb
    obtain ⟨stEnd, hver, -⟩ := hw.block (List.mem_of_getElem? hblock)
    let moved := (x.mark bid).visits == 0 || (x.mark bid).stale
    let flow := blockFlow sr wordBits c.mem (c.state bid) block
    let c₁ := { c.take bid (x.mark bid).visits rest with
      mem := ((c.state bid).steps block.ops.items sr wordBits c.mem).2 }
    have htr₁ : Tracks w c₁ (x.take bid rest) := by
      obtain ⟨h₁, h₂, h₃, h₄, h₅⟩ := htr.take hwl hb
      exact ⟨h₁, h₂, h₃, h₄, h₅⟩
    have hbent : x.Entered bid := .inl (by rw [hwl]; exact List.mem_cons_self ..)
    have hunmoved : moved = false → 0 < (x.mark bid).visits ∧ (x.mark bid).stale = false := by
      intro hm
      obtain ⟨hv, hs⟩ := Bool.or_eq_false_iff.mp hm
      exact ⟨Nat.pos_of_ne_zero (by simpa using hv), hs⟩
    obtain ⟨c', hc', y, hy, htr', hrest⟩ := arrivals_step flow moved (blockSuccessors block)
      (fun t ht => by
        obtain ⟨tb, htb, -⟩ := successor_depth hidx hver ht
        exact ⟨tb, htb⟩) htr₁ <| by
      intro hs
      obtain ⟨hsh, hprop⟩ := hgood hs
      obtain ⟨h₁, h₂, h₃, h₄, h₅, h₆, h₇⟩ := hsh.take hwl hb hbm
      refine ⟨⟨h₁, h₂, h₃, h₄, h₅, h₆, h₇⟩, ?_, ?_⟩
      · show (State.steps _ _ _ _ _).1.locals.length = 64
        rw [steps_locals_length]
        exact (hsh.locals bid).length
      · intro t ht
        obtain ⟨tb, htb, hdepth⟩ := successor_depth hidx hver ht
        refine ⟨?_, ?_⟩
        · have hlen : (c.state bid).stack.length = (VerifyState.entry block).stack.depth := by
            rw [entry_depth, hsh.depth bid hbent, entryDepth_of_block hblock]
          rw [hdepth]
          exact (steps_length hver (Nat.le_of_eq hlen) sr wordBits c.mem).2 hlen
        · intro hm
          obtain ⟨hv, hstale⟩ := hunmoved hm
          have hbelow := (hprop bid).below block t hblock hv hstale ht
          refine ⟨(Walk.take_entered hbm hwl t).mpr ((hprop bid).entered block t hblock hv ht), ?_⟩
          exact (blockFlow_alike (.refl _) block c.mem mem).below.trans hbelow
    refine ⟨c', ?_, y, ?_, htr', ?_⟩
    · unfold cfgVisit
      rw [htr.worklist, hwl]
      simp only [htr.visits bid hb, hblock]
      show (c.states[bid.idx]?).bind _ = _
      rw [htr.state_at hb]
      exact hc'
    · unfold walkVisit
      rw [hwl]
      simp only [hblock]
      exact hy
    · intro hs'
      obtain ⟨hs, hsh', hadv, hall⟩ := hrest hs'
      obtain ⟨hsh, hprop⟩ := hgood hs
      refine ⟨hsh', ?_⟩
      intro id
      by_cases hid : id = bid
      · subst hid
        refine ⟨?_, ?_⟩
        · intro b t hb' _ ht
          rw [hblock] at hb'
          cases hb'
          exact (hall t ht).1
        · intro b t hb' _ hstale ht
          rw [hblock] at hb'
          cases hb'
          -- the block's own state did not change, so its flow is still what arrived
          have hv₁ : 0 < ((x.take id rest).mark id).visits := by
            rw [Walk.take_mark rest hbm, if_pos rfl]
            exact Nat.succ_pos _
          have halike : Alike (c.state id) (c'.state id) := (hadv.settled id hv₁ hstale).2
          exact (blockFlow_alike halike.symm block mem c.mem).below.trans (hall t ht).2
      · obtain ⟨he, hbl⟩ := (hprop id).take hid hwl hbm
        exact Propagated.advance (c := c₁) ⟨he, hbl⟩ hadv

theorem loop_step (hw : Accepted w) (hidx : Indexed w) (mem : M) (budget : Nat)
    (htr : Tracks w c x)
    (hgood : x.shallow = true → Shaped w c x ∧ ∀ id, Propagated w sr wordBits mem c x id) :
    ∃ c', cfgLoop w sr wordBits budget c = some c' ∧ ∃ y ∈ walkLoop w budget x, Tracks w c' y ∧
      (y.shallow = true → Shaped w c' y ∧ ∀ id, Propagated w sr wordBits mem c' y id) := by
  induction budget generalizing c x with
  | zero => exact ⟨c, rfl, x, List.mem_singleton.mpr rfl, htr, hgood⟩
  | succ budget ih =>
    by_cases hempty : x.worklist.isEmpty = true
    · refine ⟨c, ?_, x, ?_, htr, hgood⟩
      · unfold cfgLoop
        rw [htr.worklist, if_pos hempty]
      · unfold walkLoop
        rw [if_pos hempty]
        exact List.mem_singleton.mpr rfl
    · obtain ⟨c₁, hc₁, x₁, hx₁, htr₁, hgood₁⟩ := visit_step hw hidx htr hgood
      obtain ⟨c', hc', y, hy, hrest⟩ := ih htr₁ hgood₁
      refine ⟨c', ?_, y, ?_, hrest⟩
      · unfold cfgLoop
        rw [htr.worklist, if_neg hempty, hc₁]
        exact hc'
      · unfold walkLoop
        rw [if_neg hempty]
        exact List.mem_flatMap.mpr ⟨x₁, hx₁, hy⟩

end Visit

/-! ## The states when the engine stops -/

section Stopped

variable {M : Type} {w : Word} {c : CfgState M}

theorem init_state (id : BlockId) (mem : M) :
    (cfgInit w mem).state id =
      if id.idx = 0 then .calleeEntry w.sig.inLen 64 else .fresh 64 := by
  unfold CfgState.state cfgInit
  cases hi : id.idx with
  | zero => rfl
  | succ i =>
    rw [List.getD_cons_succ, if_neg (Nat.succ_ne_zero i)]
    by_cases hlt : i < cfgBlocks w - 1
    · rw [List.getD_eq_getElem _ _ (by rwa [List.length_replicate]), List.getElem_replicate]
    · rw [List.getD_eq_default _ _ (by rw [List.length_replicate]; omega)]

theorem init_mark {id : BlockId} (hid : id.idx < cfgBlocks w) :
    (walkInit w).mark id = ⟨0, entryDepth w id, false⟩ := by
  unfold Walk.mark walkInit
  rw [List.getD_eq_getElem _ _ (by rwa [List.length_map, List.length_range]), List.getElem_map,
    List.getElem_range]

theorem init_visits (id : BlockId) : ((walkInit w).mark id).visits = 0 := by
  by_cases hid : id.idx < cfgBlocks w
  · rw [init_mark hid]
  · unfold Walk.mark walkInit
    rw [List.getD_eq_default _ _ (by rw [List.length_map, List.length_range]; omega)]

theorem init_entered {id : BlockId} : (walkInit w).Entered id ↔ id = ⟨0⟩ := by
  unfold Walk.Entered
  rw [init_visits]
  show id ∈ [_] ∨ _ ↔ _
  rw [List.mem_singleton]
  exact or_iff_left (Nat.lt_irrefl 0)

theorem calleeEntry_length (n : Nat) : (State.calleeEntry n 64).stack.length = n := by
  unfold State.calleeEntry
  rw [List.length_reverse, List.length_map, List.length_range]

theorem Indexed.first {w : Word} (hidx : Indexed w) (hw : Accepted w) :
    ∃ b, w.blocks.items[0]? = some b ∧ b.entryStack.items = w.sig.inputs.items := by
  obtain ⟨b, hb, hitems⟩ := hw.entry
  rw [hidx.1, hidx.findBlock_eq] at hb
  exact ⟨b, hb, hitems⟩

theorem tracks_init (hw : Accepted w) (hidx : Indexed w) (mem : M) :
    Tracks w (cfgInit w mem) (walkInit w) := by
  refine ⟨rfl, ?_, ?_, ?_, ?_⟩
  · intro id hid
    rw [List.mem_singleton.mp hid]
    obtain ⟨b, hb, -⟩ := hidx.first hw
    exact ⟨b, hb⟩
  · intro id hid
    rw [init_visits]
    exact List.getElem?_replicate_of_lt hid
  · show ((List.range _).map _).length = _
    rw [List.length_map, List.length_range]
  · show (_ :: List.replicate _ _).length = _
    rw [List.length_cons, List.length_replicate]
    have : 0 < cfgBlocks w := Nat.lt_of_lt_of_le Nat.one_pos (Nat.le_max_right ..)
    omega

theorem shaped_init (hw : Accepted w) (hidx : Indexed w) (mem : M) :
    Shaped w (cfgInit w mem) (walkInit w) := by
  refine ⟨?_, ?_, ?_, ?_, ?_, init_entered.mpr rfl, ?_⟩
  · intro id
    rw [init_state]
    split
    · exact openLocals_calleeEntry _
    · exact openLocals_fresh
  · intro id hid
    rw [init_state, if_neg fun h => hid (init_entered.mpr (by cases id; cases h; rfl))]
    rfl
  · intro id hid
    rw [init_entered.mp hid, init_state, if_pos rfl, calleeEntry_length]
    obtain ⟨b, hb, hitems⟩ := hidx.first hw
    rw [entryDepth_of_block hb]
    exact (congrArg List.length hitems).symm
  · intro id hid _
    rw [init_mark hid]
  · intro id hv
    rw [init_visits] at hv
    cases hv
  · rw [init_state, if_pos rfl]
    exact .refl _

variable [MemModel M]

theorem propagated_init {sr : SubtypeRange} {wordBits : Nat} (mem mem' : M) (id : BlockId) :
    Propagated w sr wordBits mem' (cfgInit w mem) (walkInit w) id := by
  refine ⟨?_, ?_⟩
  · intro b t _ hv
    rw [init_visits] at hv
    cases hv
  · intro b t _ hv
    rw [init_visits] at hv
    cases hv

/-- The states are a post-fixpoint on the blocks `Entered`: they hold the entry of the
word, they have the depths of their blocks, and the flow of a block is below the states
of its successors. -/
structure PostFixpoint (w : Word) (sr : SubtypeRange) (wordBits : Nat) (mem : M)
    (c : CfgState M) (Entered : BlockId → Prop) : Prop where
  locals : ∀ id, OpenLocals (c.state id)
  missing : ∀ id, ¬ Entered id → (c.state id).stack = []
  depth : ∀ id, Entered id → (c.state id).stack.length = entryDepth w id
  entered : Entered ⟨0⟩
  entry : Below (.calleeEntry w.sig.inLen 64) (c.state ⟨0⟩)
  length : c.states.length = cfgBlocks w
  next : ∀ id b t, Entered id → w.blocks.items[id.idx]? = some b → t ∈ blockSuccessors b →
    Entered t ∧ Below (blockFlow sr wordBits mem (c.state id) b) (c.state t)

/-- **The engine stops at a post-fixpoint** when the walk settles. -/
theorem runCfg_postFixpoint [BlindMem M] (hw : Accepted w) (hidx : Indexed w)
    (hsettles : Settles w) (sr : SubtypeRange) (wordBits : Nat) (mem : M) :
    ∃ cf Entered, runCfg w sr wordBits mem = some cf ∧
      PostFixpoint w sr wordBits mem cf Entered := by
  obtain ⟨cf, hcf, y, hy, htr, hgood⟩ := loop_step hw hidx mem (cfgBudget w)
    (tracks_init hw hidx mem) fun _ =>
      ⟨shaped_init hw hidx mem, propagated_init mem mem⟩
  obtain ⟨hshallow, hvisited, hfresh⟩ := hsettles y hy
  obtain ⟨hsh, hprop⟩ := hgood hshallow
  refine ⟨cf, y.Entered, hcf, hsh.locals, hsh.missing, hsh.depth, hsh.entered, hsh.entry,
    htr.states, ?_⟩
  intro id b t hent hb ht
  have hv : 0 < (y.mark id).visits := hent.elim (hvisited id) fun h => h
  have hstale : (y.mark id).stale = false :=
    hfresh _ (Walk.mark_mem (by rw [htr.marks]; exact lt_cfgBlocks hb))
  exact ⟨(hprop id).entered b t hb hv ht, (hprop id).below b t hb hv hstale ht⟩

end Stopped

end Tyu

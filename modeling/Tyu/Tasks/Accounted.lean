import Tyu.Tasks.Moves

/-!
# Every task is accounted for

`Sound` holds along every run: each of its parts is kept by every move.
-/

namespace Tyu.Tasks

open Lib

namespace Scheduler

theorem parked_blocked_iff (s : Scheduler) (t : Task) :
    s.parked t = .blocked ↔ s.state t = .blocked := by
  by_cases ht : t = s.current
  · subst ht
    cases hcur : s.state s.current <;> simp [parked, hcur]
  · rw [parked_of_ne ht]

namespace Switched

variable {s s' : Scheduler}

theorem blocked_iff (h : s.Switched s') (t : Task) :
    s'.state t = .blocked ↔ s.state t = .blocked := by
  rw [h.state, ← parked_blocked_iff]
  by_cases ht : t = s'.current
  · subst ht
    simp [h.ready]
  · rw [Function.update_of_ne ht]

theorem running (h : s.Switched s') (hrun : ∀ t, s.state t = .running → t = s.current) (t : Task)
    (ht : s'.state t = .running) : t = s'.current := by
  by_contra hne
  rw [h.state, Function.update_of_ne hne] at ht
  exact parked_ne_running hrun t ht

theorem current (h : s.Switched s') : s'.state s'.current = .running := by
  rw [h.state, Function.update_self]

end Switched
end Scheduler

namespace Machine

variable {m m' : Machine} {op : Op} {e : Option Event}

/-! ## Each part of the invariant -/

theorem waits_congr (h : m'.queues = m.queues) (t : Task) : m'.waits t = m.waits t := by
  simp only [waits, h]

theorem waits_update {c : Chan} {q : Queue} (h : m'.queues = Function.update m.queues c q) (t : Task) :
    m'.waits t + ((m.queues c).recv.count t + (m.queues c).send.count t) =
      m.waits t + (q.recv.count t + q.send.count t) := by
  have hsum := sum_update_add (fun q : Queue => q.recv.count t + q.send.count t) m.queues c q
  simp only [waits, h]
  exact hsum

theorem Sends.live (hs : m.Sound) {c : Chan} {msg : Message} (h : m.Sends op c msg) :
    (m.queues c).live = true := by
  obtain h | ⟨_, h, _⟩ := h
  · exact hs.target _ c msg h
  · exact h

theorem Sound.current_of_blocked (hs : m.Sound) {t : Task} {st : TaskState}
    (ht : m.sched.state t = .blocked) :
    Function.update m.sched.state t st m.sched.current = m.sched.state m.sched.current := by
  rw [Function.update_of_ne]
  intro he
  rw [← he] at ht
  exact hs.current_ne.2.1 ht

theorem Moved.filed (hs : m.Sound) (h : m.Moved op e m') : m'.sched.Filed := by
  cases h with
  | own _ hsched | made _ _ hsched | sent _ hsched | received _ _ hsched =>
    rw [hsched]
    exact hs.filed
  | freed _ hex hsched =>
    rw [hsched]
    exact filed_setState hs.filed (by simp [hex]) (by simp)
  | spawned _ _ _ _ _ hf => exact hf
  | sentWoke _ _ _ _ hf => exact hf
  | receivedWoke _ _ _ _ _ _ hf => exact hf
  | yielded _ _ hsw | exited _ hsw | blockedRecv _ _ hsw | blockedSend _ _ hsw => exact hsw.filed

theorem Moved.current (hs : m.Sound) (h : m.Moved op e m') :
    m'.sched.state m'.sched.current = .running ∨
      (m'.sched.state m'.sched.current = .free ∧ m'.sched.current = 0) := by
  cases h with
  | own _ hsched | made _ _ hsched | sent _ hsched | received _ _ hsched =>
    rw [hsched]
    exact hs.current
  | freed _ hex hsched =>
    rw [hsched, Scheduler.setState_state, Scheduler.setState_current, Function.update_of_ne]
    · exact hs.current
    · intro he
      rw [← he] at hex
      exact hs.current_ne.2.2 hex
  | spawned _ hmain hfree hcur hst =>
    rw [hst, hcur, Function.update_of_ne]
    · exact hs.current
    · intro he
      obtain hr | ⟨_, h0⟩ := hs.current
      · rw [he, hfree] at hr
        exact absurd hr (by simp)
      · exact hmain (he.symm.trans h0)
  | sentWoke _ hfirst hcur hst =>
    rw [hst, hcur, hs.current_of_blocked (hs.blocked_of_mem (.inl (hfirst ▸ List.mem_cons_self)))]
    exact hs.current
  | receivedWoke _ _ _ hfirst hcur hst =>
    rw [hst, hcur, hs.current_of_blocked (hs.blocked_of_mem (.inr (hfirst ▸ List.mem_cons_self)))]
    exact hs.current
  | yielded _ _ hsw | exited _ hsw | blockedRecv _ _ hsw | blockedSend _ _ hsw =>
    exact .inl hsw.current

theorem Sound.running_update (hs : m.Sound) {t : Task} {st : TaskState} (hst : st ≠ .running)
    (u : Task) (hu : Function.update m.sched.state t st u = .running) : u = m.sched.current := by
  by_cases he : u = t
  · subst he
    rw [Function.update_self] at hu
    exact absurd hu hst
  · rw [Function.update_of_ne he] at hu
    exact hs.running u hu

theorem Moved.running (hs : m.Sound) (h : m.Moved op e m') (t : Task)
    (ht : m'.sched.state t = .running) : t = m'.sched.current := by
  cases h with
  | own _ hsched | made _ _ hsched | sent _ hsched | received _ _ hsched =>
    rw [hsched] at ht ⊢
    exact hs.running t ht
  | freed _ _ hsched =>
    rw [hsched] at ht ⊢
    exact hs.running_update (by simp) t ht
  | spawned _ _ _ hcur hst =>
    rw [hcur]
    rw [hst] at ht
    exact hs.running_update (by simp) t ht
  | sentWoke _ _ hcur hst =>
    rw [hcur]
    rw [hst] at ht
    exact hs.running_update (by simp) t ht
  | receivedWoke _ _ _ _ hcur hst =>
    rw [hcur]
    rw [hst] at ht
    exact hs.running_update (by simp) t ht
  | yielded _ _ hsw => exact hsw.running hs.running t ht
  | exited _ hsw | blockedRecv _ _ hsw | blockedSend _ _ hsw =>
    exact hsw.running (fun u hu => hs.running_update (by simp) u hu) t ht

theorem blocked_update_iff {f : Task → TaskState} {t : Task} {st : TaskState}
    (hold : f t ≠ .blocked) (hnew : st ≠ .blocked) (u : Task) :
    Function.update f t st u = .blocked ↔ f u = .blocked := by
  by_cases hu : u = t
  · subst hu
    simp [hold, hnew]
  · rw [Function.update_of_ne hu]

theorem Sound.waiting_blocked (hs : m.Sound)
    (hsw : (m.sched.setState m.sched.current .blocked).Switched m'.sched)
    (hw : ∀ t, m'.waits t = m.waits t + if t = m.sched.current then 1 else 0) (t : Task) :
    m'.waits t = if m'.sched.state t = .blocked then 1 else 0 := by
  rw [hw, hs.waiting t]
  simp only [hsw.blocked_iff, Scheduler.setState_state]
  by_cases ht : t = m.sched.current
  · subst ht
    simp [hs.current_ne.2.1]
  · simp [ht]

theorem Sound.waiting_woken (hs : m.Sound) {t : Task} (hmem : m.sched.state t = .blocked)
    (hst : m'.sched.state = Function.update m.sched.state t .ready)
    (hw : ∀ u, m'.waits u + (if u = t then 1 else 0) = m.waits u) (u : Task) :
    m'.waits u = if m'.sched.state u = .blocked then 1 else 0 := by
  have hu := hw u
  rw [hs.waiting u] at hu
  rw [hst]
  by_cases he : u = t
  · subst he
    simp only [hmem, if_true] at hu
    simp only [Function.update_self, reduceCtorEq, if_false]
    omega
  · simp only [he, if_false, Nat.add_zero] at hu
    rw [Function.update_of_ne he, hu]

theorem Moved.waiting (hs : m.Sound) (h : m.Moved op e m') (t : Task) :
    m'.waits t = if m'.sched.state t = .blocked then 1 else 0 := by
  have hold := hs.waiting t
  cases h with
  | own _ hsched hq => rw [hsched, waits_congr hq, hold]
  | made _ _ hsched hq | sent _ hsched _ hq | received _ _ hsched _ _ hq =>
    rw [hsched, ← hold]
    exact Nat.add_right_cancel (waits_update hq t)
  | freed _ hex hsched hq =>
    rw [waits_congr hq, hold, hsched, Scheduler.setState_state]
    have hne := hex.trans_ne (show TaskState.exited ≠ .blocked by simp)
    simp only [blocked_update_iff hne (show TaskState.free ≠ .blocked by simp)]
  | spawned _ _ hfree _ hst _ hq =>
    rw [waits_congr hq, hold, hst]
    have hne := hfree.trans_ne (show TaskState.free ≠ .blocked by simp)
    simp only [blocked_update_iff hne (show TaskState.ready ≠ .blocked by simp)]
  | yielded _ _ hsw hq =>
    rw [waits_congr hq, hold]
    simp only [hsw.blocked_iff]
  | exited _ hsw hq =>
    rw [waits_congr hq, hold]
    simp only [hsw.blocked_iff, Scheduler.setState_state,
      blocked_update_iff hs.current_ne.2.1 (show TaskState.exited ≠ .blocked by simp)]
  | blockedRecv _ _ hsw hq | blockedSend _ _ hsw hq =>
    refine hs.waiting_blocked hsw (fun u => ?_) t
    have hw := waits_update hq u
    simp only [count_append_singleton] at hw
    omega
  | sentWoke _ hfirst _ hst _ hq =>
    refine hs.waiting_woken (hs.blocked_of_mem (.inl (hfirst ▸ List.mem_cons_self))) hst
      (fun u => ?_) t
    have hw := waits_update hq u
    simp only [hfirst, count_cons_task] at hw
    omega
  | receivedWoke _ _ _ hfirst _ hst _ hq =>
    refine hs.waiting_woken (hs.blocked_of_mem (.inr (hfirst ▸ List.mem_cons_self))) hst
      (fun u => ?_) t
    have hw := waits_update hq u
    simp only [hfirst, count_cons_task] at hw
    omega

theorem Moved.unused (hs : m.Sound) (h : m.Moved op e m') (d : Chan)
    (hd : (m'.queues d).live = false) : (m'.queues d).buf = [] := by
  have key : ∀ {c : Chan} {q : Queue}, m'.queues = Function.update m.queues c q →
      (q.live = false → q.buf = []) → (m'.queues d).buf = [] := by
    intro c q hq hc
    rw [hq] at hd ⊢
    by_cases he : d = c
    · subst he
      rw [Function.update_self] at hd ⊢
      exact hc hd
    · rw [Function.update_of_ne he] at hd ⊢
      exact hs.unused d hd
  cases h with
  | own _ _ hq | spawned _ _ _ _ _ _ hq | freed _ _ _ hq | yielded _ _ _ hq | exited _ _ hq =>
    rw [hq] at hd ⊢
    exact hs.unused d hd
  | made _ _ _ hq => exact key hq fun _ => rfl
  | blockedRecv _ hempty _ hq => exact key hq fun _ => hempty
  | blockedSend hsrc _ _ hq | sent hsrc _ _ hq =>
    exact key hq fun hdead => absurd (hsrc.live hs) (Bool.eq_false_iff.1 hdead)
  | sentWoke hsrc _ _ _ _ hq =>
    exact key hq fun hdead => absurd (hsrc.live hs) (Bool.eq_false_iff.1 hdead)
  | received _ _ _ hhead _ hq =>
    exact key hq fun hdead => absurd (hhead.symm.trans (hs.unused _ hdead)) (by simp)
  | receivedWoke _ _ hhead _ _ _ _ hq =>
    exact key hq fun hdead => absurd (hhead.symm.trans (hs.unused _ hdead)) (by simp)

theorem Moved.live (h : m.Moved op e m') (d : Chan) (hd : (m.queues d).live = true) :
    (m'.queues d).live = true := by
  have key : ∀ {c : Chan} {q : Queue}, m'.queues = Function.update m.queues c q →
      ((m.queues c).live = true → q.live = true) → (m'.queues d).live = true := by
    intro c q hq hc
    rw [hq]
    by_cases he : d = c
    · subst he
      rw [Function.update_self]
      exact hc hd
    · rw [Function.update_of_ne he]
      exact hd
  cases h with
  | own _ _ hq | spawned _ _ _ _ _ _ hq | freed _ _ _ hq | yielded _ _ _ hq | exited _ _ hq => rw [hq, hd]
  | made _ _ _ hq => exact key hq fun _ => rfl
  | blockedRecv _ _ _ hq | blockedSend _ _ _ hq | sent _ _ _ hq => exact key hq id
  | sentWoke _ _ _ _ _ hq => exact key hq id
  | received _ _ _ _ _ hq => exact key hq id
  | receivedWoke _ _ _ _ _ _ _ hq => exact key hq id

theorem Moved.sending (h : m.Moved op e m') {t : Task} {c : Chan} {msg : Message}
    (ht : m'.resume t = .send c msg) : m.resume t = .send c msg ∨ m.Sends op c msg := by
  have key : ∀ {f : Task → Resume} {u : Task} {r : Resume}, m'.resume = Function.update f u r →
      r ≠ .send c msg → f t = .send c msg := by
    intro f u r hr hne
    rw [hr] at ht
    by_cases he : t = u
    · subst he
      rw [Function.update_self] at ht
      exact absurd ht hne
    · rwa [Function.update_of_ne he] at ht
  cases h with
  | own _ _ _ hr | made _ _ _ _ hr | freed _ _ _ _ hr | exited _ _ _ hr | blockedRecv _ _ _ _ hr
  | sent _ _ _ _ hr => exact .inl (key hr (by simp))
  | sentWoke _ _ _ _ _ _ hr => exact .inl (key hr (by simp))
  | received _ _ _ _ _ _ hr => exact .inl (key hr (by simp))
  | receivedWoke _ _ _ _ _ _ _ _ hr => exact .inl (key hr (by simp))
  | yielded _ hwhy _ _ hr =>
    refine .inl (key hr ?_)
    obtain rfl | ⟨u, rfl⟩ := hwhy <;> simp
  | @blockedSend _ d msg' hsrc _ _ _ hr =>
    by_cases he : Resume.send d msg' = .send c msg
    · obtain ⟨rfl, rfl⟩ := Resume.send.inj he
      exact .inr hsrc
    · exact .inl (key hr he)
  | @spawned _ u _ _ _ _ _ _ _ hr =>
    have hmid := key hr (by simp)
    by_cases hu : t = u
    · subst hu
      simp at hmid
    · rw [Function.update_of_ne hu] at hmid
      exact .inl hmid

theorem Moved.receiving (h : m.Moved op e m') {t : Task} {c : Chan}
    {kind : Option ChannelPayloadKind} (ht : m'.resume t = .recv c kind) :
    m.resume t = .recv c kind ∨ m.Receives op c kind := by
  have key : ∀ {f : Task → Resume} {u : Task} {r : Resume}, m'.resume = Function.update f u r →
      r ≠ .recv c kind → f t = .recv c kind := by
    intro f u r hr hne
    rw [hr] at ht
    by_cases he : t = u
    · subst he
      rw [Function.update_self] at ht
      exact absurd ht hne
    · rwa [Function.update_of_ne he] at ht
  cases h with
  | own _ _ _ hr | made _ _ _ _ hr | freed _ _ _ _ hr | exited _ _ _ hr | blockedSend _ _ _ _ hr
  | sent _ _ _ _ hr => exact .inl (key hr (by simp))
  | sentWoke _ _ _ _ _ _ hr => exact .inl (key hr (by simp))
  | received _ _ _ _ _ _ hr => exact .inl (key hr (by simp))
  | receivedWoke _ _ _ _ _ _ _ _ hr => exact .inl (key hr (by simp))
  | yielded _ hwhy _ _ hr =>
    refine .inl (key hr ?_)
    obtain rfl | ⟨u, rfl⟩ := hwhy <;> simp
  | @blockedRecv _ d kind' hsrc _ _ _ hr =>
    by_cases he : Resume.recv d kind' = .recv c kind
    · obtain ⟨rfl, rfl⟩ := Resume.recv.inj he
      exact .inr hsrc
    · exact .inl (key hr he)
  | @spawned _ u _ _ _ _ _ _ _ hr =>
    have hmid := key hr (by simp)
    by_cases hu : t = u
    · subst hu
      simp at hmid
    · rw [Function.update_of_ne hu] at hmid
      exact .inl hmid

theorem Moved.target (hs : m.Sound) (h : m.Moved op e m') (t : Task) (c : Chan) (msg : Message)
    (ht : m'.resume t = .send c msg) : (m'.queues c).live = true := by
  apply h.live
  obtain hold | hsrc := h.sending ht
  · exact hs.target t c msg hold
  · exact hsrc.live hs

theorem Moved.sound (hs : m.Sound) (h : m.Moved op e m') : m'.Sound :=
  ⟨h.filed hs, h.waiting hs, h.current hs, h.running hs, h.unused hs, h.target hs⟩

theorem sound_start (mem : Memory) : (start mem).Sound where
  filed t := by simp [start, Scheduler.start, Scheduler.queued]
  waiting t := by simp [start, Scheduler.start, waits, queues, Channel.queue]
  current := .inr ⟨rfl, rfl⟩
  running t ht := absurd ht (by simp [start, Scheduler.start])
  unused c _ := by simp [start, queues, Channel.queue]
  target t c msg ht := absurd ht (by simp [start])

end Machine

theorem sound_of_reachable {ok : Op → Prop} {h : History} (hr : (system ok).Reachable h) :
    h.machine.Sound := by
  refine System.Reach.invariant (I := fun h : History => h.machine.Sound) (fun h hi => ?_)
    (fun h h' hs _ hstep => ?_) hr
  · obtain ⟨⟨mem, hm⟩, _⟩ := hi
    rw [hm]
    exact Machine.sound_start mem
  · obtain ⟨op, e, _, hnext, _⟩ := hstep
    exact (Machine.next_moved hs hnext).sound hs

namespace Machine

/-- The current task; its state is running, or still free for a main task that has not
yielded yet. -/
def Running (m : Machine) (t : Task) : Prop :=
  m.sched.state t = .running ∨ (m.sched.state t = .free ∧ t = m.sched.current)

def SomeBlocked (m : Machine) : Prop := ∃ t, m.sched.state t = .blocked

def sendsTo (m : Machine) (op : Op) : Option Chan :=
  match m.resume m.sched.current, op with
  | .send c _, _ => some c
  | .next, .send c v w ty page =>
    match channelPayloadKind w ty with
    | none => none
    | some k =>
      match message m.mem k v page with
      | .error _ => none
      | .ok _ => m.liveChan c
  | _, _ => none

def receivesFrom (m : Machine) (op : Op) : Option Chan :=
  match m.resume m.sched.current, op with
  | .recv c _, _ => some c
  | .next, .recv c _ _ => m.liveChan c
  | _, _ => none

/-- The step blocks the running task: it sends to a full channel or receives from an empty
one, and there is room to wait. -/
def Blocks (m : Machine) (op : Op) : Prop :=
  (∃ c, m.sendsTo op = some c ∧ (m.queues c).buf.length = 64 ∧ (m.queues c).send.length < 8) ∨
    ∃ c, m.receivesFrom op = some c ∧ (m.queues c).buf = [] ∧ (m.queues c).recv.length < 8

def Exits (m : Machine) (op : Op) : Prop :=
  m.resume m.sched.current = .next ∧ ∃ value, op = .finish value

/-- A step that blocks or ends the running task where no task is ready and some task is
blocked ends the program with the deadlock trap. -/
def ReportsDeadlock (m : Machine) (op : Op) : Prop :=
  m.sched.NoneReady → m.Blocks op ∨ (m.Exits op ∧ m.SomeBlocked) →
    m.next op = .ended (.trap .deadlock)

variable {m : Machine} {op : Op}

theorem wait_deadlock (hs : m.Sound) (hnone : m.sched.NoneReady) {ring : Ring Task 8}
    (hroom : ring.contents.length < 8) {put : Ring Task 8 → Machine} {r : Resume}
    (hput : ∀ ring, (put ring).sched = m.sched) :
    m.wait ring put r = .ended (.trap .deadlock) := by
  unfold wait
  cases hoffer : ring.offer m.sched.current with
  | none =>
    have := Ring.offer_eq_none.1 hoffer
    omega
  | some ring' =>
    have hyield := Scheduler.yield_deadlock (s := m.sched.setState m.sched.current .blocked)
      (filed_setState hs.filed hs.current_ne.1 (by simp)) (by simp) (fun t => by
        rw [Scheduler.setState_state]
        by_cases ht : t = m.sched.current
        · subst ht
          simp
        · rw [Function.update_of_ne ht]
          exact hnone t)
    simp only [hput ring', switch, hyield]

theorem sendRetry_deadlock (hs : m.Sound) (hnone : m.sched.NoneReady) {c : Chan} {msg : Message}
    (hfull : (m.queues c).buf.length = 64) (hroom : (m.queues c).send.length < 8) (mem : Memory) :
    sendRetry { m with mem := mem } c msg = .ended (.trap .deadlock) := by
  have hoffer : (m.chans c).buf.offer msg.word = none := Ring.offer_eq_none.2 hfull
  have hs' : Sound { m with mem := mem } := { hs with }
  simp only [sendRetry, hoffer]
  exact wait_deadlock hs' hnone hroom fun _ => rfl

theorem recvRetry_deadlock (hs : m.Sound) (hnone : m.sched.NoneReady) {c : Chan}
    {kind : Option ChannelPayloadKind} (hempty : (m.queues c).buf = [])
    (hroom : (m.queues c).recv.length < 8) : m.recvRetry c kind = .ended (.trap .deadlock) := by
  have hpoll : (m.chans c).buf.poll = none := Ring.poll_eq_none.2 hempty
  simp only [recvRetry, hpoll]
  exact wait_deadlock hs hnone hroom fun _ => rfl

theorem blocks_deadlock (hs : m.Sound) (hnone : m.sched.NoneReady) (h : m.Blocks op) :
    m.next op = .ended (.trap .deadlock) := by
  obtain ⟨c, hc, hfull, hroom⟩ | ⟨c, hc, hempty, hroom⟩ := h
  · unfold sendsTo at hc
    unfold next
    split at hc
    · next c' msg hres =>
      obtain rfl := Option.some.inj hc
      simp only [hres]
      exact sendRetry_deadlock hs hnone hfull hroom m.mem
    · next c' v w ty page hres =>
      simp only [hres, perform, chanSend]
      split at hc
      · exact absurd hc (by simp)
      · next k hk =>
        split at hc
        · exact absurd hc (by simp)
        · next pair hmsg =>
          simp only [hk, hmsg, hc]
          exact sendRetry_deadlock hs hnone hfull hroom _
    · exact absurd hc (by simp)
  · unfold receivesFrom at hc
    unfold next
    split at hc
    · next c' kind hres =>
      obtain rfl := Option.some.inj hc
      simp only [hres]
      exact recvRetry_deadlock hs hnone hempty hroom
    · next c' w ty hres =>
      simp only [hres, perform, chanRecv, hc]
      exact recvRetry_deadlock hs hnone hempty hroom
    · exact absurd hc (by simp)

/-- The word of the running task returning where no task is ready ends the program, and
not with a trap. -/
theorem exits_silent (hs : m.Sound) (hnone : m.sched.NoneReady) (h : m.Exits op) :
    ∃ status, m.next op = .ended (.exit status) := by
  obtain ⟨hres, value, rfl⟩ := h
  simp only [next, hres, perform, finish]
  split
  · exact ⟨_, rfl⟩
  · refine ⟨0, ?_⟩
    have hf : (m.sched.setState m.sched.current .exited).Filed :=
      filed_setState hs.filed hs.current_ne.1 (by simp)
    have hnone' : (m.sched.setState m.sched.current .exited).NoneReady := by
      intro t
      rw [Scheduler.setState_state]
      by_cases ht : t = m.sched.current
      · subst ht
        simp
      · rw [Function.update_of_ne ht]
        exact hnone t
    unfold taskExit switch
    cases hy : (m.sched.setState m.sched.current .exited).yield with
    | error code =>
      have := (Scheduler.yield_error hy).2
      simp at this
    | ok s =>
      obtain ⟨hready, _⟩ | ⟨_, rfl, _⟩ := Scheduler.yield_ok hf (by simp) hy
      · simp only [Scheduler.parked, Scheduler.setState_current, Scheduler.setState_state,
          Function.update_self] at hready
        exact absurd hready (hnone' _)
      · simp only [hy]
        exact if_pos rfl

end Machine

/-- **Tasks are accounted for, and a blocking task never hides a deadlock.**  In every
reachable state a ready task is in one slot of the run queues and a blocked task in one
slot of the wait rings, no other task is in any, and one task runs.  A step reports the
deadlock there is unless it ends the running task where no task is ready and some task is
blocked. -/
theorem tasks_accounted {h : History} (hr : (system fun _ => True).Reachable h) (op : Op) :
    (∀ t, h.machine.sched.queued t = if h.machine.sched.state t = .ready then 1 else 0) ∧
      (∀ t, h.machine.waits t = if h.machine.sched.state t = .blocked then 1 else 0) ∧
      (∃! t, h.machine.Running t) ∧
      (h.machine.ReportsDeadlock op ↔
        ¬(h.machine.sched.NoneReady ∧ h.machine.Exits op ∧ h.machine.SomeBlocked)) := by
  have hs := sound_of_reachable hr
  refine ⟨hs.filed, hs.waiting, ⟨h.machine.sched.current, ?_, ?_⟩, ?_, ?_⟩
  · obtain hc | ⟨hc, _⟩ := hs.current
    · exact .inl hc
    · exact .inr ⟨hc, rfl⟩
  · rintro t (ht | ⟨_, rfl⟩)
    · exact hs.running t ht
    · rfl
  · rintro hrep ⟨hnone, hex, hblocked⟩
    obtain ⟨status, hend⟩ := Machine.exits_silent hs hnone hex
    exact absurd ((hrep hnone (.inr ⟨hex, hblocked⟩)).symm.trans hend) (by simp)
  · intro hnot hnone hcase
    obtain hb | ⟨hex, hblocked⟩ := hcase
    · exact Machine.blocks_deadlock hs hnone hb
    · exact absurd ⟨hnone, hex, hblocked⟩ hnot

def sampleWord : Word where
  name := ⟨"main", main_fits⟩
  sig := .empty
  performs := .empty
  requires := .empty
  bound := ⟨0, .slots 2⟩
  entry := ⟨0⟩
  types := ⟨[AT_EMPTY, AT_I64, ⟨"Pair", by decide⟩], by decide⟩
  typeSizes := ⟨[0, 8, 16], by decide⟩
  typeClasses := ⟨[.other, .i64, .other], three_types⟩
  apertures := .new
  subtypeBases := ⟨[TY_EMPTY, TY_EMPTY, TY_EMPTY], three_types⟩
  blocks := .new

/-- The main task makes a channel, spawns a task and receives; the other task runs. -/
def stuckOps : List Op := [.make, .spawn, .recv 0 sampleWord TY_I64]

def stuck : Option History := History.run ⟨.start fun _ => none, []⟩ stuckOps

/-- The other task exits, and nobody is left to send. -/
theorem exit_hides_deadlock :
    ∃ h, stuck = some h ∧ (system fun _ => True).Reachable h ∧ h.machine.sched.NoneReady ∧
      h.machine.SomeBlocked ∧ h.machine.Exits (.finish 0) ∧
      h.machine.next (.finish 0) = .ended (.exit 0) ∧ ¬h.machine.ReportsDeadlock (.finish 0) := by
  have hrun : ∃ h, stuck = some h ∧ (∀ t, h.machine.sched.state t ≠ .ready) ∧
      h.machine.sched.state 0 = .blocked ∧ h.machine.resume h.machine.sched.current = .next ∧
      h.machine.next (.finish 0) = .ended (.exit 0) := by
    refine ⟨_, rfl, ?_, rfl, rfl, rfl⟩
    decide
  obtain ⟨h, hh, hnone, hblocked, hres, hend⟩ := hrun
  have hr : (system fun _ => True).Reachable h :=
    History.run_reachable (.start ⟨⟨_, rfl⟩, rfl⟩) (fun _ _ => trivial) hh
  have hex : h.machine.Exits (.finish 0) := ⟨hres, 0, rfl⟩
  refine ⟨h, hh, hr, hnone, ⟨0, hblocked⟩, hex, hend, fun hrep => ?_⟩
  exact absurd ((hrep hnone (.inr ⟨hex, 0, hblocked⟩)).symm.trans hend) (by simp)

/-- A main task that is alone and receives from its new channel is a deadlock. -/
theorem alone_reports_deadlock :
    ∃ h, History.run ⟨.start fun _ => none, []⟩ [.make] = some h ∧
      h.machine.ReportsDeadlock (.recv 0 sampleWord TY_I64) :=
  ⟨_, rfl, (tasks_accounted (.next (.start ⟨⟨_, rfl⟩, rfl⟩) trivial
    ⟨.make, none, trivial, rfl, rfl⟩) (.recv 0 sampleWord TY_I64)).2.2.2.2 fun h =>
      absurd h.2.1.2 (by simp)⟩

end Tyu.Tasks

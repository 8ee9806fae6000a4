import Tyu.Tasks.Queues

/-! # What a step can do -/

namespace Tyu.Tasks

open Lib

structure Queue where
  live : Bool
  buf : List Reg
  recv : List Task
  send : List Task

def Channel.queue (ch : Channel) : Queue :=
  ⟨ch.inuse, ch.buf.contents, ch.waitRecv.contents, ch.waitSend.contents⟩

structure Scheduler.Switched (s s' : Scheduler) : Prop where
  ready : s.parked s'.current = .ready
  state : s'.state = Function.update s.parked s'.current .running
  filed : s'.Filed

def Message.Packed (msg : Message) : Prop :=
  msg.kind.isBox = false ∧ ∃ v, msg.value = .word v ∧ msg.word = msg.kind.canon v

def Message.Unpacked (msg : Message) : Prop :=
  msg.kind.isBox = false ∧ msg.value = .word (msg.kind.canon msg.word)

def Op.Unboxed : Op → Prop
  | .send _ _ w ty _ => ∀ k, channelPayloadKind w ty = some k → k.isBox = false
  | .recv _ w ty => ∀ k, channelPayloadKind w ty = some k → k.isBox = false
  | _ => True

namespace Machine

def queues (m : Machine) (c : Chan) : Queue := (m.chans c).queue

def waits (m : Machine) (t : Task) : Nat :=
  ∑ c, ((m.queues c).recv.count t + (m.queues c).send.count t)

/-- The step is one of a send of `msg` to `c`. -/
def Sends (m : Machine) (op : Op) (c : Chan) (msg : Message) : Prop :=
  m.resume m.sched.current = .send c msg ∨
    (m.resume m.sched.current = .next ∧ (m.queues c).live = true ∧ (op.Unboxed → msg.Packed))

/-- The step is one of a receive from `c`. -/
def Receives (m : Machine) (op : Op) (c : Chan) (kind : Option ChannelPayloadKind) : Prop :=
  m.resume m.sched.current = .recv c kind ∨
    (m.resume m.sched.current = .next ∧ (op.Unboxed → ∀ k, kind = some k → k.isBox = false))

def Idle (m : Machine) : Prop :=
  m.resume m.sched.current = .next ∨ ∃ t, m.resume m.sched.current = .join t

inductive Moved (m : Machine) (op : Op) : Option Event → Machine → Prop where
  /-- The task goes on, and no ring changes what it holds. -/
  | own {m' : Machine} (idle : m.Idle) (sched : m'.sched = m.sched)
      (queues : m'.queues = m.queues)
      (resume : m'.resume = Function.update m.resume m.sched.current .next) : Moved m op none m'
  /-- A channel comes into use, empty. -/
  | made {m' : Machine} {c : Chan} (idle : m.Idle) (dead : (m.queues c).live = false)
      (sched : m'.sched = m.sched)
      (queues : m'.queues = Function.update m.queues c { m.queues c with live := true, buf := [] })
      (resume : m'.resume = Function.update m.resume m.sched.current .next) : Moved m op none m'
  /-- A free slot becomes a ready task. -/
  | spawned {m' : Machine} {t : Task} (idle : m.Idle) (main : t ≠ 0)
      (free : m.sched.state t = .free)
      (current : m'.sched.current = m.sched.current)
      (state : m'.sched.state = Function.update m.sched.state t .ready) (filed : m'.sched.Filed)
      (queues : m'.queues = m.queues)
      (resume : m'.resume =
        Function.update (Function.update m.resume t .next) m.sched.current .next) :
      Moved m op none m'
  /-- The slot of an exited task becomes free. -/
  | freed {m' : Machine} {t : Task} (idle : m.Idle) (exited : m.sched.state t = .exited)
      (sched : m'.sched = m.sched.setState t .free) (queues : m'.queues = m.queues)
      (resume : m'.resume = Function.update m.resume m.sched.current .next) : Moved m op none m'
  /-- The task yields, or waits for another to exit. -/
  | yielded {m' : Machine} {r : Resume} (idle : m.Idle) (why : r = .next ∨ ∃ t, r = .join t)
      (switched : m.sched.Switched m'.sched) (queues : m'.queues = m.queues)
      (resume : m'.resume = Function.update m.resume m.sched.current r) : Moved m op none m'
  /-- The task exits, and another runs. -/
  | exited {m' : Machine} (idle : m.Idle)
      (switched : (m.sched.setState m.sched.current .exited).Switched m'.sched)
      (queues : m'.queues = m.queues)
      (resume : m'.resume = Function.update m.resume m.sched.current .exit) : Moved m op none m'
  /-- The task waits for a value. -/
  | blockedRecv {m' : Machine} {c : Chan} {kind : Option ChannelPayloadKind}
      (source : m.Receives op c kind) (empty : (m.queues c).buf = [])
      (switched : (m.sched.setState m.sched.current .blocked).Switched m'.sched)
      (queues : m'.queues = Function.update m.queues c
        { m.queues c with recv := (m.queues c).recv ++ [m.sched.current] })
      (resume : m'.resume = Function.update m.resume m.sched.current (.recv c kind)) :
      Moved m op none m'
  /-- The task waits for space. -/
  | blockedSend {m' : Machine} {c : Chan} {msg : Message}
      (source : m.Sends op c msg) (full : (m.queues c).buf.length = 64)
      (switched : (m.sched.setState m.sched.current .blocked).Switched m'.sched)
      (queues : m'.queues = Function.update m.queues c
        { m.queues c with send := (m.queues c).send ++ [m.sched.current] })
      (resume : m'.resume = Function.update m.resume m.sched.current (.send c msg)) :
      Moved m op none m'
  /-- A value is sent, and nobody waits for it. -/
  | sent {m' : Machine} {c : Chan} {msg : Message} (source : m.Sends op c msg)
      (sched : m'.sched = m.sched) (none : (m.queues c).recv = [])
      (queues : m'.queues = Function.update m.queues c
        { m.queues c with buf := (m.queues c).buf ++ [msg.word] })
      (resume : m'.resume = Function.update m.resume m.sched.current .next) :
      Moved m op (some (.sent c msg)) m'
  /-- A value is sent, and a receiver is woken. -/
  | sentWoke {m' : Machine} {c : Chan} {msg : Message} {t : Task} {rest : List Task}
      (source : m.Sends op c msg) (first : (m.queues c).recv = t :: rest)
      (current : m'.sched.current = m.sched.current)
      (state : m'.sched.state = Function.update m.sched.state t .ready) (filed : m'.sched.Filed)
      (queues : m'.queues = Function.update m.queues c
        { m.queues c with buf := (m.queues c).buf ++ [msg.word], recv := rest })
      (resume : m'.resume = Function.update m.resume m.sched.current .next) :
      Moved m op (some (.sent c msg)) m'
  /-- A value is received, and nobody waits to send. -/
  | received {m' : Machine} {c : Chan} {msg : Message} {buf : List Reg}
      (source : m.Receives op c (some msg.kind))
      (unpacked : msg.kind.isBox = false → msg.Unpacked)
      (sched : m'.sched = m.sched) (head : (m.queues c).buf = msg.word :: buf)
      (none : (m.queues c).send = [])
      (queues : m'.queues = Function.update m.queues c { m.queues c with buf := buf })
      (resume : m'.resume = Function.update m.resume m.sched.current .next) :
      Moved m op (some (.received c msg)) m'
  /-- A value is received, and a sender is woken. -/
  | receivedWoke {m' : Machine} {c : Chan} {msg : Message} {buf : List Reg} {t : Task}
      {rest : List Task} (source : m.Receives op c (some msg.kind))
      (unpacked : msg.kind.isBox = false → msg.Unpacked)
      (head : (m.queues c).buf = msg.word :: buf) (first : (m.queues c).send = t :: rest)
      (current : m'.sched.current = m.sched.current)
      (state : m'.sched.state = Function.update m.sched.state t .ready) (filed : m'.sched.Filed)
      (queues : m'.queues = Function.update m.queues c
        { m.queues c with buf := buf, send := rest })
      (resume : m'.resume = Function.update m.resume m.sched.current .next) :
      Moved m op (some (.received c msg)) m'

/-- A ready task is in one slot of the run queues, a blocked task in one slot of the wait
rings; the current task runs, and no other does.  A channel that is not in use is empty,
and no send is on its way to it. -/
structure Sound (m : Machine) : Prop where
  filed : m.sched.Filed
  waiting : ∀ t, m.waits t = if m.sched.state t = .blocked then 1 else 0
  current : m.sched.state m.sched.current = .running ∨
    (m.sched.state m.sched.current = .free ∧ m.sched.current = 0)
  running : ∀ t, m.sched.state t = .running → t = m.sched.current
  unused : ∀ c, (m.queues c).live = false → (m.queues c).buf = []
  target : ∀ t c msg, m.resume t = .send c msg → (m.queues c).live = true

theorem queues_setChan (m : Machine) (c : Chan) (ch : Channel) :
    (m.setChan c ch).queues = Function.update m.queues c ch.queue := by
  funext d
  exact Function.apply_update (fun _ (ch : Channel) => ch.queue) m.chans c ch d

variable {m m' : Machine} {c : Chan} {t : Task} {e : Option Event} {op : Op}

theorem Sound.current_ne (h : m.Sound) :
    m.sched.state m.sched.current ≠ .ready ∧ m.sched.state m.sched.current ≠ .blocked ∧
      m.sched.state m.sched.current ≠ .exited := by
  obtain h | ⟨h, _⟩ := h.current <;> simp [h]

theorem Sound.blocked_of_mem (h : m.Sound) (ht : t ∈ (m.queues c).recv ∨ t ∈ (m.queues c).send) :
    m.sched.state t = .blocked := by
  by_contra hne
  have hz := h.waiting t
  rw [if_neg hne] at hz
  have hc := Finset.sum_eq_zero_iff.1 hz c (Finset.mem_univ c)
  obtain ht | ht := ht
  · have := List.count_pos_iff.2 ht
    omega
  · have := List.count_pos_iff.2 ht
    omega

/-! ## The routines -/

theorem switch_run {r : Resume} (hf : m.sched.Filed) (hcur : m.sched.state m.sched.current ≠ .ready)
    (h : m.switch r = .run m' e) :
    e = none ∧ m'.queues = m.queues ∧ m'.resume = Function.update m.resume m.sched.current r ∧
      (m.sched.Switched m'.sched ∨
        (m.sched.state m.sched.current = .exited ∧ m'.sched = m.sched ∧ m.sched.NoneReady)) := by
  unfold switch at h
  split at h
  · exact absurd h (by simp)
  · next s hs =>
    obtain ⟨rfl, rfl⟩ := Outcome.run.inj h
    refine ⟨rfl, rfl, rfl, ?_⟩
    obtain ⟨h1, h2, h3⟩ | hstay := Scheduler.yield_ok hf hcur hs
    · exact .inl ⟨h1, h2, h3⟩
    · exact .inr hstay

theorem filed_setState {s : Scheduler} (hf : s.Filed) {st : TaskState} (hold : s.state t ≠ .ready)
    (hnew : st ≠ .ready) : (s.setState t st).Filed := by
  intro u
  rw [Scheduler.queued_setState, Scheduler.setState_state, hf u]
  by_cases hu : u = t
  · subst hu
    simp [hold, hnew]
  · rw [Function.update_of_ne hu]

theorem taskJoin_moved (hs : m.Sound) (hidle : m.Idle) (h : m.taskJoin t = .run m' e) :
    m.Moved op e m' := by
  unfold taskJoin at h
  split at h
  · next hex =>
    obtain ⟨rfl, rfl⟩ := Outcome.run.inj h
    exact .freed hidle hex rfl rfl rfl
  · obtain ⟨rfl, hq, hr, hsw | ⟨hst, _⟩⟩ := switch_run hs.filed hs.current_ne.1 h
    · exact .yielded hidle (.inr ⟨t, rfl⟩) hsw hq hr
    · exact absurd hst hs.current_ne.2.2

theorem finish_moved {v : Reg} (hs : m.Sound) (hidle : m.Idle) (h : m.finish v = .run m' e) :
    m.Moved op e m' := by
  unfold finish taskExit at h
  split at h
  · exact absurd h (by simp)
  · simp only at h
    split at h
    · next m₁ e₁ hsw =>
      split at h
      · exact absurd h (by simp)
      · next hne =>
        obtain ⟨rfl, rfl⟩ := Outcome.run.inj h
        obtain ⟨rfl, hq, hr, hsw | ⟨_, hsame, _⟩⟩ :=
          switch_run (filed_setState hs.filed hs.current_ne.1 (by simp)) (by simp) hsw
        · exact .exited hidle hsw hq hr
        · rw [hsame] at hne
          exact absurd rfl hne
    · exact absurd h (by simp)

theorem wait_run {ring : Ring Task 8} {put : Ring Task 8 → Machine} {r : Resume} (hs : m.Sound)
    (h : m.wait ring put r = .run m' e)
    (hput : ∀ ring, (put ring).sched = m.sched ∧ (put ring).resume = m.resume) :
    ∃ ring', ring'.contents = ring.contents ++ [m.sched.current] ∧ e = none ∧
      m'.queues = (put ring').queues ∧ m'.resume = Function.update m.resume m.sched.current r ∧
      (m.sched.setState m.sched.current .blocked).Switched m'.sched := by
  unfold wait at h
  split at h
  · exact absurd h (by simp)
  · next ring' hring =>
    obtain ⟨hsched, hres⟩ := hput ring'
    simp only [hsched] at h
    obtain ⟨rfl, hq, hr, hsw | ⟨hst, _⟩⟩ :=
      switch_run (filed_setState hs.filed hs.current_ne.1 (by simp)) (by simp) h
    · exact ⟨ring', Ring.contents_offer hring, rfl, hq, by rw [hr, hres]; rfl, hsw⟩
    · simp at hst

theorem wakeFirst_run {m₁ : Machine} {ring : Ring Task 8} {put : Ring Task 8 → Machine} {ev : Event}
    (hs : m.Sound) (h : m₁.wakeFirst ring put ev = .run m' e)
    (hm₁ : m₁.sched = m.sched ∧ m₁.resume = m.resume)
    (hput : ∀ ring, (put ring).sched = m.sched ∧ (put ring).resume = m.resume)
    (hmem : ∀ t ∈ ring.contents, m.sched.state t = .blocked) :
    e = some ev ∧ m'.resume = Function.update m.resume m.sched.current .next ∧
      ((ring.contents = [] ∧ m'.sched = m.sched ∧ m'.queues = m₁.queues) ∨
        ∃ t ring', ring.contents = t :: ring'.contents ∧ m'.queues = (put ring').queues ∧
          m'.sched.current = m.sched.current ∧
          m'.sched.state = Function.update m.sched.state t .ready ∧ m'.sched.Filed) := by
  unfold wakeFirst at h
  split at h
  · next hpoll =>
    obtain ⟨rfl, rfl⟩ := Outcome.run.inj h
    refine ⟨rfl, ?_, .inl ⟨Ring.poll_eq_none.1 hpoll, hm₁.1, rfl⟩⟩
    show Function.update m₁.resume m₁.sched.current .next = _
    rw [hm₁.1, hm₁.2]
  · next t ring' hpoll =>
    have hcons := Ring.contents_poll hpoll
    obtain ⟨hsched, hres⟩ := hput ring'
    have hblocked := hmem t (hcons ▸ List.mem_cons_self)
    obtain ⟨s, hw, hc, hst, hf⟩ := Scheduler.wake_spec (t := t) hs.filed (by simp [hblocked])
    simp only [hsched, hw] at h
    obtain ⟨rfl, rfl⟩ := Outcome.run.inj h
    refine ⟨rfl, ?_, .inr ⟨t, ring', hcons, rfl, hc, hst, hf⟩⟩
    show Function.update (put ring').resume s.current .next = _
    rw [hres, hc]

theorem sendRetry_moved {msg : Message} {mem : Memory} (hs : m.Sound) (hsrc : m.Sends op c msg)
    (h : sendRetry { m with mem := mem } c msg = .run m' e) : m.Moved op e m' := by
  unfold sendRetry at h
  simp only at h
  split at h
  · next hoffer =>
    have hs' : Sound { m with mem := mem } := { hs with }
    obtain ⟨ring', hring, rfl, hq, hr, hsw⟩ := wait_run hs' h (fun _ => ⟨rfl, rfl⟩)
    refine .blockedSend hsrc (Ring.offer_eq_none.1 hoffer) hsw ?_ hr
    rw [hq, queues_setChan]
    simp only [Channel.queue, hring]
    rfl
  · next buf hoffer =>
    have hbuf := Ring.contents_offer hoffer
    obtain ⟨rfl, hr, ⟨hnil, hsched, hq⟩ | ⟨t, ring', hcons, hq, hcur, hst, hf⟩⟩ :=
      wakeFirst_run hs h ⟨rfl, rfl⟩ (fun _ => ⟨rfl, rfl⟩)
        (fun t ht => hs.blocked_of_mem (c := c) (.inl ht))
    · refine .sent hsrc hsched hnil ?_ hr
      rw [hq, queues_setChan]
      simp only [Channel.queue, hbuf]
      rfl
    · refine .sentWoke hsrc hcons hcur hst hf ?_ hr
      rw [hq, queues_setChan]
      simp only [Channel.queue, hbuf]
      rfl

theorem recvRetry_moved {kind : Option ChannelPayloadKind} (hs : m.Sound)
    (hsrc : m.Receives op c kind) (h : m.recvRetry c kind = .run m' e) : m.Moved op e m' := by
  unfold recvRetry at h
  simp only at h
  split at h
  · next hpoll =>
    obtain ⟨ring', hring, rfl, hq, hr, hsw⟩ := wait_run hs h (fun _ => ⟨rfl, rfl⟩)
    refine .blockedRecv hsrc (Ring.poll_eq_none.1 hpoll) hsw ?_ hr
    rw [hq, queues_setChan]
    simp only [Channel.queue, hring]
    rfl
  · next word buf hpoll =>
    have hbuf := Ring.contents_poll hpoll
    cases kind with
    | none => exact absurd h (by simp)
    | some k =>
      have hun : k.isBox = false →
          (⟨k, k.value m.mem (k.canon word), word⟩ : Message).Unpacked := by
        intro hk
        cases k with
        | boxCopy bytes => exact absurd hk (by simp [ChannelPayloadKind.isBox])
        | primitive | word => exact ⟨rfl, rfl⟩
      obtain ⟨rfl, hr, ⟨hnil, hsched, hq⟩ | ⟨t, ring', hcons, hq, hcur, hst, hf⟩⟩ :=
        wakeFirst_run hs h ⟨rfl, rfl⟩ (fun _ => ⟨rfl, rfl⟩)
          (fun t ht => hs.blocked_of_mem (c := c) (.inr ht))
      · refine .received hsrc hun hsched hbuf hnil ?_ hr
        rw [hq, queues_setChan]
        rfl
      · refine .receivedWoke hsrc hun hbuf hcons hcur hst hf ?_ hr
        rw [hq, queues_setChan]
        rfl

theorem chanMakeScan_some :
    ∀ {n : Nat} {rax : Chan}, m.chanMakeScan rax n = some c → (m.queues c).live = false
  | 0, rax, h => absurd h (by simp [chanMakeScan])
  | n + 1, rax, h => by
    unfold chanMakeScan at h
    split at h
    · exact chanMakeScan_some h
    · next hdead =>
      obtain rfl := Option.some.inj h
      exact Bool.eq_false_iff.2 hdead

theorem liveChan_some {r : Reg} (h : m.liveChan r = some c) : (m.queues c).live = true := by
  unfold liveChan at h
  split at h
  · split at h
    · next hlive =>
      obtain rfl := Option.some.inj h
      exact hlive
    · exact absurd h (by simp)
  · exact absurd h (by simp)

theorem message_packed {mem mem' : Memory} {k : ChannelPayloadKind} {v page : Reg} {msg : Message}
    (h : message mem k v page = .ok (msg, mem')) (hk : k.isBox = false) : msg.Packed := by
  cases k with
  | boxCopy bytes => exact absurd hk (by simp [ChannelPayloadKind.isBox])
  | primitive | word =>
    obtain ⟨rfl, _⟩ := Prod.mk.inj (Except.ok.inj h)
    exact ⟨hk, v, rfl, rfl⟩

theorem next_moved (hs : m.Sound) (h : m.next op = .run m' e) : m.Moved op e m' := by
  unfold next at h
  split at h
  · next hres =>
    cases op with
    | write a b =>
      simp only [perform] at h
      split at h
      · exact absurd h (by simp)
      · obtain ⟨rfl, rfl⟩ := Outcome.run.inj h
        exact .own (.inl hres) rfl rfl rfl
    | spawn =>
      simp only [perform] at h
      split at h
      · exact absurd h (by simp)
      · next t s hspawn =>
        obtain ⟨rfl, rfl⟩ := Outcome.run.inj h
        obtain ⟨hne, hfree, hcur, hst, hf⟩ := Scheduler.spawn_ok hs.filed hspawn
        refine .spawned (.inl hres) hne hfree hcur hst hf rfl ?_
        show Function.update _ s.current _ = _
        rw [hcur]
        rfl
    | yield =>
      obtain ⟨rfl, hq, hr, hsw | ⟨hst, _⟩⟩ := switch_run hs.filed hs.current_ne.1 h
      · exact .yielded (.inl hres) (.inl rfl) hsw hq hr
      · exact absurd hst hs.current_ne.2.2
    | join t =>
      simp only [perform] at h
      split at h
      · exact taskJoin_moved hs (.inl hres) h
      · exact absurd h (by simp)
    | finish v => exact finish_moved hs (.inl hres) h
    | make =>
      simp only [perform, chanMake] at h
      split at h
      · exact absurd h (by simp)
      · next c hscan =>
        obtain ⟨rfl, rfl⟩ := Outcome.run.inj h
        refine .made (.inl hres) (chanMakeScan_some hscan) rfl ?_ rfl
        refine (queues_setChan m c _).trans ?_
        simp only [Channel.queue, Ring.contents_clear]
        rfl
    | send c v w ty page =>
      simp only [perform, chanSend] at h
      split at h
      · exact absurd h (by simp)
      · next k hk =>
        split at h
        · exact absurd h (by simp)
        · next msg mem hmsg =>
          split at h
          · exact absurd h (by simp)
          · next c hlive =>
            exact sendRetry_moved hs
              (.inr ⟨hres, liveChan_some hlive, fun hop => message_packed hmsg (hop k hk)⟩) h
    | recv c w ty =>
      simp only [perform, chanRecv] at h
      split at h
      · exact absurd h (by simp)
      · exact recvRetry_moved hs (.inr ⟨hres, fun hop k hk => hop k hk⟩) h
  · next c msg hres => exact sendRetry_moved hs (.inl hres) h
  · next c kind hres => exact recvRetry_moved hs (.inl hres) h
  · next t hres => exact taskJoin_moved hs (.inr ⟨t, hres⟩) h
  · exact absurd h (by simp)

end Machine
end Tyu.Tasks

import Tyu.Tasks.Accounted

/-!
# Channels are first in, first out

A step takes words from the front of a channel and puts words behind the others: the words
received and the words still there are the words sent.
-/

namespace Tyu.Tasks

open Lib

theorem toNat_and_mask {bits : Nat} (hb : bits < 64) (v : Reg) :
    (v &&& maskForBits bits).toNat = v.toNat % 2 ^ bits := by
  have hpow : 2 ^ bits < 2 ^ 64 := Nat.pow_lt_pow_right (by omega) hb
  have hmask : (maskForBits bits).toNat = 2 ^ bits - 1 := by
    rw [maskForBits, if_neg (by omega), BitVec.toNat_sub, BitVec.toNat_shiftLeft]
    have h1 : BitVec.toNat (1 : Reg) = 1 := rfl
    have hpos := Nat.two_pow_pos bits
    rw [h1, Nat.one_shiftLeft, Nat.mod_eq_of_lt hpow]
    omega
  rw [BitVec.toNat_and, hmask, Nat.and_two_pow_sub_one_eq_mod]

def cut (bits : Nat) (signed : Bool) (v : Reg) : Reg := channelCanonPrim bits signed false v

theorem getLsbD_cut {bits : Nat} (hb : bits < 64) (signed : Bool) (v : Reg) {i : Nat} (hi : i < 64) :
    (cut bits signed v).getLsbD i =
      if i < bits then v.getLsbD i else signed && decide (0 < bits) && v.getLsbD (bits - 1) := by
  have hand : ∀ j, (v &&& maskForBits bits).getLsbD j = (decide (j < bits) && v.getLsbD j) := by
    intro j
    rw [BitVec.getLsbD, toNat_and_mask hb, Nat.testBit_mod_two_pow]
    rfl
  cases signed with
  | false =>
    simp only [cut, channelCanonPrim, hb, if_true, Bool.false_eq_true, if_false, hand]
    by_cases h : i < bits <;> simp [h]
  | true =>
    simp only [cut, channelCanonPrim, hb, if_true, Bool.false_eq_true, if_false,
      BitVec.getLsbD_sshiftRight, BitVec.getLsbD_shiftLeft, BitVec.msb_eq_getLsbD_last, hand]
    by_cases h : i < bits
    · rw [if_pos (by omega), if_pos h]
      simp [h, hi, show 64 - bits + i < 64 by omega]
    · rw [if_neg (by omega), if_neg h]
      by_cases h0 : 0 < bits
      · simp [h0, show 63 - (64 - bits) = bits - 1 by omega, show ¬63 < 64 - bits by omega, hi]
      · simp [h0, show 63 < 64 - bits by omega]

theorem cut_cut (bits : Nat) (signed : Bool) (v : Reg) :
    cut bits signed (cut bits signed v) = cut bits signed v := by
  by_cases hb : bits < 64
  · apply BitVec.eq_of_getLsbD_eq
    intro i hi
    rw [getLsbD_cut hb _ _ hi]
    by_cases h : i < bits
    · rw [if_pos h]
    · rw [if_neg h, getLsbD_cut hb _ v hi, if_neg h]
      by_cases h0 : 0 < bits
      · rw [getLsbD_cut hb _ v (by omega), if_pos (by omega)]
      · simp [h0]
  · simp [cut, channelCanonPrim, hb]

theorem cut_one {bits : Nat} {signed : Bool} {v : Reg} (h : cut bits signed v ≠ 0) :
    cut bits signed 1 ≠ 0 := by
  intro h1
  by_cases hb : bits < 64
  · by_cases h0 : 0 < bits
    · have hbit := getLsbD_cut hb signed 1 (i := 0) (by omega)
      rw [h1, if_pos h0] at hbit
      exact absurd hbit (by decide)
    · apply h
      apply BitVec.eq_of_getLsbD_eq
      intro i hi
      rw [getLsbD_cut hb signed v hi, if_neg (by omega)]
      simp [h0]
  · simp [cut, channelCanonPrim, hb] at h1

theorem channelCanonPrim_true (bits : Nat) (signed : Bool) (v : Reg) :
    channelCanonPrim bits signed true v = if cut bits signed v = 0 then 0 else 1 := rfl

theorem ChannelPayloadKind.canon_canon (k : ChannelPayloadKind) (v : Reg) :
    k.canon (k.canon v) = k.canon v := by
  cases k with
  | boxCopy bytes => rfl
  | word => rfl
  | primitive bits signed isBool =>
    cases isBool with
    | false => exact cut_cut bits signed v
    | true =>
      show channelCanonPrim _ _ true (channelCanonPrim _ _ true v) = channelCanonPrim _ _ true v
      simp only [channelCanonPrim_true]
      by_cases h : cut bits signed v = 0
      · have h0 : cut bits signed 0 = 0 := by
          have hcut := cut_cut bits signed v
          rwa [h] at hcut
        rw [if_pos h, if_pos h0]
      · rw [if_neg h, if_neg (cut_one h)]

/-! ## The words of a channel -/

def Event.sentOn (c : Chan) : Option Event → List Message
  | some (.sent d msg) => if d = c then [msg] else []
  | _ => []

def Event.receivedOn (c : Chan) : Option Event → List Message
  | some (.received d msg) => if d = c then [msg] else []
  | _ => []

theorem History.sent_step (m m' : Machine) (log : List Event) (e : Option Event) (c : Chan) :
    History.sent ⟨m', log ++ e.toList⟩ c = History.sent ⟨m, log⟩ c ++ Event.sentOn c e := by
  unfold History.sent
  rw [List.filterMap_append]
  congr 1
  cases e with
  | none => rfl
  | some e =>
    cases e with
    | sent d msg => by_cases h : d = c <;> simp [Event.sentOn, h]
    | received d msg => simp [Event.sentOn]

theorem History.received_step (m m' : Machine) (log : List Event) (e : Option Event) (c : Chan) :
    History.received ⟨m', log ++ e.toList⟩ c =
      History.received ⟨m, log⟩ c ++ Event.receivedOn c e := by
  unfold History.received
  rw [List.filterMap_append]
  congr 1
  cases e with
  | none => rfl
  | some e =>
    cases e with
    | sent d msg => simp [Event.receivedOn]
    | received d msg => by_cases h : d = c <;> simp [Event.receivedOn, h]

namespace Machine

variable {m m' : Machine} {op : Op} {e : Option Event}

/-- What a step takes from a channel and what it leaves there is what was there and what
it puts in. -/
theorem Moved.words (hs : m.Sound) (h : m.Moved op e m') (d : Chan) :
    (Event.receivedOn d e).map (·.word) ++ (m'.queues d).buf =
      (m.queues d).buf ++ (Event.sentOn d e).map (·.word) := by
  have key : ∀ {c : Chan} {q : Queue} {taken put : List Reg},
      m'.queues = Function.update m.queues c q →
      (d ≠ c → taken = [] ∧ put = []) → (d = c → taken ++ q.buf = (m.queues c).buf ++ put) →
      taken ++ (m'.queues d).buf = (m.queues d).buf ++ put := by
    intro c q taken put hq hne heq
    rw [hq]
    by_cases hd : d = c
    · subst hd
      rw [Function.update_self]
      exact heq rfl
    · obtain ⟨rfl, rfl⟩ := hne hd
      rw [Function.update_of_ne hd, List.append_nil, List.nil_append]
  cases h with
  | own _ _ hq | spawned _ _ _ _ _ _ hq | freed _ _ _ hq | yielded _ _ _ hq | exited _ _ hq =>
    rw [hq]
    exact (List.append_nil _).symm
  | made _ hdead _ hq =>
    exact key hq (fun _ => ⟨rfl, rfl⟩) fun _ => by
      simp [Event.receivedOn, Event.sentOn, hs.unused _ hdead]
  | blockedRecv _ _ _ hq | blockedSend _ _ _ hq =>
    exact key hq (fun _ => ⟨rfl, rfl⟩) fun _ => (List.append_nil _).symm
  | sent _ _ _ hq =>
    exact key hq (fun hd => by simp [Event.receivedOn, Event.sentOn, Ne.symm hd])
      fun hd => by simp [Event.receivedOn, Event.sentOn, hd]
  | sentWoke _ _ _ _ _ hq =>
    exact key hq (fun hd => by simp [Event.receivedOn, Event.sentOn, Ne.symm hd])
      fun hd => by simp [Event.receivedOn, Event.sentOn, hd]
  | received _ _ _ hhead _ hq =>
    exact key hq (fun hd => by simp [Event.receivedOn, Event.sentOn, Ne.symm hd])
      fun hd => by simp [Event.receivedOn, Event.sentOn, hd, hhead]
  | receivedWoke _ _ hhead _ _ _ _ hq =>
    exact key hq (fun hd => by simp [Event.receivedOn, Event.sentOn, Ne.symm hd])
      fun hd => by simp [Event.receivedOn, Event.sentOn, hd, hhead]

end Machine

/-!
## No wakeup is lost

While a task waits to receive, there are at least as many woken receivers that have not
tried again as there are values in the channel: a send wakes one for each value it adds,
a task that runs first takes a value with it, and a woken one that then finds none waits
again.  The same holds of senders and free slots.
-/

namespace Machine

variable {m m' : Machine} {op : Op} {e : Option Event}

/-! ## Who waits for what -/

structure Waiters (m : Machine) : Prop where
  recv : ∀ c, ∀ t ∈ (m.queues c).recv, ∃ kind, m.resume t = .recv c kind
  send : ∀ c, ∀ t ∈ (m.queues c).send, ∃ msg, m.resume t = .send c msg

/-- A step moves only the running task, which waits in no ring, and a task that is
spawned, which is in none either. -/
theorem Moved.resume_waiting (hs : m.Sound) (h : m.Moved op e m') {t : Task}
    (ht : m.sched.state t = .blocked) : m'.resume t = m.resume t := by
  have hcur : t ≠ m.sched.current := fun he => hs.current_ne.2.1 (he ▸ ht)
  cases h with
  | own _ _ _ hr | made _ _ _ _ hr | freed _ _ _ _ hr | yielded _ _ _ _ hr | exited _ _ _ hr
  | blockedRecv _ _ _ _ hr | blockedSend _ _ _ _ hr | sent _ _ _ _ hr =>
    rw [hr, Function.update_of_ne hcur]
  | sentWoke _ _ _ _ _ _ hr => rw [hr, Function.update_of_ne hcur]
  | received _ _ _ _ _ _ hr => rw [hr, Function.update_of_ne hcur]
  | receivedWoke _ _ _ _ _ _ _ _ hr => rw [hr, Function.update_of_ne hcur]
  | @spawned _ u _ _ hfree _ _ _ _ hr =>
    have hne : t ≠ u := by
      rintro rfl
      exact absurd (hfree.symm.trans ht) (by simp)
    rw [hr, Function.update_of_ne hcur, Function.update_of_ne hne]

/-- A task in a wait ring after a step was in it before, or it is the running task, which
starts to wait. -/
theorem Moved.mem_recv (h : m.Moved op e m') {d : Chan} {t : Task} (ht : t ∈ (m'.queues d).recv) :
    t ∈ (m.queues d).recv ∨ ∃ kind, m'.resume t = .recv d kind := by
  have key : ∀ {c : Chan} {q : Queue}, m'.queues = Function.update m.queues c q →
      (t ∈ q.recv → t ∈ (m.queues c).recv ∨ ∃ kind, m'.resume t = .recv c kind) →
      t ∈ (m.queues d).recv ∨ ∃ kind, m'.resume t = .recv d kind := by
    intro c q hq hc
    rw [hq] at ht
    by_cases hd : d = c
    · subst hd
      rw [Function.update_self] at ht
      exact hc ht
    · rw [Function.update_of_ne hd] at ht
      exact .inl ht
  cases h with
  | own _ _ hq | spawned _ _ _ _ _ _ hq | freed _ _ _ hq | yielded _ _ _ hq | exited _ _ hq =>
    rw [hq] at ht
    exact .inl ht
  | made _ _ _ hq | blockedSend _ _ _ hq | sent _ _ _ hq => exact key hq .inl
  | received _ _ _ _ _ hq => exact key hq .inl
  | receivedWoke _ _ _ _ _ _ _ hq => exact key hq .inl
  | sentWoke _ hfirst _ _ _ hq => exact key hq fun ht => .inl (hfirst ▸ List.mem_cons_of_mem _ ht)
  | @blockedRecv _ _ kind _ _ _ hq hr =>
    refine key hq fun ht => ?_
    obtain ht | ht := List.mem_append.1 ht
    · exact .inl ht
    · rw [List.mem_singleton.1 ht, hr, Function.update_self]
      exact .inr ⟨kind, rfl⟩

theorem Moved.mem_send (h : m.Moved op e m') {d : Chan} {t : Task} (ht : t ∈ (m'.queues d).send) :
    t ∈ (m.queues d).send ∨ ∃ msg, m'.resume t = .send d msg := by
  have key : ∀ {c : Chan} {q : Queue}, m'.queues = Function.update m.queues c q →
      (t ∈ q.send → t ∈ (m.queues c).send ∨ ∃ msg, m'.resume t = .send c msg) →
      t ∈ (m.queues d).send ∨ ∃ msg, m'.resume t = .send d msg := by
    intro c q hq hc
    rw [hq] at ht
    by_cases hd : d = c
    · subst hd
      rw [Function.update_self] at ht
      exact hc ht
    · rw [Function.update_of_ne hd] at ht
      exact .inl ht
  cases h with
  | own _ _ hq | spawned _ _ _ _ _ _ hq | freed _ _ _ hq | yielded _ _ _ hq | exited _ _ hq =>
    rw [hq] at ht
    exact .inl ht
  | made _ _ _ hq | blockedRecv _ _ _ hq | sent _ _ _ hq => exact key hq .inl
  | received _ _ _ _ _ hq => exact key hq .inl
  | sentWoke _ _ _ _ _ hq => exact key hq .inl
  | receivedWoke _ _ _ hfirst _ _ _ hq =>
    exact key hq fun ht => .inl (hfirst ▸ List.mem_cons_of_mem _ ht)
  | @blockedSend _ _ msg _ _ _ hq hr =>
    refine key hq fun ht => ?_
    obtain ht | ht := List.mem_append.1 ht
    · exact .inl ht
    · rw [List.mem_singleton.1 ht, hr, Function.update_self]
      exact .inr ⟨msg, rfl⟩

theorem Moved.waiters (hs : m.Sound) (hw : m.Waiters) (h : m.Moved op e m') : m'.Waiters where
  recv c t ht := by
    obtain hold | hnew := h.mem_recv ht
    · rw [h.resume_waiting hs (hs.blocked_of_mem (.inl hold))]
      exact hw.recv c t hold
    · exact hnew
  send c t ht := by
    obtain hold | hnew := h.mem_send ht
    · rw [h.resume_waiting hs (hs.blocked_of_mem (.inr hold))]
      exact hw.send c t hold
    · exact hnew

/-! ## Who has been woken -/

def awake (st : TaskState) : Bool := st == .ready || st == .running

/-- The tasks that have been woken, or run, and go on where `p` says. -/
def woken (m : Machine) (p : Resume → Bool) : Finset Task :=
  Finset.univ.filter fun t => p (m.resume t) && awake (m.sched.state t)

end Machine

def Resume.receives (c : Chan) : Resume → Bool
  | .recv d _ => d == c
  | _ => false

def Resume.sends (c : Chan) : Resume → Bool
  | .send d _ => d == c
  | _ => false

namespace Scheduler

theorem Switched.awake {s s' : Scheduler} (h : s.Switched s') {t : Task} (hne : t ≠ s.current)
    (ht : Machine.awake (s.state t) = true) : Machine.awake (s'.state t) = true := by
  rw [h.state]
  by_cases he : t = s'.current
  · subst he
    rw [Function.update_self]
    rfl
  · rw [Function.update_of_ne he, parked_of_ne hne, ht]

end Scheduler

namespace Machine

variable {m m' : Machine} {op : Op} {e : Option Event}

theorem mem_woken {p : Resume → Bool} {t : Task} :
    t ∈ m.woken p ↔ p (m.resume t) = true ∧ awake (m.sched.state t) = true := by
  simp [woken]

theorem Moved.woken_of_ne (hs : m.Sound) (h : m.Moved op e m') {p : Resume → Bool} {t : Task}
    (hne : t ≠ m.sched.current) (ht : t ∈ m.woken p) : t ∈ m'.woken p := by
  obtain ⟨hp, ha⟩ := mem_woken.1 ht
  have hst : ∀ {u : Task} {st : TaskState}, m'.sched.state = Function.update m.sched.state u st →
      awake (m.sched.state u) = false → awake (m'.sched.state t) = true := by
    intro u st hst hu
    rw [hst, Function.update_of_ne]
    · exact ha
    · rintro rfl
      rw [ha] at hu
      exact absurd hu (by simp)
  have hnone : ∀ {st : TaskState}, awake ((m.sched.setState m.sched.current st).state t) = true := by
    intro st
    rw [Scheduler.setState_state, Function.update_of_ne hne]
    exact ha
  have hsame : m'.resume = Function.update m.resume m.sched.current (m'.resume m.sched.current) →
      awake (m'.sched.state t) = true → t ∈ m'.woken p := by
    intro hr haw
    rw [mem_woken, hr, Function.update_of_ne hne]
    exact ⟨hp, haw⟩
  have hupd : ∀ {r : Resume}, m'.resume = Function.update m.resume m.sched.current r →
      m'.resume = Function.update m.resume m.sched.current (m'.resume m.sched.current) := by
    intro r hr
    rw [hr, Function.update_self]
  cases h with
  | own _ hsched _ hr | made _ _ hsched _ hr | sent _ hsched _ _ hr
  | received _ _ hsched _ _ _ hr => exact hsame (hupd hr) (hsched ▸ ha)
  | freed _ hex hsched _ hr =>
    exact hsame (hupd hr) (hst (congrArg Scheduler.state hsched) (by simp [hex, awake]))
  | yielded _ _ hsw _ hr => exact hsame (hupd hr) (hsw.awake hne ha)
  | exited _ hsw _ hr | blockedRecv _ _ hsw _ hr | blockedSend _ _ hsw _ hr =>
    exact hsame (hupd hr) (hsw.awake hne hnone)
  | sentWoke _ hfirst _ hstate _ _ hr =>
    have hb := hs.blocked_of_mem (.inl (hfirst ▸ List.mem_cons_self))
    exact hsame (hupd hr) (hst hstate (by simp [hb, awake]))
  | receivedWoke _ _ _ hfirst _ hstate _ _ hr =>
    have hb := hs.blocked_of_mem (.inr (hfirst ▸ List.mem_cons_self))
    exact hsame (hupd hr) (hst hstate (by simp [hb, awake]))
  | @spawned _ u _ _ hfree _ hstate _ _ hr =>
    have hu : t ≠ u := by
      rintro rfl
      rw [hfree] at ha
      exact absurd ha (by simp [awake])
    rw [mem_woken, hr, Function.update_of_ne hne, Function.update_of_ne hu]
    exact ⟨hp, hst hstate (by simp [hfree, awake])⟩

theorem Moved.woken_card (hs : m.Sound) (h : m.Moved op e m') (p : Resume → Bool) :
    (m.woken p).card ≤ (m'.woken p).card + if p (m.resume m.sched.current) then 1 else 0 := by
  split
  · have hsub : (m.woken p).erase m.sched.current ⊆ m'.woken p := by
      intro t ht
      exact h.woken_of_ne hs (Finset.ne_of_mem_erase ht) (Finset.mem_of_mem_erase ht)
    have hcard := Finset.card_le_card hsub
    have := Finset.pred_card_le_card_erase (s := m.woken p) (a := m.sched.current)
    omega
  · next hp =>
    refine Finset.card_le_card fun t ht => h.woken_of_ne hs ?_ ht
    rintro rfl
    exact hp (mem_woken.1 ht).1

theorem Moved.woken_card_succ (hs : m.Sound) (h : m.Moved op e m') {p : Resume → Bool} {t : Task}
    (hold : m.sched.state t = .blocked) (hnew : t ∈ m'.woken p) :
    (m.woken p).card + 1 ≤ (m'.woken p).card + if p (m.resume m.sched.current) then 1 else 0 := by
  have hnot : t ∉ m.woken p := by
    intro ht
    have := (mem_woken.1 ht).2
    simp [hold, awake] at this
  have hins : (insert t (m.woken p)).card = (m.woken p).card + 1 := Finset.card_insert_of_notMem hnot
  split
  · have hsub : (insert t (m.woken p)).erase m.sched.current ⊆ m'.woken p := by
      intro u hu
      obtain rfl | hu' := Finset.mem_insert.1 (Finset.mem_of_mem_erase hu)
      · exact hnew
      · exact h.woken_of_ne hs (Finset.ne_of_mem_erase hu) hu'
    have hcard := Finset.card_le_card hsub
    have := Finset.pred_card_le_card_erase (s := insert t (m.woken p)) (a := m.sched.current)
    omega
  · next hp =>
    rw [← hins, Nat.add_zero]
    refine Finset.card_le_card fun u hu => ?_
    obtain rfl | hu' := Finset.mem_insert.1 hu
    · exact hnew
    · refine h.woken_of_ne hs ?_ hu'
      rintro rfl
      exact hp (mem_woken.1 hu').1

/-! ## What the running task was woken for -/

theorem Idle.receives (h : m.Idle) (d : Chan) : (m.resume m.sched.current).receives d = false := by
  obtain h | ⟨t, h⟩ := h <;> rw [h] <;> rfl

theorem Idle.sends (h : m.Idle) (d : Chan) : (m.resume m.sched.current).sends d = false := by
  obtain h | ⟨t, h⟩ := h <;> rw [h] <;> rfl

theorem Sends.receives {c : Chan} {msg : Message} (h : m.Sends op c msg) (d : Chan) :
    (m.resume m.sched.current).receives d = false := by
  obtain h | ⟨h, _⟩ := h <;> rw [h] <;> rfl

theorem Sends.sends {c d : Chan} {msg : Message} (h : m.Sends op c msg) (hd : d ≠ c) :
    (m.resume m.sched.current).sends d = false := by
  obtain h | ⟨h, _⟩ := h
  · rw [h]
    exact beq_false_of_ne (Ne.symm hd)
  · rw [h]
    rfl

theorem Receives.sends {c : Chan} {kind : Option ChannelPayloadKind} (h : m.Receives op c kind)
    (d : Chan) : (m.resume m.sched.current).sends d = false := by
  obtain h | ⟨h, _⟩ := h <;> rw [h] <;> rfl

theorem Receives.receives {c d : Chan} {kind : Option ChannelPayloadKind}
    (h : m.Receives op c kind) (hd : d ≠ c) : (m.resume m.sched.current).receives d = false := by
  obtain h | ⟨h, _⟩ := h
  · rw [h]
    exact beq_false_of_ne (Ne.symm hd)
  · rw [h]
    rfl

/-- While a task waits, there are as many woken ones as there is for them to take. -/
structure Wakeups (m : Machine) : Prop where
  recv : ∀ c, (m.queues c).recv ≠ [] →
    (m.queues c).buf.length ≤ (m.woken (Resume.receives c)).card
  send : ∀ c, (m.queues c).send ≠ [] →
    64 - (m.queues c).buf.length ≤ (m.woken (Resume.sends c)).card

theorem Moved.woken_recv (hs : m.Sound) (hw : m.Waiters) (h : m.Moved op e m') {c : Chan} {t : Task}
    (ht : t ∈ (m.queues c).recv) (hst : m'.sched.state t = .ready) :
    t ∈ m'.woken (Resume.receives c) := by
  obtain ⟨kind, hk⟩ := hw.recv c t ht
  rw [mem_woken, h.resume_waiting hs (hs.blocked_of_mem (.inl ht)), hk, hst]
  exact ⟨beq_self_eq_true c, rfl⟩

theorem Moved.woken_send (hs : m.Sound) (hw : m.Waiters) (h : m.Moved op e m') {c : Chan} {t : Task}
    (ht : t ∈ (m.queues c).send) (hst : m'.sched.state t = .ready) :
    t ∈ m'.woken (Resume.sends c) := by
  obtain ⟨msg, hmsg⟩ := hw.send c t ht
  rw [mem_woken, h.resume_waiting hs (hs.blocked_of_mem (.inr ht)), hmsg, hst]
  exact ⟨beq_self_eq_true c, rfl⟩

theorem Moved.wakeups_recv (hs : m.Sound) (hw : m.Waiters) (hk : m.Wakeups) (h : m.Moved op e m')
    (d : Chan) (hne : (m'.queues d).recv ≠ []) :
    (m'.queues d).buf.length ≤ (m'.woken (Resume.receives d)).card := by
  have hold := hk.recv d
  have hcard := h.woken_card hs (Resume.receives d)
  have hmove := h
  -- The channel of the move is looked at by the caller, another one is as it was.
  have key : ∀ {c : Chan} {q : Queue}, m'.queues = Function.update m.queues c q →
      (d ≠ c → (m.resume m.sched.current).receives d = false) →
      (d = c → q.recv ≠ [] → q.buf.length ≤ (m'.woken (Resume.receives d)).card) →
      (m'.queues d).buf.length ≤ (m'.woken (Resume.receives d)).card := by
    intro c q hq hother hself
    rw [hq] at hne ⊢
    by_cases hd : d = c
    · subst hd
      rw [Function.update_self] at hne ⊢
      exact hself rfl hne
    · rw [Function.update_of_ne hd] at hne ⊢
      rw [hother hd] at hcard
      exact (hold hne).trans hcard
  cases h with
  | own hidle _ hq | spawned hidle _ _ _ _ _ hq | freed hidle _ _ hq | yielded hidle _ _ hq
  | exited hidle _ hq =>
    rw [hq] at hne ⊢
    rw [hidle.receives d] at hcard
    exact (hold hne).trans hcard
  | made hidle _ _ hq => exact key hq (fun _ => hidle.receives d) fun _ _ => Nat.zero_le _
  | blockedRecv hsrc hempty _ hq =>
    refine key hq (fun hd => hsrc.receives hd) fun _ _ => ?_
    show (m.queues _).buf.length ≤ _
    rw [hempty]
    exact Nat.zero_le _
  | blockedSend hsrc _ _ hq =>
    refine key hq (fun _ => hsrc.receives d) fun hd hr => ?_
    subst hd
    rw [hsrc.receives d] at hcard
    exact (hold hr).trans hcard
  | sent hsrc _ hnil hq =>
    exact key hq (fun _ => hsrc.receives d) fun _ hr => absurd hnil hr
  | sentWoke hsrc hfirst _ hst _ hq =>
    refine key hq (fun _ => hsrc.receives d) fun hd _ => ?_
    subst hd
    have hmem := hfirst ▸ List.mem_cons_self
    have hwoken := hmove.woken_recv hs hw hmem (by rw [hst, Function.update_self])
    have hsucc := hmove.woken_card_succ hs (hs.blocked_of_mem (.inl hmem)) hwoken
    have hlen := hold (by rw [hfirst]; exact List.cons_ne_nil _ _)
    rw [hsrc.receives d] at hsucc
    rw [List.length_append, List.length_singleton]
    exact (Nat.succ_le_succ hlen).trans hsucc
  | received hsrc _ _ hhead _ hq =>
    refine key hq (fun hd => hsrc.receives hd) fun hd hr => ?_
    subst hd
    have hlen := hold hr
    rw [hhead, List.length_cons] at hlen
    dsimp only
    split at hcard <;> omega
  | receivedWoke hsrc _ hhead _ _ _ _ hq =>
    refine key hq (fun hd => hsrc.receives hd) fun hd hr => ?_
    subst hd
    have hlen := hold hr
    rw [hhead, List.length_cons] at hlen
    dsimp only
    split at hcard <;> omega

theorem Moved.wakeups_send (hs : m.Sound) (hw : m.Waiters) (hk : m.Wakeups) (h : m.Moved op e m')
    (d : Chan) (hne : (m'.queues d).send ≠ []) :
    64 - (m'.queues d).buf.length ≤ (m'.woken (Resume.sends d)).card := by
  have hold := hk.send d
  have hcard := h.woken_card hs (Resume.sends d)
  have hmove := h
  have key : ∀ {c : Chan} {q : Queue}, m'.queues = Function.update m.queues c q →
      (d ≠ c → (m.resume m.sched.current).sends d = false) →
      (d = c → q.send ≠ [] → 64 - q.buf.length ≤ (m'.woken (Resume.sends d)).card) →
      64 - (m'.queues d).buf.length ≤ (m'.woken (Resume.sends d)).card := by
    intro c q hq hother hself
    rw [hq] at hne ⊢
    by_cases hd : d = c
    · subst hd
      rw [Function.update_self] at hne ⊢
      exact hself rfl hne
    · rw [Function.update_of_ne hd] at hne ⊢
      rw [hother hd] at hcard
      exact (hold hne).trans hcard
  cases h with
  | own hidle _ hq | spawned hidle _ _ _ _ _ hq | freed hidle _ _ hq | yielded hidle _ _ hq
  | exited hidle _ hq =>
    rw [hq] at hne ⊢
    rw [hidle.sends d] at hcard
    exact (hold hne).trans hcard
  | made hidle hdead _ hq =>
    refine key hq (fun _ => hidle.sends d) fun hd hr => ?_
    subst hd
    have hlen := hold hr
    rw [hs.unused d hdead] at hlen
    rw [hidle.sends d] at hcard
    exact hlen.trans hcard
  | blockedSend hsrc hfull _ hq =>
    refine key hq (fun hd => hsrc.sends hd) fun _ _ => ?_
    show 64 - (m.queues _).buf.length ≤ _
    rw [hfull]
    exact Nat.zero_le _
  | blockedRecv hsrc _ _ hq =>
    refine key hq (fun _ => hsrc.sends d) fun hd hr => ?_
    subst hd
    rw [hsrc.sends d] at hcard
    exact (hold hr).trans hcard
  | received hsrc _ _ _ hnil hq =>
    exact key hq (fun _ => hsrc.sends d) fun _ hr => absurd hnil hr
  | receivedWoke hsrc _ hhead hfirst _ hst _ hq =>
    refine key hq (fun _ => hsrc.sends d) fun hd _ => ?_
    subst hd
    have hmem := hfirst ▸ List.mem_cons_self
    have hwoken := hmove.woken_send hs hw hmem (by rw [hst, Function.update_self])
    have hsucc := hmove.woken_card_succ hs (hs.blocked_of_mem (.inr hmem)) hwoken
    have hlen := hold (by rw [hfirst]; exact List.cons_ne_nil _ _)
    rw [hsrc.sends d] at hsucc
    rw [hhead, List.length_cons] at hlen
    simp only [Bool.false_eq_true, if_false] at hsucc
    dsimp only
    omega
  | sent hsrc _ _ hq =>
    refine key hq (fun hd => hsrc.sends hd) fun hd hr => ?_
    subst hd
    have hlen := hold hr
    rw [List.length_append, List.length_singleton]
    split at hcard <;> omega
  | sentWoke hsrc _ _ _ _ hq =>
    refine key hq (fun hd => hsrc.sends hd) fun hd hr => ?_
    subst hd
    have hlen := hold hr
    rw [List.length_append, List.length_singleton]
    split at hcard <;> omega

theorem Moved.wakeups (hs : m.Sound) (hw : m.Waiters) (hk : m.Wakeups) (h : m.Moved op e m') :
    m'.Wakeups :=
  ⟨h.wakeups_recv hs hw hk, h.wakeups_send hs hw hk⟩

end Machine

end Tyu.Tasks

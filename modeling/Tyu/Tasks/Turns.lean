import Tyu.Tasks.Delivery

/-! # Whose turn it is -/

namespace Tyu.Tasks

open Lib

/-- The first `n` waiters of `old` are gone, the others are still in front and in order. -/
def Served (n : ℕ) (old new : List Task) : Prop :=
  ∃ late, new = old.drop n ++ late

theorem Served.refl (ring : List Task) : Served 0 ring ring := ⟨[], by simp⟩

theorem Served.trans {a b : ℕ} {r s t : List Task} (h : Served a r s) (h' : Served b s t) :
    Served (a + b) r t := by
  obtain ⟨late, rfl⟩ := h
  obtain ⟨later, rfl⟩ := h'
  refine ⟨late.drop (b - (r.drop a).length) ++ later, ?_⟩
  rw [List.drop_append, List.drop_drop, List.append_assoc]

namespace Machine

variable {m m' : Machine} {op : Op} {e : Option Event}

/-- One channel changes: only the waiters of that channel may. -/
theorem served_of_queues {n : ℕ} {f : Queue → List Task} {q : Queue} {c d : Chan}
    (hq : m'.queues = Function.update m.queues d q)
    (hhere : d = c → Served n (f (m.queues d)) (f q)) (helse : d ≠ c → n = 0) :
    Served n (f (m.queues c)) (f (m'.queues c)) := by
  rw [hq]
  by_cases hd : d = c
  · subst hd
    rw [Function.update_self]
    exact hhere rfl
  · rw [Function.update_of_ne (Ne.symm hd), helse hd]
    exact .refl _

theorem Moved.served_recv (h : m.Moved op e m') (c : Chan) :
    Served (Event.sentOn c e).length (m.queues c).recv (m'.queues c).recv := by
  have hone : ∀ {d : Chan} {msg : Message}, d ≠ c →
      (Event.sentOn c (some (.sent d msg))).length = 0 := fun hd => by
    simp only [Event.sentOn, hd, if_false, List.length_nil]
  cases h with
  | own _ _ hq | spawned _ _ _ _ _ _ hq | freed _ _ _ hq | yielded _ _ _ hq | exited _ _ hq =>
    rw [hq]
    exact .refl _
  | made _ _ _ hq | blockedSend _ _ _ hq | received _ _ _ _ _ hq
  | receivedWoke _ _ _ _ _ _ _ hq =>
    exact served_of_queues (f := Queue.recv) hq (fun _ => .refl _) (fun _ => rfl)
  | blockedRecv _ _ _ hq =>
    exact served_of_queues (f := Queue.recv) hq (fun _ => ⟨[m.sched.current], rfl⟩) (fun _ => rfl)
  | sent _ _ hnone hq =>
    refine served_of_queues (f := Queue.recv) hq (fun _ => ?_) hone
    rw [hnone]
    exact ⟨[], by simp⟩
  | sentWoke _ hfirst _ _ _ hq =>
    refine served_of_queues (f := Queue.recv) hq (fun hd => ?_) hone
    rw [hfirst]
    exact ⟨[], by simp [Event.sentOn, hd]⟩

theorem Moved.served_send (h : m.Moved op e m') (c : Chan) :
    Served (Event.receivedOn c e).length (m.queues c).send (m'.queues c).send := by
  have hone : ∀ {d : Chan} {msg : Message}, d ≠ c →
      (Event.receivedOn c (some (.received d msg))).length = 0 := fun hd => by
    simp only [Event.receivedOn, hd, if_false, List.length_nil]
  cases h with
  | own _ _ hq | spawned _ _ _ _ _ _ hq | freed _ _ _ hq | yielded _ _ _ hq | exited _ _ hq =>
    rw [hq]
    exact .refl _
  | made _ _ _ hq | blockedRecv _ _ _ hq | sent _ _ _ hq | sentWoke _ _ _ _ _ hq =>
    exact served_of_queues (f := Queue.send) hq (fun _ => .refl _) (fun _ => rfl)
  | blockedSend _ _ _ hq =>
    exact served_of_queues (f := Queue.send) hq (fun _ => ⟨[m.sched.current], rfl⟩) (fun _ => rfl)
  | received _ _ _ _ hnone hq =>
    refine served_of_queues (f := Queue.send) hq (fun _ => ?_) hone
    rw [hnone]
    exact ⟨[], by simp⟩
  | receivedWoke _ _ _ hfirst _ _ _ hq =>
    refine served_of_queues (f := Queue.send) hq (fun hd => ?_) hone
    rw [hfirst]
    exact ⟨[], by simp [Event.receivedOn, hd]⟩

end Machine

def waitOps : List Op := [.make, .spawn, .yield, .recv 0 sampleWord TY_I64]

/-- **No word is lost or made up.**  In every run, whatever is sent, the words received from a
channel and the words in its buffer are the words sent to it, in order; and a task in a wait
ring is woken to do again what it waits for. -/
theorem words_conserved {h : History} (hr : (system fun _ => True).Reachable h) (c : Chan) :
    (h.received c).map (·.word) ++ (h.machine.queues c).buf = (h.sent c).map (·.word) ∧
      (∀ t ∈ (h.machine.queues c).recv, ∃ kind, h.machine.resume t = .recv c kind) ∧
      (∀ t ∈ (h.machine.queues c).send, ∃ msg, h.machine.resume t = .send c msg) ∧
      ((h.machine.queues c).recv ≠ [] →
        (h.machine.queues c).buf.length ≤ (h.machine.woken (Resume.receives c)).card) ∧
      ((h.machine.queues c).send ≠ [] →
        64 - (h.machine.queues c).buf.length ≤ (h.machine.woken (Resume.sends c)).card) := by
  have hc := conserved_of_reachable hr
  exact ⟨hc.words c, hc.waiters.recv c, hc.waiters.send c, hc.wakeups.recv c, hc.wakeups.send c⟩

theorem pair_conserved :
    ∃ h, pairSent = some h ∧
      (h.received 0).map (·.word) ++ (h.machine.queues 0).buf = (h.sent 0).map (·.word) := by
  have hrun : ∃ h, pairSent = some h := ⟨_, rfl⟩
  obtain ⟨h, hh⟩ := hrun
  exact ⟨h, hh, (words_conserved
    (History.run_reachable (.start ⟨⟨_, rfl⟩, rfl⟩) (fun _ _ => trivial) hh) 0).1⟩

end Tyu.Tasks

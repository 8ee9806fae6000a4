import Tyu.Tasks.Wakeups

/-! # What a receiver gets -/

namespace Tyu.Tasks

open Lib

/-! ## Messages of unboxed types -/

def Message.Delivered (s r : Message) : Prop :=
  r.value = r.kind.canonical (s.kind.canonical s.value)

theorem Message.delivered_of_word {s r : Message} (hs : s.Packed) (hr : r.Unpacked)
    (hw : s.word = r.word) : s.Delivered r := by
  obtain ⟨_, v, hv, hword⟩ := hs
  show r.value = _
  rw [hr.2, ← hw, hword, hv]
  rfl

structure History.Plain (h : History) : Prop where
  sending : ∀ t c msg, h.machine.resume t = .send c msg → msg.Packed
  receiving : ∀ t c k, h.machine.resume t = .recv c (some k) → k.isBox = false
  sent : ∀ c, ∀ msg ∈ h.sent c, msg.Packed
  received : ∀ c, ∀ msg ∈ h.received c, msg.Unpacked

/-- What holds along every run: each word is accounted for and no wakeup is lost. -/
structure History.Conserved (h : History) : Prop where
  sound : h.machine.Sound
  waiters : h.machine.Waiters
  wakeups : h.machine.Wakeups
  words : ∀ c, (h.received c).map (·.word) ++ (h.machine.queues c).buf = (h.sent c).map (·.word)

theorem conserved_of_reachable {ok : Op → Prop} {h : History} (hr : (system ok).Reachable h) :
    h.Conserved := by
  refine System.Reach.invariant (I := History.Conserved) (fun h hi => ?_)
    (fun h h' hc _ hstep => ?_) hr
  · obtain ⟨m, log⟩ := h
    obtain ⟨⟨mem, rfl⟩, rfl⟩ := hi
    have hempty : ∀ c, (Machine.start mem).queues c = ⟨false, [], [], []⟩ := fun c => by
      simp [Machine.start, Machine.queues, Channel.queue]
    refine ⟨Machine.sound_start mem, ⟨?_, ?_⟩, ⟨?_, ?_⟩, ?_⟩
    · intro c t ht
      rw [hempty] at ht
      exact absurd ht (by simp)
    · intro c t ht
      rw [hempty] at ht
      exact absurd ht (by simp)
    · intro c hne
      exact absurd (by rw [hempty]) hne
    · intro c hne
      exact absurd (by rw [hempty]) hne
    · intro c
      rw [hempty]
      rfl
  · obtain ⟨m, log⟩ := h
    obtain ⟨m', log'⟩ := h'
    obtain ⟨op, e, _, hnext, rfl⟩ := hstep
    have hmove := Machine.next_moved hc.sound hnext
    refine ⟨hmove.sound hc.sound, hmove.waiters hc.sound hc.waiters,
      hmove.wakeups hc.sound hc.waiters hc.wakeups, fun c => ?_⟩
    have hold := hc.words c
    have hstep := hmove.words hc.sound c
    rw [History.sent_step m, History.received_step m, List.map_append, List.map_append,
      List.append_assoc, hstep, ← List.append_assoc, hold]

namespace Machine

variable {m m' : Machine} {op : Op} {e : Option Event}

theorem Moved.sends_of_mem (h : m.Moved op e m') {c : Chan} {msg : Message}
    (hmem : msg ∈ Event.sentOn c e) : m.Sends op c msg := by
  cases h with
  | @sent _ d msg' hsrc | @sentWoke _ d msg' _ _ hsrc =>
    by_cases hd : d = c
    · subst hd
      simp only [Event.sentOn, if_true, List.mem_singleton] at hmem
      rwa [hmem]
    · simp [Event.sentOn, hd] at hmem
  | _ => exact absurd hmem (by simp [Event.sentOn])

theorem Moved.receives_of_mem (h : m.Moved op e m') {c : Chan} {msg : Message}
    (hmem : msg ∈ Event.receivedOn c e) :
    m.Receives op c (some msg.kind) ∧ (msg.kind.isBox = false → msg.Unpacked) := by
  cases h with
  | @received _ d msg' _ hsrc hun | @receivedWoke _ d msg' _ _ _ hsrc hun =>
    by_cases hd : d = c
    · subst hd
      simp only [Event.receivedOn, if_true, List.mem_singleton] at hmem
      rw [hmem]
      exact ⟨hsrc, hun⟩
    · simp [Event.receivedOn, hd] at hmem
  | _ => exact absurd hmem (by simp [Event.receivedOn])

end Machine

theorem History.Plain.packed {h : History} (hp : h.Plain) {op : Op} (hop : op.Unboxed) {c : Chan}
    {msg : Message} (hsrc : h.machine.Sends op c msg) : msg.Packed := by
  obtain hres | ⟨_, _, hmsg⟩ := hsrc
  · exact hp.sending _ c msg hres
  · exact hmsg hop

theorem History.Plain.unboxed {h : History} (hp : h.Plain) {op : Op} (hop : op.Unboxed) {c : Chan}
    {k : ChannelPayloadKind} (hsrc : h.machine.Receives op c (some k)) : k.isBox = false := by
  obtain hres | ⟨_, hk⟩ := hsrc
  · exact hp.receiving _ c k hres
  · exact hk hop k rfl

theorem plain_of_reachable {h : History} (hr : (system Op.Unboxed).Reachable h) : h.Plain := by
  induction hr with
  | @start h hi =>
    obtain ⟨m, log⟩ := h
    obtain ⟨⟨mem, rfl⟩, rfl⟩ := hi
    exact ⟨by simp [Machine.start], by simp [Machine.start], by simp [History.sent],
      by simp [History.received]⟩
  | @next h h' hr _ hstep hp =>
    have hc := conserved_of_reachable hr
    obtain ⟨m, log⟩ := h
    obtain ⟨m', log'⟩ := h'
    obtain ⟨op, e, hop, hnext, rfl⟩ := hstep
    have hmove := Machine.next_moved hc.sound hnext
    refine ⟨fun t c msg ht => ?_, fun t c k ht => ?_, fun c msg hmem => ?_, fun c msg hmem => ?_⟩
    · obtain hold | hsrc := hmove.sending ht
      · exact hp.sending t c msg hold
      · exact hp.packed hop hsrc
    · obtain hold | hsrc := hmove.receiving ht
      · exact hp.receiving t c k hold
      · exact hp.unboxed hop hsrc
    · rw [History.sent_step m] at hmem
      obtain hold | hnew := List.mem_append.1 hmem
      · exact hp.sent c msg hold
      · exact hp.packed hop (hmove.sends_of_mem hnew)
    · rw [History.received_step m] at hmem
      obtain hold | hnew := List.mem_append.1 hmem
      · exact hp.received c msg hold
      · obtain ⟨hsrc, hun⟩ := hmove.receives_of_mem hnew
        exact hun (hp.unboxed hop hsrc)

/-! ## First in, first out -/

def History.InOrder (h : History) (c : Chan) : Prop :=
  List.Forall₂ Message.Delivered ((h.sent c).take (h.received c).length) (h.received c)

/-- On a channel of one payload type, the values received are a prefix of the canonical
values sent. -/
def History.TypedInOrder (h : History) (c : Chan) : Prop :=
  ∀ k : ChannelPayloadKind, (∀ msg ∈ h.sent c, msg.kind = k) → (∀ msg ∈ h.received c, msg.kind = k) →
    (h.received c).map (·.value) <+: (h.sent c).map fun msg => k.canonical msg.value

theorem ChannelPayloadKind.canonical_canonical (k : ChannelPayloadKind) (x : Value) :
    k.canonical (k.canonical x) = k.canonical x := by
  cases x with
  | block bytes => rfl
  | word v => exact congrArg Value.word (k.canon_canon v)

theorem History.Plain.inOrder {h : History} (hp : h.Plain) (hc : h.Conserved) (c : Chan) :
    h.InOrder c := by
  have hwords := hc.words c
  have hlen : (h.received c).length ≤ (h.sent c).length := by
    have hl := congrArg List.length hwords
    simp only [List.length_append, List.length_map] at hl
    omega
  have htake : ((h.sent c).take (h.received c).length).map (·.word) =
      (h.received c).map (·.word) := by
    rw [List.map_take, ← hwords, List.take_left' (by simp)]
  apply List.forall₂_iff_get.2
  have heq : ((h.sent c).take (h.received c).length).length = (h.received c).length := by
    rw [List.length_take]
    omega
  refine ⟨heq, fun i hi hi' => ?_⟩
  apply Message.delivered_of_word
  · exact hp.sent c _ (List.mem_of_mem_take (List.get_mem _ _))
  · exact hp.received c _ (List.get_mem _ _)
  · have hword := congrArg (fun l : List Reg => l[i]?) htake
    have hi'' : i < (h.sent c).length := (List.length_take_le' _ _).trans_lt' hi
    simpa [hi', hi''] using hword

theorem History.InOrder.typed {h : History} {c : Chan} (ho : h.InOrder c) : h.TypedInOrder c := by
  intro k hsent hreceived
  have hmap : (h.received c).map (·.value) =
      ((h.sent c).take (h.received c).length).map fun msg => k.canonical msg.value := by
    have htake : ∀ msg ∈ (h.sent c).take (h.received c).length, msg.kind = k :=
      fun msg hm => hsent msg (List.mem_of_mem_take hm)
    unfold InOrder at ho
    revert hreceived htake ho
    generalize (h.sent c).take (h.received c).length = xs
    generalize h.received c = ys
    intro hxy hys hxs
    induction hxy with
    | nil => rfl
    | @cons x y xs ys hxy _ ih =>
      rw [List.map_cons, List.map_cons, ih (fun msg hm => hys msg (List.mem_cons_of_mem _ hm))
        (fun msg hm => hxs msg (List.mem_cons_of_mem _ hm))]
      congr 1
      rw [hxy, hys y List.mem_cons_self, hxs x List.mem_cons_self, k.canonical_canonical]
  rw [hmap, List.map_take]
  exact List.take_prefix _ _

/-- **Channels are bounded queues without lost wakeups.**  In every run that sends and
receives no value of a boxed type, what is received from a channel is what was sent to it,
in order and in canonical form; a channel holds at most 64 words; and while a task waits to
receive there are no more values than woken receivers, while a task waits to send no more
free slots than woken senders. -/
theorem channels_deliver {h : History} (hr : (system Op.Unboxed).Reachable h) (c : Chan) :
    h.InOrder c ∧ h.TypedInOrder c ∧ (h.machine.queues c).buf.length ≤ 64 ∧
      ((h.machine.queues c).recv ≠ [] →
        (h.machine.queues c).buf.length ≤ (h.machine.woken (Resume.receives c)).card) ∧
      ((h.machine.queues c).send ≠ [] →
        64 - (h.machine.queues c).buf.length ≤ (h.machine.woken (Resume.sends c)).card) := by
  have hc := conserved_of_reachable hr
  have ho := (plain_of_reachable hr).inOrder hc c
  exact ⟨ho, ho.typed, Ring.length_contents_le _, hc.wakeups.recv c, hc.wakeups.send c⟩

def integerOps : List Op := [.make, .send 0 7 sampleWord TY_I64 0, .recv 0 sampleWord TY_I64]

theorem integerOps_unboxed (op : Op) (hop : op ∈ integerOps) : op.Unboxed := by
  have hkind : channelPayloadKind sampleWord TY_I64 = some (.primitive 64 true false) := rfl
  have hplain : ∀ k, channelPayloadKind sampleWord TY_I64 = some k → k.isBox = false := by
    intro k hk
    rw [hkind] at hk
    rw [← Option.some.inj hk]
    rfl
  simp only [integerOps, List.mem_cons, List.not_mem_nil, or_false] at hop
  obtain rfl | rfl | rfl := hop
  · trivial
  · exact hplain
  · exact hplain

theorem integer_delivered :
    ∃ h, History.run ⟨.start fun _ => none, []⟩ integerOps = some h ∧ h.TypedInOrder 0 := by
  have hrun : ∃ h, History.run ⟨.start fun _ => none, []⟩ integerOps = some h := ⟨_, rfl⟩
  obtain ⟨h, hh⟩ := hrun
  exact ⟨h, hh, (channels_deliver
    (History.run_reachable (.start ⟨⟨_, rfl⟩, rfl⟩) integerOps_unboxed hh) 0).2.1⟩

/-- The type of sixteen bytes of `sampleWord`. -/
def TY_PAIR : TypeId := ⟨2⟩

def pairMemory : Memory := fun a => if 4096 ≤ a.toNat ∧ a.toNat < 4112 then some 1 else none

def pairOps : List Op :=
  [.make, .send 0 4096 sampleWord TY_PAIR 65536, .recv 0 sampleWord TY_PAIR]

def pairSent : Option History := History.run ⟨.start pairMemory, []⟩ pairOps

/-- The receiver of a boxed value is given the zeros behind the copy. -/
theorem boxed_lost :
    ∃ h, pairSent = some h ∧ (system fun _ => True).Reachable h ∧
      h.sent 0 = [⟨.boxCopy 16, .block (some (List.replicate 16 1)), 65552⟩] ∧
      h.received 0 = [⟨.boxCopy 16, .block (some (List.replicate 16 0)), 65552⟩] ∧
      ¬h.TypedInOrder 0 := by
  have hrun : ∃ h, pairSent = some h ∧
      h.sent 0 = [⟨.boxCopy 16, .block (some (List.replicate 16 1)), 65552⟩] ∧
      h.received 0 = [⟨.boxCopy 16, .block (some (List.replicate 16 0)), 65552⟩] :=
    ⟨_, rfl, by decide, by decide⟩
  obtain ⟨h, hh, hsent, hreceived⟩ := hrun
  refine ⟨h, hh, History.run_reachable (.start ⟨⟨_, rfl⟩, rfl⟩) (fun _ _ => trivial) hh, hsent,
    hreceived, fun hord => ?_⟩
  have hpre := hord (.boxCopy 16) (by simp [hsent]) (by simp [hreceived])
  rw [hsent, hreceived] at hpre
  exact absurd hpre (by decide)

end Tyu.Tasks

import Tyu.Tasks.Channel

/-! # Tasks are neither lost nor duplicated -/

namespace Tyu.Tasks

open Lib

theorem count_append_singleton (l : List Task) (t u : Task) :
    (l ++ [t]).count u = l.count u + if u = t then 1 else 0 := by
  rw [List.count_append, List.count_singleton]
  simp only [beq_iff_eq, @eq_comm _ t u]

theorem count_cons_task (l : List Task) (t u : Task) :
    (t :: l).count u = l.count u + if u = t then 1 else 0 := by
  rw [List.count_cons]
  simp only [beq_iff_eq, @eq_comm _ t u]

namespace Scheduler

def queued (s : Scheduler) (t : Task) : Nat :=
  (∑ k, (s.w k).contents.count t) + s.g.contents.count t

def Filed (s : Scheduler) : Prop := ∀ t, s.queued t = if s.state t = .ready then 1 else 0

def NoneReady (s : Scheduler) : Prop := ∀ t, s.state t ≠ .ready

/-! ## The rings -/

theorem queued_setRing (s : Scheduler) (k : Worker) (r : Ring Task 8) (t : Task) :
    queued { s with w := Function.update s.w k r } t + (s.w k).contents.count t =
      s.queued t + r.contents.count t := by
  have h := sum_update_add (fun r : Ring Task 8 => r.contents.count t) s.w k r
  simp only [queued]
  omega

theorem queued_setGlobal (s : Scheduler) (r : Ring Task 16) (t : Task) :
    queued { s with g := r } t + s.g.contents.count t = s.queued t + r.contents.count t := by
  simp only [queued]
  omega

variable {s s' : Scheduler} {t : Task} {k : Worker}

theorem Filed.queued_le_one (h : s.Filed) (t : Task) : s.queued t ≤ 1 := by
  rw [h t]
  split <;> omega

theorem offer_global (hone : ∀ u, s.queued u ≤ 1) {x : Task} (hx : s.queued x = 0) (t : Task) :
    ∃ r, s.g.offer t = some r := by
  have hnodup : (x :: s.g.contents).Nodup := by
    apply List.nodup_iff_count_le_one.2
    intro u
    have hu := hone u
    rw [count_cons_task]
    simp only [queued] at hu hx
    split
    · next he =>
      subst he
      omega
    · omega
  have hlen := hnodup.length_le_card
  rw [List.length_cons, Fintype.card_fin] at hlen
  cases hr : s.g.offer t with
  | some r => exact ⟨r, rfl⟩
  | none =>
    have := Ring.offer_eq_none.1 hr
    omega

theorem enqueue_some (h : s.enqueue t = some s') :
    s'.current = s.current ∧ s'.state = s.state ∧
      ∀ u, s'.queued u = s.queued u + if u = t then 1 else 0 := by
  unfold enqueue at h
  split at h
  · next r hr =>
    obtain rfl := Option.some.inj h
    refine ⟨rfl, rfl, fun u => ?_⟩
    have hq := s.queued_setRing s.worker r u
    rw [Ring.contents_offer hr, count_append_singleton] at hq
    omega
  · split at h
    · next r hr =>
      obtain rfl := Option.some.inj h
      refine ⟨rfl, rfl, fun u => ?_⟩
      have hq := s.queued_setGlobal r u
      rw [Ring.contents_offer hr, count_append_singleton] at hq
      omega
    · exact absurd h (by simp)

theorem enqueue_room (hone : ∀ u, s.queued u ≤ 1) {x : Task} (hx : s.queued x = 0) (t : Task) :
    ∃ s', s.enqueue t = some s' := by
  obtain ⟨r, hr⟩ := offer_global hone hx t
  unfold enqueue
  rw [hr]
  split
  · exact ⟨_, rfl⟩
  · exact ⟨_, rfl⟩

theorem pollWorker_some {l : Worker} (h : s.pollWorker k = some (t, l, s')) :
    s'.current = s.current ∧ s'.state = s.state ∧
      ∀ u, s.queued u = s'.queued u + if u = t then 1 else 0 := by
  unfold pollWorker at h
  split at h
  · next t' r hr =>
    simp only [Option.some.injEq, Prod.mk.injEq] at h
    obtain ⟨rfl, rfl, rfl⟩ := h
    refine ⟨rfl, rfl, fun u => ?_⟩
    have hq := s.queued_setRing k r u
    rw [Ring.contents_poll hr, count_cons_task] at hq
    omega
  · exact absurd h (by simp)

theorem pollWorker_none (h : s.pollWorker k = none) : (s.w k).contents = [] := by
  unfold pollWorker at h
  split at h
  · exact absurd h (by simp)
  · next hr => exact Ring.poll_eq_none.1 hr

theorem pick_some (h : s.pick = some (t, k, s')) :
    s'.current = s.current ∧ s'.state = s.state ∧
      ∀ u, s.queued u = s'.queued u + if u = t then 1 else 0 := by
  unfold pick at h
  split at h
  · next found hf =>
    obtain rfl := Option.some.inj h
    exact pollWorker_some hf
  · split at h
    · next t' r hr =>
      simp only [Option.some.injEq, Prod.mk.injEq] at h
      obtain ⟨rfl, rfl, rfl⟩ := h
      refine ⟨rfl, rfl, fun u => ?_⟩
      have hq := s.queued_setGlobal r u
      rw [Ring.contents_poll hr, count_cons_task] at hq
      omega
    · obtain ⟨l, _, hl⟩ := List.exists_of_findSome?_eq_some h
      exact pollWorker_some hl

theorem pick_none (h : s.pick = none) (t : Task) : s.queued t = 0 := by
  unfold pick at h
  split at h
  · exact absurd h (by simp)
  · next hown =>
    split at h
    · exact absurd h (by simp)
    · next hg =>
      have hw : ∀ k, (s.w k).contents = [] := by
        have hsteal := List.findSome?_eq_none_iff.1 h
        intro k
        have hk : k = s.worker ∨ ∃ l ∈ ([1, 2, 3] : List Worker), k = s.worker + l := by
          revert k
          generalize s.worker = j
          revert j
          decide
        obtain rfl | ⟨l, hl, rfl⟩ := hk
        · exact pollWorker_none hown
        · exact pollWorker_none (hsteal l hl)
      simp [queued, hw, Ring.poll_eq_none.1 hg]

/-! ## Yield -/

/-- The states after `park`. -/
def parked (s : Scheduler) : Task → TaskState :=
  match s.state s.current with
  | .free | .running => Function.update s.state s.current .ready
  | .ready | .exited | .blocked => s.state

@[simp] theorem setState_current (s : Scheduler) (t : Task) (st : TaskState) :
    (s.setState t st).current = s.current := rfl

@[simp] theorem setState_state (s : Scheduler) (t : Task) (st : TaskState) :
    (s.setState t st).state = Function.update s.state t st := rfl

@[simp] theorem queued_setState (s : Scheduler) (t : Task) (st : TaskState) (u : Task) :
    (s.setState t st).queued u = s.queued u := rfl

theorem park_running (hf : s.Filed)
    (hcur : s.state s.current = .free ∨ s.state s.current = .running) :
    s.park.current = s.current ∧ s.park.state = Function.update s.state s.current .ready ∧
      s.park.Filed := by
  have hzero : s.queued s.current = 0 := by
    rw [hf s.current]
    obtain h | h := hcur <;> simp [h]
  have key : ∀ s₁ : Scheduler, s₁.current = s.current → (∀ u, s₁.queued u = s.queued u) →
      Function.update s₁.state s.current .ready = Function.update s.state s.current .ready →
      let s₂ := s₁.setState s.current .ready
      ((s₂.enqueue s.current).getD s₂).current = s.current ∧
        ((s₂.enqueue s.current).getD s₂).state = Function.update s.state s.current .ready ∧
        ((s₂.enqueue s.current).getD s₂).Filed := by
    intro s₁ hcur₁ hq₁ hst₁ s₂
    obtain ⟨s₃, hs₃⟩ := enqueue_room (s := s₂) (x := s.current)
      (fun u => by rw [queued_setState, hq₁]; exact hf.queued_le_one u)
      (by rw [queued_setState, hq₁]; exact hzero) s.current
    obtain ⟨hc, hst, hq⟩ := enqueue_some hs₃
    rw [hs₃, Option.getD_some]
    refine ⟨by rw [hc]; exact hcur₁, by rw [hst]; exact hst₁, fun u => ?_⟩
    rw [hq, queued_setState, hq₁, hst, show s₂.state = _ from hst₁, hf u]
    by_cases hu : u = s.current
    · subst hu
      obtain h | h := hcur <;> simp [h]
    · simp [hu]
  obtain h | h := hcur
  · have := key (s.setState s.current .running) rfl (fun _ => rfl) (by simp)
    simpa [park, h] using this
  · have := key s rfl (fun _ => rfl) rfl
    simpa [park, h] using this

theorem park_spec (hf : s.Filed) :
    s.park.current = s.current ∧ s.park.state = s.parked ∧ s.park.Filed := by
  cases hcur : s.state s.current with
  | free => simpa [parked, hcur] using park_running hf (.inl hcur)
  | running => simpa [parked, hcur] using park_running hf (.inr hcur)
  | ready => simpa [parked, park, hcur] using hf
  | exited => simpa [parked, park, hcur] using hf
  | blocked => simpa [parked, park, hcur] using hf

theorem parked_of_ne (ht : t ≠ s.current) : s.parked t = s.state t := by
  cases hcur : s.state s.current with
  | ready | exited | blocked => simp only [parked, hcur]
  | free | running => simp only [parked, hcur, Function.update_of_ne ht]

theorem parked_ne_running (hrun : ∀ t, s.state t = .running → t = s.current) (t : Task) :
    s.parked t ≠ .running := by
  intro h
  by_cases ht : t = s.current
  · subst ht
    cases hcur : s.state s.current <;> simp [parked, hcur] at h
  · rw [parked_of_ne ht] at h
    exact ht (hrun t h)

theorem yield_ok (hf : s.Filed) (hcur : s.state s.current ≠ .ready) (h : s.yield = .ok s') :
    (s.parked s'.current = .ready ∧ s'.state = Function.update s.parked s'.current .running ∧
        s'.Filed) ∨
      (s.state s.current = .exited ∧ s' = s ∧ s.NoneReady) := by
  obtain ⟨hpc, hps, hpf⟩ := park_spec hf
  unfold yield at h
  split at h
  · next t k s₁ hpick =>
    obtain rfl := Except.ok.inj h
    obtain ⟨_, hst, hq⟩ := pick_some hpick
    have hready : s.parked t = .ready := by
      have ht := hq t
      rw [hpf t, hps] at ht
      by_contra hne
      simp [hne] at ht
    refine .inl ⟨hready, by rw [setState_state, hst, hps], fun u => ?_⟩
    have hu := hq u
    rw [hpf u, hps] at hu
    show (s₁.setState t .running).queued u = _
    rw [queued_setState, setState_state, hst, hps]
    by_cases he : u = t
    · subst he
      simp only [hready, if_true] at hu
      simp only [Function.update_self, reduceCtorEq, if_false]
      omega
    · simp only [he, if_false, Nat.add_zero] at hu
      rw [Function.update_of_ne he, hu]
  · next hpick =>
    have hnone : ∀ t, s.parked t ≠ .ready := by
      intro t ht
      have hz := pick_none hpick t
      rw [hpf t, hps, if_pos ht] at hz
      omega
    cases hst : s.state s.current with
    | free => exact absurd (by simp [parked, hst]) (hnone s.current)
    | running => exact absurd (by simp [parked, hst]) (hnone s.current)
    | ready => exact absurd hst hcur
    | blocked =>
      rw [hst] at h
      exact absurd h (by simp)
    | exited =>
      rw [hst] at h
      have hpark : s.park = s := by simp [park, hst]
      rw [hpark] at h
      refine .inr ⟨rfl, (Except.ok.inj h).symm, fun t => ?_⟩
      have ht := hnone t
      rwa [parked, hst] at ht

theorem yield_error {code : TrapCode} (h : s.yield = .error code) :
    code = .deadlock ∧ s.state s.current = .blocked := by
  unfold yield at h
  split at h
  · exact absurd h (by simp)
  · cases hst : s.state s.current with
    | blocked =>
      rw [hst] at h
      exact ⟨(Except.error.inj h).symm, rfl⟩
    | free | running | ready | exited =>
      rw [hst] at h
      exact absurd h (by simp)

theorem yield_deadlock (hf : s.Filed) (hcur : s.state s.current = .blocked) (hnone : s.NoneReady) :
    s.yield = .error .deadlock := by
  cases h : s.yield with
  | error code => rw [(yield_error h).1]
  | ok s' =>
    obtain ⟨hready, _⟩ | ⟨hst, _⟩ := yield_ok hf (by simp [hcur]) h
    · rw [parked, hcur] at hready
      exact absurd hready (hnone _)
    · rw [hst] at hcur
      exact absurd hcur (by simp)

theorem spawn_ok (hf : s.Filed) (h : s.spawn = .ok (t, s')) :
    t ≠ 0 ∧ s.state t = .free ∧ s'.current = s.current ∧
      s'.state = Function.update s.state t .ready ∧ s'.Filed := by
  unfold spawn at h
  split at h
  · exact absurd h (by simp)
  · next t' hfind =>
    have hprop := List.find?_some hfind
    simp only [Bool.and_eq_true, decide_eq_true_eq, beq_iff_eq] at hprop
    split at h
    · next s₁ hs₁ =>
      obtain ⟨rfl, rfl⟩ := Prod.mk.inj (Except.ok.inj h)
      obtain ⟨hc, hst, hq⟩ := enqueue_some hs₁
      refine ⟨?_, hprop.2, hc, hst, fun u => ?_⟩
      · rintro rfl
        exact absurd hprop.1 (by decide)
      · rw [hq, queued_setState, hst, setState_state, hf u]
        by_cases hu : u = t'
        · subst hu
          simp [hprop.2]
        · simp [hu]
    · exact absurd h (by simp)

theorem wake_spec (hf : s.Filed) (ht : s.state t ≠ .ready) :
    ∃ s', s.wake t = .ok s' ∧ s'.current = s.current ∧
      s'.state = Function.update s.state t .ready ∧ s'.Filed := by
  have hzero : s.queued t = 0 := by rw [hf t, if_neg ht]
  obtain ⟨r, hr⟩ := offer_global (s := s.setState t .ready) (x := t)
    (fun u => by rw [queued_setState]; exact hf.queued_le_one u)
    (by rw [queued_setState]; exact hzero) t
  refine ⟨{ s.setState t .ready with g := r }, by simp only [wake, hr], rfl, rfl, fun u => ?_⟩
  have hq := (s.setState t .ready).queued_setGlobal r u
  rw [Ring.contents_offer hr, count_append_singleton, queued_setState, hf u] at hq
  show _ = if Function.update s.state t .ready u = .ready then 1 else 0
  by_cases he : u = t
  · subst he
    simp only [Function.update_self, if_true]
    simp only [ht, if_false, if_true] at hq
    omega
  · simp only [Function.update_of_ne he]
    simp only [he, if_false] at hq
    omega

end Scheduler
end Tyu.Tasks

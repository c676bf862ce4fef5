import MinixCv.Lib.Before
import MinixCv.LockManager.Moves

/-!
# The Order Of Waiting

Queues are joined at the tail and served at the head, and removals keep the order of the
others.  For two processes `p` and `q`:

- `not_before_next`, `not_made_owner`: whoever does not stand before `p` in a queue never
  comes to stand there, and does not get the mutex while `p` waits
- `broadcast_order`: of two processes on one condition with one mutex, the first asks first
- `before_waiters_next`, `before_waiters_wait`: the waiters of a condition stand in the
  order of their waits
-/

namespace MinixCv.LockManager.Manager

open MinixCv.Lib MinixCv.Server

variable [Minix] {a : Manager} {r : Request} {out : List Reply} {p q m c : ℤ}

/-! ## §1 Queues -/

/-- Nobody comes to stand before a process that is already in the queue. -/
theorem not_before_next (ha : a.WellFormed) (hr : a.Admits r) (hp : p ∈ a.queue m)
    (h : ¬ Before (a.queue m) q p) : ¬ Before ((a.next r).queue m) q p := by
  intro hbefore
  obtain ⟨l, hsub, hl⟩ := next_queue_sublist ha hr m
  exact h ((hbefore.mono hsub).of_append fun hmem => (hl p hmem).1 hp)

/-- A mutex that `p` waits for goes to nobody who does not stand before `p`. -/
theorem not_made_owner (ha : a.WellFormed) (hrep : a.Replies r out) (hp : p ∈ a.queue m)
    (hpq : p ≠ q) (h : ¬ Before (a.queue m) q p) (hq : ¬ a.Owns q m) :
    ¬ (a.next r).Owns q m := by
  intro hown
  rcases owns_of_next ha hrep hown with hown | ⟨hhead, _⟩ | ⟨hnone, _⟩
  · exact hq hown
  · -- `q` would be the head of the queue, with `p` behind it
    obtain ⟨t, ht⟩ := List.head?_eq_some_iff.mp hhead
    rw [ht] at hp h
    rcases List.mem_cons.mp hp with rfl | hp
    · exact hpq rfl
    · exact h (before_cons hp)
  · -- a free mutex has nobody waiting for it
    rw [queue_of_none hnone] at hp
    simp at hp

/-! ## §2 One broadcast -/

theorem lock_get_of_ne {k : ℤ} (hk : k ≠ m) :
    (a.lock p m).1.mutexes.get k = a.mutexes.get k := by
  obtain ⟨_, h⟩ | ⟨_, _, h⟩ | ⟨_, _, _, _, h⟩ := a.lock_cases p m <;> simp [h, hk]

/-- A free mutex goes to the first of the woken processes that asks for it. -/
theorem wake_first {ws : List (ℤ × ℤ)} (hnone : a.mutexes.get m = none)
    (h : (a.wake ws).1.Owns q m) :
    ∃ ws₁ ws₂, ws = ws₁ ++ (q, m) :: ws₂ ∧ ∀ w ∈ ws₁, w.2 ≠ m := by
  induction ws generalizing a with
  | nil =>
    obtain ⟨l, hl⟩ := h
    simp [wake, hnone] at hl
  | cons w ws ih =>
    obtain ⟨x, k⟩ := w
    by_cases hk : k = m
    · subst hk
      -- the mutex is free when `x` asks, so `x` has it for the rest of the loop
      have hx : (a.lock x k).1.Owns x k := lock_owns_iff.mpr (Or.inr ⟨rfl, rfl, hnone⟩)
      have hwake : (((a.lock x k).1.wake ws).1).Owns x k := wake_owns hx
      have hxq : x = q := hwake.unique h
      exact ⟨[], ws, by simp [hxq], by simp⟩
    · obtain ⟨ws₁, ws₂, rfl, hws₁⟩ := ih (a := (a.lock x k).1)
        (by rw [lock_get_of_ne (Ne.symm hk), hnone]) h
      refine ⟨(x, k) :: ws₁, ws₂, rfl, ?_⟩
      simpa [hk] using hws₁

/-- **Order of one broadcast**: of two processes registered with the same mutex, the first
asks first.  The second is queued; the first has the mutex or stands before it. -/
theorem broadcast_order (ha : a.WellFormed) (h : Before (a.waiters c) (p, m) (q, m)) :
    ¬ (a.broadcast c).1.Owns q m ∧ q ∈ (a.broadcast c).1.queue m ∧
      ((a.broadcast c).1.Owns p m ∨ Before ((a.broadcast c).1.queue m) p q) := by
  have hwf := broadcast_wellFormed ha c
  have hnodup : ((a.waiters c).map (·.1)).Nodup := ha.exclusive.nodup (.inr c)
  have hp : (p, m) ∈ a.waiters c := h.subset (by simp)
  have hq : (q, m) ∈ a.waiters c := h.subset (by simp)
  have hnot : ¬ (a.broadcast c).1.Owns q m := by
    intro hown
    rcases owns_of_wake (a := a.forget c) hown with hold | ⟨_, hnone⟩
    · exact ha.waiter_not_owner hq hold
    · -- `q` would be the first to ask for `m`, but `p` asks before it
      obtain ⟨ws₁, ws₂, hws, hws₁⟩ := wake_first (a := a.forget c) hnone hown
      rw [hws] at h hnodup
      have hback : (p, m) ∉ ws₁ := fun hmem => hws₁ _ hmem rfl
      have hqp : Before (ws₁ ++ (q, m) :: ws₂) (q, m) (p, m) := by
        have hpmem : (p, m) ∈ ws₂ := by
          have hpws : (p, m) ∈ ws₁ ++ (q, m) :: ws₂ := h.subset (by simp)
          have hne : (p, m) ≠ (q, m) := h.ne hnodup.of_map
          simpa [hback, hne] using hpws
        exact (before_cons hpmem).mono (List.sublist_append_right _ _)
      exact h.asymm hnodup.of_map hqp
  have hqueue : q ∈ (a.broadcast c).1.queue m := by
    rcases wake_result (a := a.forget c) hq with ⟨hown, _⟩ | hqueue
    · exact absurd hown hnot
    · exact hqueue
  refine ⟨hnot, hqueue, ?_⟩
  rcases wake_result (a := a.forget c) hp with ⟨hown, _⟩ | hpqueue
  · exact Or.inl hown
  · -- both have been queued, in the order in which they were woken
    right
    obtain ⟨l, hl, hsub⟩ := wake_queue (a := a.forget c) (a.waiters c) m
    -- being on the condition, they were in no queue before the broadcast
    have hin : ∀ x, (x, m) ∈ a.waiters c → x ∈ (a.broadcast c).1.queue m → x ∈ l := by
      intro x hx hxq
      rw [broadcast_eq, hl] at hxq
      rcases List.mem_append.mp hxq with hxq | hxq
      · have hplace := ha.exclusive.eq_of_mem (i := .inl m) (j := .inr c) hxq
          (List.mem_map.mpr ⟨(x, m), hx, rfl⟩)
        simp at hplace
      · exact hxq
    have hwoken : Before (((a.waiters c).filter (·.2 == m)).map (·.1)) p q :=
      h.filter_map (by simp) (by simp)
    have hwnodup : (((a.waiters c).filter (·.2 == m)).map (·.1)).Nodup :=
      hnodup.sublist (List.filter_sublist.map _)
    have hlpq : Before l p q := hwoken.of_sublist hwnodup hsub (hin p hp hpqueue) (hin q hq hqueue)
    rw [broadcast_eq, hl]
    exact hlpq.mono (List.sublist_append_right _ _)

/-! ## §3 Waiters of one condition -/

/-- The order of two registrations stays while both stay. -/
theorem before_waiters_next {k : ℤ} (h : Before (a.waiters c) (p, m) (q, k))
    (hb : ∀ b, r ≠ .broadcast b c) (hp : r ≠ .interrupt p ∧ r ≠ .exit p)
    (hq : r ≠ .interrupt q ∧ r ≠ .exit q) : Before ((a.next r).waiters c) (p, m) (q, k) := by
  cases r with
  | lock x y => simpa [next, lock_waiters] using h
  | unlock x y => simpa [next, unlock_waiters] using h
  | wait x d y =>
    simp only [next]
    by_cases ho : a.Owns x y
    · -- a new registration goes to the end
      rw [wait_waiters ho]
      split_ifs with hd
      · exact hd ▸ h.mono (List.sublist_append_left _ _)
      · exact h
    · rwa [wait_of_not_owns ho]
  | broadcast b d =>
    have hd : c ≠ d := fun hd => hb b (by rw [hd])
    simpa [next, broadcast_waiters, hd] using h
  | interrupt x =>
    -- somebody else leaves, and the order of the rest stays
    simp only [ne_eq, Request.interrupt.injEq] at hp hq
    simp only [next]
    rw [remove_waiters]
    exact h.eraseP (by simpa using Ne.symm hp.1) (by simpa using Ne.symm hq.1)
  | exit x =>
    simp only [ne_eq, Request.exit.injEq] at hp hq
    simp only [next]
    rw [exit_waiters]
    exact h.eraseP (by simpa using Ne.symm hp.2) (by simpa using Ne.symm hq.2)
  | bad x => exact h

/-- Whoever waits now is registered behind everybody registered before. -/
theorem before_waiters_wait {k : ℤ} (h : (p, m) ∈ a.waiters c) (ho : a.Owns q k) :
    Before ((a.next (.wait q c k)).waiters c) (p, m) (q, k) := by
  simp only [next, wait_waiters ho, if_true]
  exact before_append h (by simp)

end MinixCv.LockManager.Manager

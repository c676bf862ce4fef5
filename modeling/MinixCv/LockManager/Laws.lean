import MinixCv.LockManager.Basic

/-!
# How The Operations Move Owners And Waiters

For every operation of the lock manager: who owns what afterwards, what became of each
queue, and what became of each list of waiters.  Later proofs read an operation through
these lemmas and do not unfold it.
-/

namespace MinixCv.LockManager.Manager

open MinixCv.Lib MinixCv.Server

variable [Minix] {a : Manager}

/-! ## §1 `lock` -/

theorem lock_of_none {p m : ℤ} (hm : a.mutexes.get m = none) :
    a.lock p m = (⟨a.mutexes.set m (some (p, [])), a.conditions⟩, some OK) := by
  simp [lock, hm]

theorem lock_owns_iff {p m q k : ℤ} :
    (a.lock p m).1.Owns q k ↔ a.Owns q k ∨ (q = p ∧ k = m ∧ a.mutexes.get m = none) := by
  obtain ⟨hm, h⟩ | ⟨_, hm, h⟩ | ⟨o, q', hm, _, h⟩ := a.lock_cases p m
  · by_cases hk : k = m
    · subst hk
      simp [h, Owns, hm, eq_comm]
    · simp [h, Owns, hk]
  · simp [h, hm]
  · by_cases hk : k = m
    · subst hk
      simp [h, Owns, hm]
    · simp [h, Owns, hk]

/-- `lock` leaves every queue alone, or puts its caller at the tail of one. -/
theorem lock_queue (p m k : ℤ) :
    (a.lock p m).1.queue k = a.queue k ∨
      (k = m ∧ ¬ a.Owns p m ∧ a.mutexes.get m ≠ none ∧ (a.lock p m).1.queue k = a.queue k ++ [p]) := by
  obtain ⟨hm, h⟩ | ⟨_, hm, h⟩ | ⟨o, q', hm, ho, h⟩ := a.lock_cases p m
  · left
    by_cases hk : k = m
    · subst hk
      simp [h, queue, hm]
    · simp [h, queue, hk]
  · simp [h]
  · by_cases hk : k = m
    · subst hk
      exact Or.inr ⟨rfl, by simp [Owns, hm, ho], by simp [hm], by simp [h, queue, hm]⟩
    · simp [h, queue, hk]

theorem lock_queue_of_ne {p m k : ℤ} (hk : k ≠ m) : (a.lock p m).1.queue k = a.queue k := by
  rcases a.lock_queue p m k with h | ⟨rfl, _⟩
  · exact h
  · exact absurd rfl hk

/-- After `lock` its caller owns the mutex and is answered, or stands in its queue. -/
theorem lock_result (p m : ℤ) :
    ((a.lock p m).1.Owns p m ∧ (a.lock p m).2.isSome) ∨
      (p ∈ (a.lock p m).1.queue m ∧ (a.lock p m).2 = none) := by
  obtain ⟨hm, h⟩ | ⟨_, hm, h⟩ | ⟨o, q', hm, ho, h⟩ := a.lock_cases p m
  · simp [h, Owns]
  · simp [h, Owns, hm]
  · simp [h, queue]

theorem lock_waiters (p m c : ℤ) : (a.lock p m).1.waiters c = a.waiters c := by
  simp [waiters]

theorem lock_bound {p m k : ℤ} (h : a.mutexes.get k ≠ none) :
    (a.lock p m).1.mutexes.get k ≠ none := by
  obtain ⟨hm, h'⟩ | ⟨_, hm, h'⟩ | ⟨o, q', hm, ho, h'⟩ := a.lock_cases p m
  · by_cases hk : k = m
    · simp [h', hk]
    · simpa [h', hk] using h
  · simpa [h'] using h
  · by_cases hk : k = m
    · simp [h', hk]
    · simpa [h', hk] using h

/-! ## §2 `unlock` -/

/-- `unlock` changes nothing, or its caller loses `m` to the first in the queue, if any. -/
theorem unlock_queue (p m k : ℤ) :
    (a.unlock p m).1.queue k = a.queue k ∨
      (k = m ∧ ∃ h, a.queue k = h :: (a.unlock p m).1.queue k ∧ (a.unlock p m).1.Owns h k ∧
        (a.unlock p m).2.1 = [⟨0, h⟩]) := by
  -- refused, freed, or handed to the first in the queue
  obtain ⟨_, h⟩ | ⟨hm, h⟩ | ⟨x, t, hm, h⟩ := a.unlock_cases p m
  · simp [h]
  · left
    by_cases hk : k = m
    · subst hk
      simp [h, queue, hm]
    · simp [h, queue, hk]
  · by_cases hk : k = m
    · subst hk
      exact Or.inr ⟨rfl, x, by simp [h, queue, hm], by simp [h, Owns], by simp [h]⟩
    · left
      simp [h, queue, hk]

theorem unlock_owns_of_ne {p m q k : ℤ} (hq : q ≠ p) (h : a.Owns q k) :
    (a.unlock p m).1.Owns q k := by
  obtain ⟨x, hx⟩ := h
  obtain ⟨_, h⟩ | ⟨hm, h⟩ | ⟨_, t, hm, h⟩ := a.unlock_cases p m
  · exact ⟨x, by simpa [h] using hx⟩
  all_goals
    have hk : k ≠ m := by
      intro heq
      subst heq
      rw [hm] at hx
      simp only [Option.some.injEq, Prod.mk.injEq] at hx
      exact hq hx.1.symm
    exact ⟨x, by simpa [h, hk] using hx⟩

theorem unlock_owns_of_number_ne {p m q k : ℤ} (hk : k ≠ m) :
    (a.unlock p m).1.Owns q k ↔ a.Owns q k := by
  obtain ⟨_, h⟩ | ⟨hm, h⟩ | ⟨_, t, hm, h⟩ := a.unlock_cases p m <;> simp [h, Owns, hk]

/-- Whoever owns a mutex after `unlock` owned it before, or was first in its queue. -/
theorem owns_of_unlock {p m q k : ℤ} (h : (a.unlock p m).1.Owns q k) :
    a.Owns q k ∨ (k = m ∧ a.Owns p m ∧ (a.queue m).head? = some q) := by
  obtain ⟨_, h'⟩ | ⟨hm, h'⟩ | ⟨x, t, hm, h'⟩ := a.unlock_cases p m
  · exact Or.inl (by simpa [h'] using h)
  all_goals
    by_cases hk : k = m
    · subst hk
      simp_all [Owns, queue]
    · left
      simpa [h', Owns, hk] using h

theorem unlock_of_not_owns {p m : ℤ} (h : ¬ a.Owns p m) : a.unlock p m = (a, [], EPERM) := by
  obtain ⟨_, h'⟩ | ⟨hm, _⟩ | ⟨x, t, hm, _⟩ := a.unlock_cases p m
  · exact h'
  all_goals exact absurd ⟨_, hm⟩ h

/-- The owner that unlocks a mutex does not own it afterwards, unless it is first in the
queue of its own mutex. -/
theorem unlock_releases {p m : ℤ} (hq : p ∉ a.queue m) : ¬ (a.unlock p m).1.Owns p m := by
  obtain ⟨hn, h⟩ | ⟨hm, h⟩ | ⟨x, t, hm, h⟩ := a.unlock_cases p m
  · simpa [h] using hn
  · simp [h, Owns]
  · -- the new owner comes out of the queue, and the old one is not in it
    rw [queue_of_get hm] at hq
    simp only [h, Owns, PartialMap.set_get_self]
    intro hex
    obtain ⟨q, hpq⟩ := hex
    simp only [Option.some.injEq, Prod.mk.injEq] at hpq
    exact hq (by simp [hpq.1])

theorem unlock_waiters (p m c : ℤ) : (a.unlock p m).1.waiters c = a.waiters c := by
  simp [waiters]

omit [Minix] in
theorem register_mutexes (p c m : ℤ) : (a.register p c m).mutexes = a.mutexes := rfl

omit [Minix] in
theorem register_waiters (p c m k : ℤ) :
    (a.register p c m).waiters k = if k = c then a.waiters c ++ [(p, m)] else a.waiters k := by
  by_cases hk : k = c <;> simp [register, waiters, hk]

theorem wait_of_owns {p c m : ℤ} (h : a.Owns p m) :
    a.wait p c m = ((a.unlock p m).1.register p c m, (a.unlock p m).2.1) := by
  simp [wait, h]

theorem wait_waiters {p c m : ℤ} (h : a.Owns p m) (k : ℤ) :
    (a.wait p c m).1.waiters k = if k = c then a.waiters c ++ [(p, m)] else a.waiters k := by
  rw [wait_of_owns h, register_waiters, unlock_waiters, unlock_waiters]

theorem wait_of_not_owns {p c m : ℤ} (h : ¬ a.Owns p m) : a.wait p c m = (a, [⟨-EINVAL, p⟩]) := by
  simp [wait, h]

theorem unlock_bound {p m k : ℤ} (h : (a.unlock p m).1.mutexes.get k ≠ none) :
    a.mutexes.get k ≠ none := by
  intro hnone
  obtain ⟨_, h'⟩ | ⟨hm, h'⟩ | ⟨x, t, hm, h'⟩ := a.unlock_cases p m
  · simp [h', hnone] at h
  all_goals
    by_cases hk : k = m
    · subst hk
      simp [hm] at hnone
    · simp [h', hk, hnone] at h

/-- A wait reserves no mutex. -/
theorem wait_count_le (p c m : ℤ) : (a.wait p c m).1.mutexes.count ≤ a.mutexes.count := by
  by_cases ho : a.Owns p m
  · rw [wait_of_owns ho, register_mutexes]
    exact PartialMap.count_le_of_dom fun _ => unlock_bound
  · rw [wait_of_not_owns ho]

/-! ## §3 `wake` and `broadcast` -/

theorem wake_owns {ws : List (ℤ × ℤ)} {q k : ℤ} (h : a.Owns q k) : (a.wake ws).1.Owns q k := by
  induction ws generalizing a with
  | nil => exact h
  | cons w ws ih => exact ih (lock_owns_iff.mpr (Or.inl h))

theorem owns_of_wake {ws : List (ℤ × ℤ)} {q k : ℤ} (h : (a.wake ws).1.Owns q k) :
    a.Owns q k ∨ ((q, k) ∈ ws ∧ a.mutexes.get k = none) := by
  induction ws generalizing a with
  | nil => exact Or.inl h
  | cons w ws ih =>
    obtain ⟨p, m⟩ := w
    rcases ih h with h | ⟨hmem, hnone⟩
    · rcases lock_owns_iff.mp h with h | ⟨rfl, rfl, hnone⟩
      · exact Or.inl h
      · exact Or.inr ⟨by simp, hnone⟩
    · -- no lock frees a mutex, so one that is free later was free before
      refine Or.inr ⟨List.mem_cons_of_mem _ hmem, ?_⟩
      by_contra hbound
      exact lock_bound hbound hnone

/-- Waking only appends to queues, and appends only woken processes. -/
theorem wake_queue (ws : List (ℤ × ℤ)) (k : ℤ) :
    ∃ l, (a.wake ws).1.queue k = a.queue k ++ l ∧ l.Sublist ((ws.filter (·.2 == k)).map (·.1)) := by
  induction ws generalizing a with
  | nil => exact ⟨[], by simp [wake]⟩
  | cons w ws ih =>
    obtain ⟨p, m⟩ := w
    -- what the later ones append comes behind what the first has appended
    obtain ⟨l, hl, hsub⟩ := ih (a := (a.lock p m).1)
    rcases a.lock_queue p m k with hq | ⟨rfl, _, _, hq⟩
    · refine ⟨l, by rw [wake, hl, hq], hsub.trans ?_⟩
      exact ((List.sublist_cons_self _ _).filter _).map _
    · refine ⟨p :: l, by rw [wake, hl, hq]; simp, ?_⟩
      simpa using hsub

/-- Everybody who is woken owns its mutex and is answered `0`, or stands in its queue. -/
theorem wake_result {ws : List (ℤ × ℤ)} {p m : ℤ} (h : (p, m) ∈ ws) :
    ((a.wake ws).1.Owns p m ∧ ⟨0, p⟩ ∈ (a.wake ws).2) ∨ p ∈ (a.wake ws).1.queue m := by
  induction ws generalizing a with
  | nil => simp at h
  | cons w ws ih =>
    rcases List.mem_cons.mp h with rfl | hmem
    · rcases a.lock_result p m with ⟨hown, hsome⟩ | ⟨hq, _⟩
      · exact Or.inl ⟨wake_owns (a := (a.lock p m).1) hown, by simp [wake, hsome]⟩
      · right
        -- the ones woken later stand behind it
        obtain ⟨l, hl, _⟩ := wake_queue (a := (a.lock p m).1) ws m
        rw [wake, hl]
        exact List.mem_append_left _ hq
    · obtain ⟨p', m'⟩ := w
      rcases ih (a := (a.lock p' m').1) hmem with ⟨hown, hout⟩ | hq
      · exact Or.inl ⟨hown, List.mem_append_right _ hout⟩
      · exact Or.inr hq

theorem mem_wake_replies {ws : List (ℤ × ℤ)} {r : Reply} (h : r ∈ (a.wake ws).2) :
    r.typ = 0 ∧ r.dokad ∈ ws.map (·.1) := by
  induction ws generalizing a with
  | nil => simp [wake] at h
  | cons w ws ih =>
    obtain ⟨p, m⟩ := w
    rw [wake] at h
    rcases List.mem_append.mp h with h | h
    · split_ifs at h with hs
      · simp only [List.mem_singleton] at h
        subst h
        simp
      · simp at h
    · obtain ⟨h₁, h₂⟩ := ih h
      exact ⟨h₁, List.mem_cons_of_mem _ h₂⟩

theorem broadcast_waiters (c k : ℤ) :
    (a.broadcast c).1.waiters k = if k = c then [] else a.waiters k := by
  by_cases hk : k = c <;> simp [broadcast, waiters, hk]

/-! ## §4 `remove` and `exit` -/

section Removal

omit [Minix]

theorem dropWaiter_getD (p : ℤ) (l : List (ℤ × ℤ)) :
    (dropWaiter p l).getD [] = l.eraseP fun w => w.1 == p := by
  unfold dropWaiter
  by_cases h : l.eraseP (fun w => w.1 == p) = [] <;> simp [h]

theorem remove_queue (p k : ℤ) : (a.remove p).queue k = (a.queue k).erase p := by
  cases h : a.mutexes.get k with
  | none => simp [remove, queue, h]
  | some x =>
    obtain ⟨o, q⟩ := x
    simp [remove, queue, h]

theorem remove_owns_iff {p q k : ℤ} : (a.remove p).Owns q k ↔ a.Owns q k := by
  cases h : a.mutexes.get k with
  | none => simp [remove, Owns, h]
  | some x =>
    obtain ⟨o, q'⟩ := x
    simp [remove, Owns, h]

theorem remove_waiters (p k : ℤ) :
    (a.remove p).waiters k = (a.waiters k).eraseP fun w => w.1 == p := by
  cases h : a.conditions.get k with
  | none => simp [remove, waiters, h]
  | some l =>
    rw [waiters_of_get h, ← dropWaiter_getD]
    simp [remove, waiters, h]

theorem exit_waiters (p k : ℤ) :
    (a.exit p).waiters k = (a.waiters k).eraseP fun w => w.1 == p :=
  remove_waiters p k

theorem exit_queue (p k : ℤ) :
    ((a.exit p).queue k = (a.queue k).erase p ∧ ¬ a.Owns p k) ∨
      ((a.exit p).queue k = (a.queue k).tail.erase p ∧ a.Owns p k) := by
  cases h : a.mutexes.get k with
  | none => simp [exit, queue, Owns, h]
  | some x =>
    obtain ⟨o, q⟩ := x
    by_cases ho : o = p
    · cases q <;> simp [exit, exitMutex, queue, Owns, h, ho]
    · simp [exit, exitMutex, queue, Owns, h, ho]

theorem exit_owns_iff {p q k : ℤ} :
    (a.exit p).Owns q k ↔
      (a.Owns q k ∧ q ≠ p) ∨ (a.Owns p k ∧ (a.queue k).head? = some q) := by
  cases h : a.mutexes.get k with
  | none => simp [exit, queue, Owns, h]
  | some x =>
    obtain ⟨o, l⟩ := x
    by_cases ho : o = p
    · subst ho
      -- the mutex of the dead process goes to the first in its queue, if there is one
      cases l with
      | nil => simp [exit, exitMutex, queue, Owns, h]; grind
      | cons y t => simp [exit, exitMutex, queue, Owns, h]; grind
    · simp [exit, exitMutex, queue, Owns, h, ho]
      grind

end Removal

end MinixCv.LockManager.Manager

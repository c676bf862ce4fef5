import MinixCv.LockManager.Moves

/-!
# Broadcast And Exit In Closed Form

`wake` and `exit` are defined by what happens step by step.  Here is what has happened to
each mutex in the end:

- `wake_get`: of the woken processes that want a mutex, the first gets it if it was free,
  and the others stand behind its queue in the order in which they were woken
- `wake_replies`: answered are those that own their mutex in the end, in this order
- `exit_get`: a mutex of the dead process is freed or handed on, any other queue loses the
  dead process
-/

namespace MinixCv.LockManager.Manager

open MinixCv.Lib MinixCv.Server

variable {a : Manager}

/-! ## §1 Waking -/

/-- The processes of `ws` that want mutex `m`, in order. -/
def wanting (ws : List (ℤ × ℤ)) (m : ℤ) : List ℤ := (ws.filter (·.2 == m)).map (·.1)

/-- The entry of a mutex after the processes `l`, none of them its owner, have asked for it
    one after the other. -/
def askedBy (l : List ℤ) : Option (ℤ × List ℤ) → Option (ℤ × List ℤ)
  | none =>
    match l with
    | [] => none
    | h :: t => some (h, t)
  | some (o, q) => some (o, q ++ l)

/-- Asking one after the other: the first one, then the rest. -/
private theorem askedBy_cons (p : ℤ) (l : List ℤ) (x : Option (ℤ × List ℤ)) :
    askedBy (p :: l) x = askedBy l (askedBy [p] x) := by
  cases x with
  | none => rfl
  | some x =>
    obtain ⟨o, q⟩ := x
    simp [askedBy]

/-- What the woken processes must be for the closed form: different, and owners of none of the
    mutexes they want. -/
structure Wakeable (a : Manager) (ws : List (ℤ × ℤ)) : Prop where
  nodup : (ws.map (·.1)).Nodup
  not_owner : ∀ w ∈ ws, ¬ a.Owns w.1 w.2

/-- The waiters of a condition are such processes. -/
theorem WellFormed.wakeable (ha : a.WellFormed) (c : ℤ) : (a.forget c).Wakeable (a.waiters c) where
  nodup := ha.exclusive.nodup (.inr c)
  not_owner _ hw := ha.waiter_not_owner (m := _) hw

variable [Minix]

theorem Wakeable.lock {p m : ℤ} {ws : List (ℤ × ℤ)} (h : a.Wakeable ((p, m) :: ws)) :
    (a.lock p m).1.Wakeable ws := by
  have hnodup := h.nodup
  rw [List.map_cons, List.nodup_cons] at hnodup
  refine ⟨hnodup.2, fun w hw hown => ?_⟩
  rcases lock_owns_iff.mp hown with hold | ⟨hp, -, -⟩
  · exact h.not_owner w (List.mem_cons_of_mem _ hw) hold
  · -- the new owner is not woken a second time
    exact hnodup.1 (hp ▸ List.mem_map.mpr ⟨w, hw, rfl⟩)

/-- `lock` by somebody who is not the owner, read at one mutex. -/
theorem lock_get {p m : ℤ} (hp : ¬ a.Owns p m) (k : ℤ) :
    (a.lock p m).1.mutexes.get k =
      if m = k then askedBy [p] (a.mutexes.get k) else a.mutexes.get k := by
  obtain ⟨hm, h⟩ | ⟨q, hm, h⟩ | ⟨o, q, hm, -, h⟩ := a.lock_cases p m
  · by_cases hk : m = k
    · subst hk
      simp [h, hm, askedBy]
    · simp [h, hk, Ne.symm hk]
  · exact absurd ⟨q, hm⟩ hp
  · by_cases hk : m = k
    · subst hk
      simp [h, hm, askedBy]
    · simp [h, hk, Ne.symm hk]

/-- **Closed form of `wake`**: every mutex has been asked for by the processes that want it. -/
theorem wake_get {ws : List (ℤ × ℤ)} (h : a.Wakeable ws) (k : ℤ) :
    (a.wake ws).1.mutexes.get k = askedBy (wanting ws k) (a.mutexes.get k) := by
  induction ws generalizing a with
  | nil =>
    cases hk : a.mutexes.get k with
    | none => simp [wake, wanting, askedBy, hk]
    | some x => simp [wake, wanting, askedBy, hk]
  | cons w ws ih =>
    obtain ⟨p, m⟩ := w
    rw [wake, ih h.lock, lock_get (h.not_owner (p, m) (by simp))]
    by_cases hk : m = k
    · have hcons : wanting ((p, m) :: ws) k = p :: wanting ws k := by simp [wanting, hk]
      rw [if_pos hk, hcons, askedBy_cons p (wanting ws k)]
    · have hcons : wanting ((p, m) :: ws) k = wanting ws k := by simp [wanting, hk]
      rw [if_neg hk, hcons]

/-- Nobody that is woken asks for a mutex of its own. -/
theorem wake_never_refuses {ws ws' : List (ℤ × ℤ)} {p m : ℤ}
    (h : a.Wakeable (ws ++ (p, m) :: ws')) : ((a.wake ws).1.lock p m).2 ≠ some EPERM := by
  have hnodup := h.nodup
  rw [List.map_append, List.map_cons] at hnodup
  have hnot : ¬ (a.wake ws).1.Owns p m := by
    intro hown
    rcases owns_of_wake hown with hold | ⟨hmem, -⟩
    · exact h.not_owner (p, m) (by simp) hold
    · have hp : p ∈ ws.map (·.1) := List.mem_map.mpr ⟨(p, m), hmem, rfl⟩
      exact (List.nodup_append.mp hnodup).2.2 p hp p (by simp) rfl
  obtain ⟨-, hl⟩ | ⟨q, hm, -⟩ | ⟨o, q, -, -, hl⟩ := (a.wake ws).1.lock_cases p m
  · simp [hl, OK_ne_EPERM]
  · exact absurd ⟨q, hm⟩ hnot
  · simp [hl]

open Classical in
/-- **Replies of `wake`**: answered are those that own their mutex in the end. -/
theorem wake_replies {ws : List (ℤ × ℤ)} (h : a.Wakeable ws) :
    (a.wake ws).2 =
      (ws.filter fun w => decide ((a.wake ws).1.Owns w.1 w.2)).map fun w => ⟨0, w.1⟩ := by
  induction ws generalizing a with
  | nil => rfl
  | cons w ws ih =>
    obtain ⟨p, m⟩ := w
    have hnodup := h.nodup
    rw [List.map_cons, List.nodup_cons] at hnodup
    -- the first is answered exactly when it has the mutex, and then it keeps it
    have hfirst : (a.lock p m).2.isSome ↔ ((a.lock p m).1.wake ws).1.Owns p m := by
      rcases a.lock_result p m with ⟨hown, hsome⟩ | ⟨hq, hnone⟩
      · exact ⟨fun _ => wake_owns hown, fun _ => hsome⟩
      · refine ⟨fun hs => by simp [hnone] at hs, fun hown => ?_⟩
        rcases owns_of_wake hown with hown | ⟨hmem, -⟩
        · rcases lock_owns_iff.mp hown with hold | ⟨-, -, hfree⟩
          · exact absurd hold (h.not_owner (p, m) (by simp))
          · simp [lock_of_none hfree] at hnone
        · exact absurd (List.mem_map.mpr ⟨(p, m), hmem, rfl⟩) hnodup.1
    rw [wake, ih h.lock]
    by_cases hs : (a.lock p m).2.isSome
    · have hown := hfirst.mp hs
      simp [hs, hown]
    · have hown : ¬ ((a.lock p m).1.wake ws).1.Owns p m := fun h' => hs (hfirst.mpr h')
      simp [hs, hown]

/-! ## §2 Exit -/

omit [Minix] in
/-- **Closed form of `exit`**: a mutex of the dead process is freed or goes to the first in its
queue; any other keeps its owner, and its queue loses the dead process. -/
theorem exit_get (ha : a.WellFormed) (p k : ℤ) :
    (a.mutexes.get k = none → (a.exit p).mutexes.get k = none) ∧
    (a.mutexes.get k = some (p, []) → (a.exit p).mutexes.get k = none) ∧
    (∀ h t, a.mutexes.get k = some (p, h :: t) → (a.exit p).mutexes.get k = some (h, t)) ∧
    (∀ o q, a.mutexes.get k = some (o, q) → o ≠ p →
      (a.exit p).mutexes.get k = some (o, q.erase p)) := by
  refine ⟨fun hk => ?_, fun hk => ?_, fun h t hk => ?_, fun o q hk ho => ?_⟩
  · simp [exit, hk]
  · simp [exit, hk, exitMutex]
  · -- an owner does not stand in the queue of its own mutex
    have hp : p ∉ a.queue k := ha.owner_not_queued ⟨h :: t, hk⟩
    rw [queue_of_get hk, List.mem_cons, not_or] at hp
    simp [exit, hk, exitMutex, List.erase_of_not_mem hp.2]
  · simp [exit, hk, exitMutex, ho]

omit [Minix] in
/-- A condition is left in place exactly when somebody else waits on it. -/
theorem exit_condition (p c : ℤ) :
    (a.exit p).conditions.get c ≠ none ↔ ((a.waiters c).eraseP fun w => w.1 == p) ≠ [] := by
  cases hc : a.conditions.get c with
  | none => simp [exit, waiters, hc]
  | some l =>
    rw [waiters_of_get hc]
    simp [exit, hc, dropWaiter]

/-- The messages of a death: one for each mutex of the dead process that somebody waits for. -/
theorem exit_replies {p : ℤ} {out : List Reply} (h : a.Replies (.exit p) out) (r : Reply) :
    r ∈ out ↔ r.typ = 0 ∧ ∃ k t, a.mutexes.get k = some (p, r.dokad :: t) := by
  obtain ⟨ms, -, hms, rfl⟩ := h
  simp only [List.mem_filterMap, hms, handOver, Option.map_eq_some_iff]
  constructor
  · intro hex
    obtain ⟨k, ⟨q, hk⟩, x, hx, rfl⟩ := hex
    rw [queue_of_get hk] at hx
    obtain ⟨t, rfl⟩ := List.head?_eq_some_iff.mp hx
    exact ⟨rfl, k, t, hk⟩
  · intro hboth
    obtain ⟨htyp, k, t, hk⟩ := hboth
    refine ⟨k, ⟨_, hk⟩, r.dokad, by rw [queue_of_get hk]; rfl, ?_⟩
    rw [← htyp]

end MinixCv.LockManager.Manager

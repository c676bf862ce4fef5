import MinixCv.LockManager.WellFormed

/-!
# What One Request Can Do To One Process

Every step of the lock manager, seen by one process `q`:

- `owns_of_next`: how `q` can come to own a mutex
- `next_owns`: how `q` can lose one
- `next_queue`, `queue_of_next`: how `q` can leave and enter the queue of a mutex
- `next_waiters`, `waiters_of_next`: how `q` can leave and enter a condition
- `forgets_next`: how the manager can come to know of `q` at all
- `reply_cases`: what a message sent to `q` says
- `sender_cases`, `bystander_cases`: all of this together, for the sender and for others

Whatever is claimed of runs later is read off these.
-/

namespace MinixCv.LockManager.Manager

open MinixCv.Lib MinixCv.Server

variable [Minix] {a : Manager} {r : Request} {out : List Reply} {q m : ℤ}

/-! ## §1 Owning a mutex -/

/-- The requests by which the owner `o` of `m` gives it up. -/
def GivesUp (r : Request) (o m : ℤ) : Prop :=
  r = .unlock o m ∨ (∃ c, r = .wait o c m) ∨ r = .exit o

/-- `r` makes `q` ask for `m`: by its own lock, or woken by a broadcast. -/
def Asks (a : Manager) (r : Request) (q m : ℤ) : Prop :=
  r = .lock q m ∨ ∃ b c, r = .broadcast b c ∧ (q, m) ∈ a.waiters c

private theorem unlock_handOver {p : ℤ} (ho : a.Owns p m) (hq : (a.queue m).head? = some q) :
    (a.unlock p m).2.1 = [⟨0, q⟩] := by
  obtain ⟨hn, _⟩ | ⟨hm, _⟩ | ⟨x, t, hm, h⟩ := a.unlock_cases p m
  · exact absurd ho hn
  · simp [queue_of_get hm] at hq
  · simp only [queue_of_get hm, List.head?_cons, Option.some.injEq] at hq
    simp [h, hq]

/-- Whoever comes to own a mutex was first in its queue when the owner gave it up, or asked
for it when it was free; and it is sent `0`. -/
theorem owns_of_next (ha : a.WellFormed) (hrep : a.Replies r out) (h : (a.next r).Owns q m) :
    a.Owns q m ∨
    ((a.queue m).head? = some q ∧ ⟨0, q⟩ ∈ out ∧ ∃ o, a.Owns o m ∧ GivesUp r o m) ∨
    (a.mutexes.get m = none ∧ a.Asks r q m ∧ ⟨0, q⟩ ∈ out) := by
  cases r with
  | lock p k =>
    rcases lock_owns_iff.mp h with h | ⟨rfl, rfl, hnone⟩
    · exact Or.inl h
    · have hout : out = [⟨OK, q⟩] := by simpa [Replies, lock, hnone] using hrep
      exact Or.inr (Or.inr ⟨hnone, Or.inl rfl, by simp [hout, OK]⟩)
  | unlock p k =>
    rcases owns_of_unlock h with h | ⟨rfl, ho, hhead⟩
    · exact Or.inl h
    · have hmem : ⟨0, q⟩ ∈ out := by simp [show out = _ from hrep, unlock_handOver ho hhead]
      exact Or.inr (Or.inl ⟨hhead, hmem, p, ho, Or.inl rfl⟩)
  | wait p c k =>
    simp only [next] at h
    by_cases ho : a.Owns p k
    · rw [wait_of_owns ho] at h
      rcases owns_of_unlock (q := q) (k := m) h with h | ⟨rfl, ho, hhead⟩
      · exact Or.inl h
      · have hmem : ⟨0, q⟩ ∈ out := by
          simp [show out = _ from hrep, wait_of_owns ho, unlock_handOver ho hhead]
        exact Or.inr (Or.inl ⟨hhead, hmem, p, ho, Or.inr (Or.inl ⟨c, rfl⟩)⟩)
    · rw [wait_of_not_owns ho] at h
      exact Or.inl h
  | broadcast b c =>
    -- a waiter that is woken and owns its mutex afterwards has found it free
    rcases owns_of_wake (a := a.forget c) h with h' | ⟨hmem, hnone⟩
    · exact Or.inl h'
    · refine Or.inr (Or.inr ⟨hnone, Or.inr ⟨b, c, rfl, hmem⟩, ?_⟩)
      have hnot : q ∉ ((a.forget c).wake (a.waiters c)).1.queue m :=
        (broadcast_wellFormed ha c).owner_not_queued h
      rcases wake_result (a := a.forget c) hmem with ⟨_, hout⟩ | hq
      · rw [show out = _ from hrep, broadcast_eq]
        exact List.mem_append_left _ hout
      · exact absurd hq hnot
  | interrupt p => exact Or.inl (remove_owns_iff.mp h)
  | exit p =>
    rcases exit_owns_iff.mp h with ⟨h, _⟩ | ⟨ho, hhead⟩
    · exact Or.inl h
    · -- the heirs of the dead process are sent `0`
      obtain ⟨ms, _, hms, rfl⟩ := hrep
      refine Or.inr (Or.inl ⟨hhead, ?_, p, ho, Or.inr (Or.inr rfl)⟩)
      exact List.mem_filterMap.mpr ⟨m, (hms m).mpr ho, by simp [handOver, hhead]⟩
  | bad p => exact Or.inl h

/-- A mutex is lost only by giving it up. -/
theorem next_owns (h : a.Owns q m) : (a.next r).Owns q m ∨ GivesUp r q m := by
  cases r with
  | lock p k => exact Or.inl (lock_owns_iff.mpr (Or.inl h))
  | unlock p k =>
    by_cases hqp : q = p
    · -- the owner itself asks, for this mutex or for another one
      subst hqp
      by_cases hmk : m = k
      · exact Or.inr (Or.inl (by rw [hmk]))
      · exact Or.inl ((unlock_owns_of_number_ne hmk).mpr h)
    · exact Or.inl (unlock_owns_of_ne hqp h)
  | wait p c k =>
    simp only [next]
    by_cases ho : a.Owns p k
    · rw [wait_of_owns ho]
      by_cases hqp : q = p
      · subst hqp
        by_cases hmk : m = k
        · exact Or.inr (Or.inr (Or.inl ⟨c, by rw [hmk]⟩))
        · exact Or.inl ((unlock_owns_of_number_ne hmk).mpr h)
      · exact Or.inl (unlock_owns_of_ne (m := k) hqp h)
    · rw [wait_of_not_owns ho]
      exact Or.inl h
  | broadcast b c => exact Or.inl (wake_owns (a := a.forget c) h)
  | interrupt p => exact Or.inl (remove_owns_iff.mpr h)
  | exit p =>
    by_cases hqp : q = p
    · exact Or.inr (Or.inr (Or.inr (by rw [hqp])))
    · exact Or.inl (exit_owns_iff.mpr (Or.inl ⟨h, hqp⟩))
  | bad p => exact Or.inl h

/-- Whoever gives up a mutex does not own it afterwards. -/
theorem not_owns_of_givesUp (ha : a.WellFormed) (ho : a.Owns q m) (hg : GivesUp r q m) :
    ¬ (a.next r).Owns q m := by
  -- the owner does not stand in the queue, so it does not inherit from itself
  have hq := ha.owner_not_queued ho
  rcases hg with rfl | ⟨c, rfl⟩ | rfl
  · exact unlock_releases hq
  · simp only [next]
    rw [wait_of_owns ho]
    exact unlock_releases hq
  · intro h
    rcases exit_owns_iff.mp h with ⟨_, hne⟩ | ⟨_, hhead⟩
    · exact hne rfl
    · exact hq (List.mem_of_mem_head? hhead)

/-! ## §2 Waiting for a mutex -/

/-- Somebody in a queue stays there, or gets the mutex and is sent `0`, or is taken out by a
notification about itself. -/
theorem next_queue (hrep : a.Replies r out) (h : q ∈ a.queue m) :
    q ∈ (a.next r).queue m ∨ ((a.next r).Owns q m ∧ ⟨0, q⟩ ∈ out) ∨
      r = .interrupt q ∨ r = .exit q := by
  cases r with
  | lock p k =>
    left
    rcases a.lock_queue p k m with hq | ⟨_, _, _, hq⟩
    · exact hq.symm ▸ h
    · exact hq.symm ▸ List.mem_append_left _ h
  | unlock p k =>
    rcases a.unlock_queue p k m with hq | ⟨_, x, hq, hown, hout⟩
    · exact Or.inl (hq.symm ▸ h)
    · rw [hq] at h
      rcases List.mem_cons.mp h with rfl | h
      · exact Or.inr (Or.inl ⟨hown, by simp [show out = _ from hrep, hout]⟩)
      · exact Or.inl h
  | wait p c k =>
    simp only [next]
    by_cases ho : a.Owns p k
    · have hout' : out = (a.unlock p k).2.1 := by
        rw [show out = _ from hrep, wait_of_owns ho]
      rw [wait_of_owns ho]
      rcases a.unlock_queue p k m with hq | ⟨_, x, hq, hown, hout⟩
      · exact Or.inl (hq.symm ▸ h)
      · rw [hq] at h
        rcases List.mem_cons.mp h with rfl | h
        · exact Or.inr (Or.inl ⟨hown, by simp [hout', hout]⟩)
        · exact Or.inl h
    · rw [wait_of_not_owns ho]
      exact Or.inl h
  | broadcast b c =>
    obtain ⟨l, hl, _⟩ := wake_queue (a := a.forget c) (a.waiters c) m
    exact Or.inl (hl.symm ▸ List.mem_append_left _ h)
  | interrupt p =>
    by_cases hqp : q = p
    · exact Or.inr (Or.inr (Or.inl (by rw [hqp])))
    · left
      simp only [next]
      rw [remove_queue]
      exact (List.mem_erase_of_ne hqp).mpr h
  | exit p =>
    by_cases hqp : q = p
    · exact Or.inr (Or.inr (Or.inr (by rw [hqp])))
    · rcases a.exit_queue p m with ⟨hq, _⟩ | ⟨hq, ho⟩
      · exact Or.inl (hq.symm ▸ (List.mem_erase_of_ne hqp).mpr h)
      · -- the queue of a mutex of the dead process loses its head
        obtain ⟨x, t, hxt⟩ := List.exists_cons_of_ne_nil (List.ne_nil_of_mem h)
        rw [hxt] at h
        rcases List.mem_cons.mp h with rfl | h
        · -- the first in the queue of a mutex of the dead process is its new owner
          have hhead : (a.queue m).head? = some q := by rw [hxt]; rfl
          obtain ⟨ms, _, hms, rfl⟩ := hrep
          refine Or.inr (Or.inl ⟨exit_owns_iff.mpr (Or.inr ⟨ho, hhead⟩), ?_⟩)
          exact List.mem_filterMap.mpr ⟨m, (hms m).mpr ho, by simp [handOver, hhead]⟩
        · left
          simp only [next]
          rw [hq, hxt]
          exact (List.mem_erase_of_ne hqp).mpr h
  | bad p => exact Or.inl h

/-- A queue only loses members and is joined at its tail, by those who ask for the mutex. -/
theorem next_queue_sublist (ha : a.WellFormed) (hr : a.Admits r) (m : ℤ) :
    ∃ l, ((a.next r).queue m).Sublist (a.queue m ++ l) ∧
      ∀ x ∈ l, x ∉ a.queue m ∧ a.Asks r x m := by
  have hself : ∀ l : List ℤ, l.Sublist (l ++ []) := fun l => by simp
  -- only a lock that has to wait and a broadcast let a queue grow
  cases r with
  | lock p k =>
    rcases a.lock_queue p k m with hq | ⟨rfl, _, _, hq⟩
    · exact ⟨[], by simp [next, hq]⟩
    · refine ⟨[p], by simp [next, hq], fun x hx => ?_⟩
      rw [List.mem_singleton] at hx
      subst hx
      exact ⟨fun hmem => hr x rfl (waiting_of_queue hmem), Or.inl rfl⟩
  | unlock p k => exact ⟨[], (unlock_place p k (.inl m)).trans (hself _), by simp⟩
  | wait p c k =>
    refine ⟨[], ?_, by simp⟩
    simp only [next]
    by_cases ho : a.Owns p k
    · rw [wait_of_owns ho]
      exact (unlock_place p k (.inl m)).trans (hself _)
    · rw [wait_of_not_owns ho]
      exact hself _
  | broadcast b c =>
    obtain ⟨l, hl, hsub⟩ := wake_queue (a := a.forget c) (a.waiters c) m
    refine ⟨l, hl.symm ▸ List.Sublist.refl _, fun x hx => ?_⟩
    obtain ⟨⟨y, k⟩, hw, rfl⟩ := List.mem_map.mp (hsub.subset hx)
    simp only [List.mem_filter, beq_iff_eq] at hw
    obtain ⟨hw, rfl⟩ := hw
    refine ⟨fun hmem => ?_, Or.inr ⟨b, c, rfl, hw⟩⟩
    have hplace := ha.exclusive.eq_of_mem (i := .inl k) (j := .inr c) hmem
      (List.mem_map.mpr ⟨(y, k), hw, rfl⟩)
    simp at hplace
  | interrupt p =>
    refine ⟨[], ?_, by simp⟩
    simp only [next, List.append_nil]
    rw [remove_queue]
    exact List.erase_sublist
  | exit p =>
    refine ⟨[], ?_, by simp⟩
    simp only [List.append_nil]
    exact (exit_place p (.inl m)).trans List.erase_sublist
  | bad p => exact ⟨[], hself _, by simp⟩

/-- Whoever enters a queue has asked for the mutex. -/
theorem queue_of_next (ha : a.WellFormed) (hr : a.Admits r) (h : q ∈ (a.next r).queue m) :
    q ∈ a.queue m ∨ a.Asks r q m := by
  obtain ⟨l, hsub, hl⟩ := next_queue_sublist ha hr m
  rcases List.mem_append.mp (hsub.subset h) with h | h
  · exact Or.inl h
  · exact Or.inr (hl q h).2

/-! ## §3 Waiting on a condition -/

variable {c : ℤ}

/-- A registration stays until a broadcast of its condition, which gives the process its
mutex and sends it `0` or puts it in the mutex's queue, or until a notification about the
process. -/
theorem next_waiters (hrep : a.Replies r out) (h : (q, m) ∈ a.waiters c) :
    (q, m) ∈ (a.next r).waiters c ∨
    ((∃ b, r = .broadcast b c) ∧
      (((a.next r).Owns q m ∧ ⟨0, q⟩ ∈ out) ∨ q ∈ (a.next r).queue m)) ∨
    r = .interrupt q ∨ r = .exit q := by
  cases r with
  | lock p k => exact Or.inl (by simpa [next, lock_waiters] using h)
  | unlock p k => exact Or.inl (by simpa [next, unlock_waiters] using h)
  | wait p d k =>
    left
    simp only [next]
    by_cases ho : a.Owns p k
    · rw [wait_waiters ho]
      split_ifs with hc
      · exact hc ▸ List.mem_append_left _ h
      · exact h
    · rwa [wait_of_not_owns ho]
  | broadcast b d =>
    by_cases hdc : c = d
    · subst hdc
      right
      left
      refine ⟨⟨b, rfl⟩, ?_⟩
      -- a woken waiter owns its mutex now, or it queues for it
      rcases wake_result (a := a.forget c) h with ⟨hown, hout⟩ | hq
      · left
        refine ⟨hown, ?_⟩
        rw [show out = _ from hrep, broadcast_eq]
        exact List.mem_append_left _ hout
      · exact Or.inr hq
    · left
      simp only [next, broadcast_waiters, hdc, if_false]
      exact h
  | interrupt p =>
    by_cases hqp : q = p
    · exact Or.inr (Or.inr (Or.inl (by rw [hqp])))
    · left
      simp only [next]
      rw [remove_waiters]
      exact (List.mem_eraseP_of_neg (by simpa using hqp)).mpr h
  | exit p =>
    by_cases hqp : q = p
    · exact Or.inr (Or.inr (Or.inr (by rw [hqp])))
    · left
      simp only [next]
      rw [exit_waiters]
      exact (List.mem_eraseP_of_neg (by simpa using hqp)).mpr h
  | bad p => exact Or.inl h

/-- A registration is made only by an accepted wait. -/
theorem waiters_of_next (h : (q, m) ∈ (a.next r).waiters c) :
    (q, m) ∈ a.waiters c ∨ (r = .wait q c m ∧ a.Owns q m) := by
  cases r with
  | lock p k => exact Or.inl (by simpa [next, lock_waiters] using h)
  | unlock p k => exact Or.inl (by simpa [next, unlock_waiters] using h)
  | wait p d k =>
    simp only [next] at h
    by_cases ho : a.Owns p k
    · rw [wait_waiters ho] at h
      split_ifs at h with hc
      · subst hc
        -- an accepted wait adds its sender and nobody else
        rcases List.mem_append.mp h with h | h
        · exact Or.inl h
        · simp only [List.mem_singleton, Prod.mk.injEq] at h
          obtain ⟨rfl, rfl⟩ := h
          exact Or.inr ⟨rfl, ho⟩
      · exact Or.inl h
    · rw [wait_of_not_owns ho] at h
      exact Or.inl h
  | broadcast b d =>
    simp only [next, broadcast_waiters] at h
    split_ifs at h with hdc
    · simp at h
    · exact Or.inl h
  | interrupt p =>
    simp only [next] at h
    rw [remove_waiters] at h
    exact Or.inl (List.mem_of_mem_eraseP h)
  | exit p =>
    simp only [next] at h
    rw [exit_waiters] at h
    exact Or.inl (List.mem_of_mem_eraseP h)
  | bad p => exact Or.inl h

/-! ## §4 Processes the manager knows nothing of -/

/-- `p` owns nothing and waits for nothing. -/
def Forgets (a : Manager) (p : ℤ) : Prop := (∀ m, ¬ a.Owns p m) ∧ ¬ a.Waiting p

omit [Minix] in
/-- The death of a process wipes it out. -/
theorem exit_forgets (ha : a.WellFormed) (p : ℤ) : (a.exit p).Forgets p := by
  refine ⟨fun m h => ?_, fun h => ((exit_waiting_iff ha).mp h).2.1 rfl⟩
  rcases exit_owns_iff.mp h with ⟨_, hne⟩ | ⟨ho, hhead⟩
  · exact hne rfl
  · exact ha.owner_not_queued ho (List.mem_of_mem_head? hhead)

/-- Only a lock of its own brings a forgotten process back. -/
theorem forgets_next (ha : a.WellFormed) (hr : a.Admits r) (hrep : a.Replies r out) {p : ℤ}
    (h : a.Forgets p) (hlock : ∀ m, r ≠ .lock p m) : (a.next r).Forgets p := by
  -- an unknown process asks by a lock of its own only: it is on no condition
  have hasks : ∀ m, ¬ a.Asks r p m := by
    intro m hcase
    rcases hcase with rfl | ⟨b, c, rfl, hw⟩
    · exact hlock m rfl
    · exact h.2 (waiting_of_waiters hw)
  refine ⟨fun m hown => ?_, fun hwait => ?_⟩
  · rcases owns_of_next ha hrep hown with hown | ⟨hhead, _⟩ | ⟨_, hask, _⟩
    · exact h.1 m hown
    · exact h.2 (waiting_of_queue (List.mem_of_mem_head? hhead))
    · exact hasks m hask
  · rcases waiting_iff.mp hwait with ⟨m, hq⟩ | ⟨c, m, hw⟩
    · rcases queue_of_next ha hr hq with hq | hask
      · exact h.2 (waiting_of_queue hq)
      · exact hasks m hask
    · rcases waiters_of_next hw with hw | ⟨_, hown⟩
      · exact h.2 (waiting_of_waiters hw)
      · exact h.1 m hown

/-- Whoever waits after a request waited before it, or sent it. -/
theorem waiting_of_next (h : (a.next r).Waiting q) : a.Waiting q ∨ r.sender = some q := by
  cases r with
  | lock p k =>
    rcases lock_waiting_iff.mp h with h | ⟨rfl, _⟩
    · exact Or.inl h
    · exact Or.inr rfl
  | unlock p k => exact Or.inl (Listed.mono (unlock_place p k) h)
  | wait p d k =>
    simp only [next] at h
    by_cases ho : a.Owns p k
    · rw [wait_of_owns ho] at h
      rcases register_waiting_iff.mp h with h | rfl
      · exact Or.inl (Listed.mono (unlock_place p k) h)
      · exact Or.inr rfl
    · rw [wait_of_not_owns ho] at h
      exact Or.inl h
  | broadcast p d =>
    left
    rcases waiting_of_wake (a := a.forget d) h with h | h
    · exact Listed.mono (forget_place d) h
    · obtain ⟨w, hw, rfl⟩ := List.mem_map.mp h
      exact waiting_of_waiters hw
  | interrupt p =>
    refine Or.inl (Listed.mono (fun i => ?_) h)
    rw [next, remove_place]
    exact List.erase_sublist
  | exit p => exact Or.inl (Listed.mono (fun i => (exit_place p i).trans List.erase_sublist) h)
  | bad p => exact Or.inl h

/-- Whoever owns a mutex after a request owned it before, or waited, or sent the request. -/
theorem owner_of_next (h : (a.next r).Owns q m) :
    a.Owns q m ∨ a.Waiting q ∨ r.sender = some q := by
  have hhead : ∀ {k}, (a.queue k).head? = some q → a.Waiting q := fun hq =>
    waiting_of_queue (List.mem_of_mem_head? hq)
  cases r with
  | lock p k =>
    rcases lock_owns_iff.mp h with h | ⟨rfl, _⟩
    · exact Or.inl h
    · exact Or.inr (Or.inr rfl)
  | unlock p k =>
    rcases owns_of_unlock h with h | ⟨_, _, hq⟩
    · exact Or.inl h
    · exact Or.inr (Or.inl (hhead hq))
  | wait p d k =>
    simp only [next] at h
    by_cases ho : a.Owns p k
    · rw [wait_of_owns ho] at h
      rcases owns_of_unlock (q := q) (k := m) h with h | ⟨_, _, hq⟩
      · exact Or.inl h
      · exact Or.inr (Or.inl (hhead hq))
    · rw [wait_of_not_owns ho] at h
      exact Or.inl h
  | broadcast p d =>
    rcases owns_of_wake (a := a.forget d) h with h | ⟨hw, _⟩
    · exact Or.inl h
    · exact Or.inr (Or.inl (waiting_of_waiters hw))
  | interrupt p => exact Or.inl (remove_owns_iff.mp h)
  | exit p =>
    rcases exit_owns_iff.mp h with ⟨h, _⟩ | ⟨_, hq⟩
    · exact Or.inl h
    · exact Or.inr (Or.inl (hhead hq))
  | bad p => exact Or.inl h

/-- Whatever others send, a forgotten process stays forgotten.  The state need not be well
formed. -/
theorem Forgets.bystander {p : ℤ} (h : a.Forgets p) (hr : r.sender ≠ some p) :
    (a.next r).Forgets p := by
  refine ⟨fun m hown => ?_, fun hwait => ?_⟩
  · rcases owner_of_next hown with hown | hwait | hs
    · exact h.1 m hown
    · exact h.2 hwait
    · exact hr hs
  · rcases waiting_of_next hwait with hwait | hs
    · exact h.2 hwait
    · exact hr hs

/-- A process that locks is remembered. -/
theorem not_forgets_lock (p m : ℤ) : ¬ (a.next (.lock p m)).Forgets p := by
  intro hboth
  obtain ⟨hown, hwait⟩ := hboth
  rcases a.lock_result p m with ⟨h, _⟩ | ⟨h, _⟩
  · exact hown m h
  · exact hwait (waiting_of_queue h)

/-! ## §5 Messages -/

/-- What the sender `p` of a request is answered when it is answered at once. -/
def Answer (a : Manager) (p : ℤ) : Request → ℤ → Prop
  | .lock _ m, typ => (typ = OK ∧ a.mutexes.get m = none) ∨ (typ = EPERM ∧ a.Owns p m)
  | .unlock _ m, typ => (typ = OK ∧ a.Owns p m) ∨ (typ = EPERM ∧ ¬ a.Owns p m)
  | .wait _ _ m, typ => typ = -EINVAL ∧ ¬ a.Owns p m
  | .broadcast _ _, typ => typ = OK
  | .bad _, typ => typ = EINVAL
  | _, _ => False

/-- `m` is handed to `q`, who was waiting for it or on a condition with it. -/
def Granted (a : Manager) (r : Request) (q m : ℤ) : Prop :=
  (a.next r).Owns q m ∧ (q ∈ a.queue m ∨ ∃ b c, r = .broadcast b c ∧ (q, m) ∈ a.waiters c)

private theorem unlock_reply_cases {p : ℤ} {x : Reply} (hx : x ∈ (a.unlock p m).2.1) :
    x.typ = 0 ∧ x.dokad ∈ a.queue m ∧ (a.unlock p m).1.Owns x.dokad m := by
  obtain ⟨_, h⟩ | ⟨_, h⟩ | ⟨y, t, hm, h⟩ := a.unlock_cases p m
  · simp [h] at hx
  · simp [h] at hx
  · simp only [h, List.mem_singleton] at hx
    subst hx
    exact ⟨rfl, by simp [queue_of_get hm], by simp [h, Owns]⟩

private theorem wake_reply_owns (ha : a.WellFormed) {c : ℤ} {x : Reply} (hx : x ∈ (a.broadcast c).2) :
    x.typ = 0 ∧ ∃ m, (x.dokad, m) ∈ a.waiters c ∧ (a.broadcast c).1.Owns x.dokad m := by
  rw [broadcast_eq] at hx
  obtain ⟨htyp, hmem⟩ := mem_wake_replies hx
  obtain ⟨⟨y, m⟩, hw, rfl⟩ := List.mem_map.mp hmem
  refine ⟨htyp, m, hw, ?_⟩
  have hnodup : ((a.waiters c).map (·.1)).Nodup := ha.exclusive.nodup (.inr c)
  rcases wake_result (a := a.forget c) hw with ⟨hown, _⟩ | hq
  · exact hown
  · -- whoever is answered does not wait afterwards
    have hwait := (wake_waiting_iff (a := a.forget c) hnodup).mp (waiting_of_queue hq)
    rcases hwait with hwait | ⟨_, hno⟩
    · exact absurd (List.mem_map.mpr ⟨_, hw, rfl⟩) ((forget_waiting_iff ha).mp hwait).2
    · exact absurd (List.mem_map.mpr ⟨x, hx, rfl⟩) hno

/-- **Every message sent** hands over a mutex, reports an interruption, or answers the
sender of the request. -/
theorem reply_cases (ha : a.WellFormed) (hrep : a.Replies r out) {x : Reply} (hx : x ∈ out) :
    (x.typ = 0 ∧ ∃ m, a.Granted r x.dokad m) ∨
    (x.typ = EINTR ∧ r = .interrupt x.dokad ∧ a.Waiting x.dokad) ∨
    (r.sender = some x.dokad ∧ a.Answer x.dokad r x.typ) := by
  cases r with
  | lock p k =>
    right
    right
    rw [show out = _ from hrep] at hx
    -- free, owned by the sender itself, or no reply at all
    obtain ⟨hm, h⟩ | ⟨_, hm, h⟩ | ⟨_, _, _, _, h⟩ := a.lock_cases p k
    · simp only [h, Option.map_some, Option.toList_some, List.mem_singleton] at hx
      subst hx
      exact ⟨rfl, Or.inl ⟨rfl, hm⟩⟩
    · simp only [h, Option.map_some, Option.toList_some, List.mem_singleton] at hx
      subst hx
      exact ⟨rfl, Or.inr ⟨rfl, _, hm⟩⟩
    · simp [h] at hx
  | unlock p k =>
    rw [show out = _ from hrep] at hx
    rcases List.mem_append.mp hx with hx | hx
    · -- the reply to the process that gets the mutex
      obtain ⟨htyp, hq, hown⟩ := unlock_reply_cases hx
      exact Or.inl ⟨htyp, k, hown, Or.inl hq⟩
    · rw [List.mem_singleton] at hx
      subst hx
      right
      right
      refine ⟨rfl, ?_⟩
      obtain ⟨hn, h⟩ | ⟨hm, h⟩ | ⟨_, _, hm, h⟩ := a.unlock_cases p k <;> simp only [h]
      · exact Or.inr ⟨rfl, hn⟩
      · exact Or.inl ⟨rfl, _, hm⟩
      · exact Or.inl ⟨rfl, _, hm⟩
  | wait p c k =>
    rw [show out = _ from hrep] at hx
    by_cases ho : a.Owns p k
    · -- the sender waits in silence; only the next owner is answered
      rw [wait_of_owns ho] at hx
      obtain ⟨htyp, hq, hown⟩ := unlock_reply_cases hx
      refine Or.inl ⟨htyp, k, ?_, Or.inl hq⟩
      simp only [next]
      rw [wait_of_owns ho]
      exact hown
    · rw [wait_of_not_owns ho, List.mem_singleton] at hx
      subst hx
      exact Or.inr (Or.inr ⟨rfl, rfl, ho⟩)
  | broadcast b c =>
    rw [show out = _ from hrep] at hx
    rcases List.mem_append.mp hx with hx | hx
    · obtain ⟨htyp, m, hw, hown⟩ := wake_reply_owns ha hx
      exact Or.inl ⟨htyp, m, hown, Or.inr ⟨b, c, rfl, hw⟩⟩
    · rw [List.mem_singleton] at hx
      subst hx
      exact Or.inr (Or.inr ⟨rfl, rfl⟩)
  | interrupt p =>
    rcases hrep with ⟨hw, rfl⟩ | ⟨_, rfl⟩
    · rw [List.mem_singleton] at hx
      subst hx
      exact Or.inr (Or.inl ⟨rfl, rfl, hw⟩)
    · simp at hx
  | exit p =>
    -- each mutex of the dead process is handed over once
    obtain ⟨ms, _, hms, rfl⟩ := hrep
    obtain ⟨k, hk, hhand⟩ := List.mem_filterMap.mp hx
    simp only [handOver, Option.map_eq_some_iff] at hhand
    obtain ⟨y, hhead, rfl⟩ := hhand
    exact Or.inl ⟨rfl, k, exit_owns_iff.mpr (Or.inr ⟨(hms k).mp hk, hhead⟩),
      Or.inl (List.mem_of_mem_head? hhead)⟩
  | bad p =>
    rw [show out = _ from hrep, List.mem_singleton] at hx
    subst hx
    exact Or.inr (Or.inr ⟨rfl, rfl⟩)

/-! ## §6 The sender -/

/-- What the sender of a request owns afterwards. -/
theorem sender_owns_iff (ha : a.WellFormed) (hrep : a.Replies r out) (hq : ¬ a.Waiting q) :
    (a.next r).Owns q m ↔
      (a.Owns q m ∧ ¬ GivesUp r q m) ∨ (a.mutexes.get m = none ∧ r = .lock q m) := by
  constructor
  · intro h
    rcases owns_of_next ha hrep h with ho | ⟨hhead, _⟩ | ⟨hnone, hask, _⟩
    · exact Or.inl ⟨ho, fun hg => not_owns_of_givesUp ha ho hg h⟩
    · exact absurd (waiting_of_queue (List.mem_of_mem_head? hhead)) hq
    · rcases hask with hr | ⟨_, _, _, hw⟩
      · exact Or.inr ⟨hnone, hr⟩
      · exact absurd (waiting_of_waiters hw) hq
  · intro hcase
    rcases hcase with ⟨ho, hg⟩ | ⟨hnone, rfl⟩
    · exact (next_owns ho).resolve_right hg
    · exact lock_owns_iff.mpr (Or.inr ⟨rfl, rfl, hnone⟩)

/-- **What a step does to its sender**: it is answered, or it waits for the mutex it has
asked for, or on the condition. -/
theorem sender_cases (ha : a.WellFormed) (hr : a.Admits r) (hrep : a.Replies r out)
    (hs : r.sender = some q) :
    (∃ typ, ⟨typ, q⟩ ∈ out ∧ a.Answer q r typ ∧ ¬ (a.next r).Waiting q) ∨
    (q ∉ out.map (·.dokad) ∧
      ((∃ m, r = .lock q m ∧ q ∈ (a.next r).queue m) ∨
        ∃ c m, r = .wait q c m ∧ a.Owns q m ∧ (q, m) ∈ (a.next r).waiters c)) := by
  have hq : ¬ a.Waiting q := hr q hs
  have hans := replies_answer ha hr hrep
  by_cases hmem : q ∈ out.map (·.dokad)
  · left
    have hgone : ¬ (a.next r).Waiting q := fun hw => ((hans.waiting_iff q).mp hw).2.1 hmem
    obtain ⟨x, hx, rfl⟩ := List.mem_map.mp hmem
    rcases reply_cases ha hrep hx with ⟨_, m, _, hwant⟩ | ⟨_, _, hw⟩ | ⟨_, hanswer⟩
    · rcases hwant with h | ⟨_, c, _, h⟩
      · exact absurd (waiting_of_queue h) hq
      · exact absurd (waiting_of_waiters h) hq
    · exact absurd hw hq
    · exact ⟨x.typ, hx, hanswer, hgone⟩
  · right
    refine ⟨hmem, ?_⟩
    have hexit : r ≠ .exit q := by
      intro heq
      subst heq
      simp [Request.sender] at hs
    -- unanswered, it waits, and a list can only have got it from this request
    have hw : (a.next r).Waiting q := (hans.waiting_iff q).mpr ⟨Or.inr hs, hmem, hexit⟩
    rcases waiting_iff.mp hw with ⟨m, hm⟩ | ⟨c, m, hm⟩
    · rcases queue_of_next ha hr hm with h | hlock | ⟨_, c, _, h⟩
      · exact absurd (waiting_of_queue h) hq
      · exact Or.inl ⟨m, hlock, hm⟩
      · exact absurd (waiting_of_waiters h) hq
    · rcases waiters_of_next hm with h | ⟨hwait, ho⟩
      · exact absurd (waiting_of_waiters h) hq
      · exact Or.inr ⟨c, m, hwait, ho, hm⟩

/-! ## §7 Bystanders -/

/-- A process that is not the sender and does not die owns afterwards what it owned before,
and what it has been sent `0` for. -/
theorem bystander_owns (ha : a.WellFormed) (hrep : a.Replies r out) (hs : r.sender ≠ some q)
    (he : r ≠ .exit q) (hout : ⟨0, q⟩ ∉ out) : (a.next r).Owns q m ↔ a.Owns q m := by
  constructor
  · intro h
    rcases owns_of_next ha hrep h with h | ⟨_, hmem, _⟩ | ⟨_, _, hmem⟩
    · exact h
    · exact absurd hmem hout
    · exact absurd hmem hout
  · intro h
    rcases next_owns (r := r) h with h | rfl | ⟨c, rfl⟩ | rfl
    · exact h
    · exact absurd rfl hs
    · exact absurd rfl hs
    · exact absurd rfl he

omit [Minix] in
/-- A process waits for one mutex only. -/
theorem WellFormed.wanted_unique (ha : a.WellFormed) {k : ℤ}
    (h : q ∈ a.queue m ∨ ∃ c, (q, m) ∈ a.waiters c) (h' : q ∈ a.queue k ∨ ∃ c, (q, k) ∈ a.waiters c) :
    m = k := by
  have hplace : ∀ {i j}, q ∈ a.place i → q ∈ a.place j → i = j := ha.exclusive.eq_of_mem
  have hmem : ∀ {c n}, (q, n) ∈ a.waiters c → q ∈ a.place (.inr c) := fun h =>
    List.mem_map.mpr ⟨_, h, rfl⟩
  rcases h with h | ⟨c, h⟩ <;> rcases h' with h' | ⟨d, h'⟩
  · simpa using hplace (i := .inl m) (j := .inl k) h h'
  · simpa using hplace (i := .inl m) h (hmem h')
  · simpa using hplace (j := .inl k) (hmem h) h'
  · have hcd : c = d := by simpa using hplace (hmem h) (hmem h')
    subst hcd
    have hnodup : ((a.waiters c).map (·.1)).Nodup := ha.exclusive.nodup (.inr c)
    have heq := List.inj_on_of_nodup_map hnodup h h' rfl
    simpa using heq

omit [Minix] in
/-- Nobody owns the mutex it waits for. -/
theorem WellFormed.wanted_not_owned (ha : a.WellFormed)
    (h : q ∈ a.queue m ∨ ∃ c, (q, m) ∈ a.waiters c) : ¬ a.Owns q m := by
  rcases h with h | ⟨c, h⟩
  · exact fun ho => ha.owner_not_queued ho h
  · exact ha.waiter_not_owner h

/-- **What a step does to a bystander**: nothing but moving it from a condition into the
queue of its mutex; or the mutex it waits for is handed to it; or it is interrupted. -/
theorem bystander_cases (ha : a.WellFormed) (hr : a.Admits r) (hrep : a.Replies r out)
    (hs : r.sender ≠ some q) (he : r ≠ .exit q) :
    (q ∉ out.map (·.dokad) ∧ (∀ m, (a.next r).Owns q m ↔ a.Owns q m) ∧
      (∀ m, q ∈ a.queue m → q ∈ (a.next r).queue m) ∧
      (∀ c m, (q, m) ∈ a.waiters c → (q, m) ∈ (a.next r).waiters c ∨ q ∈ (a.next r).queue m) ∧
      (¬ a.Waiting q → ¬ (a.next r).Waiting q)) ∨
    (⟨0, q⟩ ∈ out ∧ ¬ (a.next r).Waiting q ∧
      ∃ m, (q ∈ a.queue m ∨ ∃ c, (q, m) ∈ a.waiters c) ∧
        ∀ k, (a.next r).Owns q k ↔ a.Owns q k ∨ k = m) ∨
    (⟨EINTR, q⟩ ∈ out ∧ ¬ (a.next r).Waiting q ∧ a.Waiting q ∧
      ∀ m, (a.next r).Owns q m ↔ a.Owns q m) := by
  have hans := replies_answer ha hr hrep
  -- split on whether `q` is sent a message, and then on what it says
  by_cases hq : q ∈ out.map (·.dokad)
  · have hgone : ¬ (a.next r).Waiting q := fun hw => ((hans.waiting_iff q).mp hw).2.1 hq
    obtain ⟨x, hx, rfl⟩ := List.mem_map.mp hq
    rcases reply_cases ha hrep hx with ⟨htyp, m, hown, hwant⟩ | ⟨htyp, hint, hw⟩ | ⟨hsender, _⟩
    · -- the only mutex it can be sent `0` for is the one it waits for
      have hmem : ⟨0, x.dokad⟩ ∈ out := by
        rw [← htyp]
        exact hx
      have hwant' : x.dokad ∈ a.queue m ∨ ∃ c, (x.dokad, m) ∈ a.waiters c := by
        rcases hwant with h | ⟨_, c, _, h⟩
        · exact Or.inl h
        · exact Or.inr ⟨c, h⟩
      refine Or.inr (Or.inl ⟨hmem, hgone, m, hwant', fun k => ⟨fun h => ?_, ?_⟩⟩)
      · rcases owns_of_next ha hrep h with h | ⟨hhead, _⟩ | ⟨_, hask, _⟩
        · exact Or.inl h
        · exact Or.inr (ha.wanted_unique (Or.inl (List.mem_of_mem_head? hhead)) hwant')
        · rcases hask with rfl | ⟨b, c, _, hw⟩
          · exact absurd rfl hs
          · exact Or.inr (ha.wanted_unique (Or.inr ⟨c, hw⟩) hwant')
      · intro hcase
        rcases hcase with h | rfl
        · rcases next_owns (r := r) h with h | rfl | ⟨c, rfl⟩ | rfl
          · exact h
          · exact absurd rfl hs
          · exact absurd rfl hs
          · exact absurd rfl he
        · exact hown
    · subst hint
      refine Or.inr (Or.inr ⟨by rw [← htyp]; exact hx, hgone, hw, fun m => ?_⟩)
      exact remove_owns_iff
    · exact absurd hsender hs
  · left
    have hzero : ⟨0, q⟩ ∉ out := fun h => hq (List.mem_map.mpr ⟨_, h, rfl⟩)
    have hint : a.Waiting q → r ≠ .interrupt q := by
      intro hw heq
      subst heq
      rcases hrep with ⟨_, rfl⟩ | ⟨hn, _⟩
      · simp at hq
      · exact hn hw
    refine ⟨hq, fun m => bystander_owns ha hrep hs he hzero, fun m hm => ?_, fun c m hm => ?_, ?_⟩
    · rcases next_queue hrep hm with h | ⟨_, h⟩ | h | h
      · exact h
      · exact absurd h hzero
      · exact absurd h (hint (waiting_of_queue hm))
      · exact absurd h he
    · rcases next_waiters hrep hm with h | ⟨_, ⟨_, h⟩ | h⟩ | h | h
      · exact Or.inl h
      · exact absurd h hzero
      · exact Or.inr h
      · exact absurd h (hint (waiting_of_waiters hm))
      · exact absurd h he
    · intro hn hw
      rcases ((hans.waiting_iff q).mp hw).1 with h | h
      · exact hn h
      · exact hs h

end MinixCv.LockManager.Manager

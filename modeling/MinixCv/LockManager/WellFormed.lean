import MinixCv.LockManager.Laws

/-!
# Well-Formed Lock Managers

The invariant of the lock manager:

- nobody is listed twice, in one list or in two
- no owner stands in the queue of its own mutex
- every bound condition has a waiter
- nobody waiting on a condition owns the mutex it wants back

`next_wellFormed` proves it of every state reached by requests whose senders are not
waiting.  `replies_answer` is the bookkeeping of replies: every message sent goes to
somebody who waits or has just asked, nobody is sent two, and afterwards exactly the
unanswered ones wait.
-/

namespace MinixCv.LockManager.Manager

open MinixCv.Lib MinixCv.Server

/-- The invariant of the lock manager. -/
structure WellFormed (a : Manager) : Prop where
  exclusive : Exclusive a.place
  owner_not_queued : ∀ {p m}, a.Owns p m → p ∉ a.queue m
  condition_inhabited : ∀ c, a.conditions.get c ≠ some []
  waiter_not_owner : ∀ {p c m}, (p, m) ∈ a.waiters c → ¬ a.Owns p m

/-- Waiting is being in a queue or among the waiters of a condition. -/
theorem waiting_iff {a : Manager} {p : ℤ} :
    a.Waiting p ↔ (∃ m, p ∈ a.queue m) ∨ ∃ c m, (p, m) ∈ a.waiters c := by
  constructor
  · intro hex
    rcases hex with ⟨m | c, h⟩
    · exact Or.inl ⟨m, h⟩
    · obtain ⟨⟨_, m⟩, hmem, rfl⟩ := List.mem_map.mp h
      exact Or.inr ⟨c, m, hmem⟩
  · intro hcase
    rcases hcase with ⟨m, h⟩ | ⟨c, m, h⟩
    · exact ⟨.inl m, h⟩
    · exact ⟨.inr c, List.mem_map.mpr ⟨(p, m), h, rfl⟩⟩

theorem waiting_of_queue {a : Manager} {p m : ℤ} (h : p ∈ a.queue m) : a.Waiting p := ⟨.inl m, h⟩

theorem waiting_of_waiters {a : Manager} {p c m : ℤ} (h : (p, m) ∈ a.waiters c) : a.Waiting p :=
  waiting_iff.mpr (Or.inr ⟨c, m, h⟩)

/-- At the start nobody waits. -/
theorem not_waiting_empty (p : ℤ) : ¬ empty.Waiting p := by
  simp [waiting_iff]

theorem empty_wellFormed : empty.WellFormed where
  exclusive := ⟨by rintro (m | c) <;> simp [place], by rintro (m | c) _ _ h <;> simp [place] at h⟩
  owner_not_queued := by simp [Owns, empty]
  condition_inhabited := by simp [empty]
  waiter_not_owner := by simp

section

variable [Minix] {a : Manager}

/-! ## §1 Who waits after each operation -/

/-- After a lock the caller waits exactly if it was not answered; the others wait as before. -/
theorem lock_waiting_iff {p m q : ℤ} :
    (a.lock p m).1.Waiting q ↔ a.Waiting q ∨ (q = p ∧ (a.lock p m).2 = none) := by
  obtain ⟨hm, h⟩ | ⟨_, hm, h⟩ | ⟨o, q', hm, ho, h⟩ := a.lock_cases p m
  · -- a mutex that was free has no queue, and a new one has none either
    have hq : ∀ k, (a.lock p m).1.queue k = a.queue k := by
      intro k
      by_cases hk : k = m
      · subst hk
        simp [h, queue, hm]
      · exact lock_queue_of_ne hk
    have hr : (a.lock p m).2 = some OK := by rw [h]
    simp [waiting_iff, hq, lock_waiters, hr]
  · simp [h]
  · -- the caller has joined the queue of `m`, the other queues are as before
    have hq : (a.lock p m).1.queue m = a.queue m ++ [p] := by simp [h, queue, hm]
    have hnone : (a.lock p m).2 = none := by simp [h]
    simp only [waiting_iff, lock_waiters, hnone, and_true]
    constructor
    · intro hcase
      rcases hcase with ⟨k, hk⟩ | hc
      · by_cases hkm : k = m
        · subst hkm
          rw [hq, List.mem_append, List.mem_singleton] at hk
          rcases hk with hk | rfl
          · exact Or.inl (Or.inl ⟨k, hk⟩)
          · exact Or.inr rfl
        · rw [lock_queue_of_ne hkm] at hk
          exact Or.inl (Or.inl ⟨k, hk⟩)
      · exact Or.inl (Or.inr hc)
    · intro hcase
      rcases hcase with (⟨k, hk⟩ | hc) | rfl
      · refine Or.inl ⟨k, ?_⟩
        by_cases hkm : k = m
        · subst hkm
          rw [hq]
          exact List.mem_append_left _ hk
        · rwa [lock_queue_of_ne hkm]
      · exact Or.inr hc
      · exact Or.inl ⟨m, by rw [hq]; simp⟩

/-- An unlock puts nobody into a list. -/
theorem unlock_place (p m : ℤ) (i : ℤ ⊕ ℤ) :
    ((a.unlock p m).1.place i).Sublist (a.place i) := by
  cases i with
  | inl k =>
    simp only [place]
    rcases a.unlock_queue p m k with h | ⟨_, _, h, _⟩
    · rw [h]
    · rw [h]
      exact List.sublist_cons_self _ _
  | inr c => simp only [place, unlock_waiters, List.Sublist.refl]

/-- After an unlock the first in the queue, who has the mutex now, waits no longer. -/
theorem unlock_waiting_iff (ha : a.WellFormed) {p m q : ℤ} :
    (a.unlock p m).1.Waiting q ↔ a.Waiting q ∧ q ∉ (a.unlock p m).2.1.map (·.dokad) := by
  obtain ⟨_, h⟩ | ⟨hm, h⟩ | ⟨x, t, hm, h⟩ := a.unlock_cases p m
  · simp [h]
  · -- nobody waited for `m`, so nobody is served
    have hq : ∀ k, (a.unlock p m).1.queue k = a.queue k := by
      intro k
      rcases a.unlock_queue p m k with hk | ⟨_, _, _, _, hout⟩
      · exact hk
      · simp [h] at hout
    have hr : (a.unlock p m).2.1 = [] := by rw [h]
    simp [waiting_iff, hq, unlock_waiters, hr]
  · -- the head `x` of the queue leaves, and it stands nowhere else
    have hqm : a.queue m = x :: t := queue_of_get hm
    have hqm' : (a.unlock p m).1.queue m = t := by simp [h, queue]
    have hx : ¬ (a.unlock p m).1.Waiting x := by
      intro hex
      obtain ⟨i, hi⟩ := hex
      have hi' := (unlock_place p m i).subset hi
      have : i = .inl m := ha.exclusive.eq_of_mem hi' (by simp [place, hqm])
      subst this
      have hnodup := ha.exclusive.nodup (.inl m)
      simp only [place, hqm, List.nodup_cons] at hnodup
      exact hnodup.1 (by simpa [place, hqm'] using hi)
    simp only [h, List.map_cons, List.map_nil, List.mem_singleton]
    rw [show (a.unlock p m).1 = { a with mutexes := a.mutexes.set m (some (x, t)) } by rw [h]] at hx
    constructor
    · intro hw
      refine ⟨?_, fun hqx => hx (hqx ▸ hw)⟩
      have := unlock_place (a := a) p m
      rw [h] at this
      exact Listed.mono this hw
    · intro hex
      obtain ⟨⟨i, hi⟩, hne⟩ := hex
      refine ⟨i, ?_⟩
      cases i with
      | inl k =>
        by_cases hk : k = m
        · subst hk
          simp only [place, hqm, List.mem_cons] at hi
          simpa [place, queue] using hi.resolve_left hne
        · simpa [place, queue, hk] using hi
      | inr c => simpa [place, waiters] using hi

omit [Minix] in
/-- Registering a process makes it wait, and nobody else. -/
theorem register_waiting_iff {p c m q : ℤ} :
    (a.register p c m).Waiting q ↔ a.Waiting q ∨ q = p := by
  have hq : ∀ k, (a.register p c m).queue k = a.queue k := fun _ => rfl
  simp only [waiting_iff, hq, register_waiters]
  constructor
  · -- whoever is registered was so before, or is the new one
    intro hcase
    rcases hcase with h | ⟨c', m', h⟩
    · exact Or.inl (Or.inl h)
    · split_ifs at h with hc
      · rcases List.mem_append.mp h with h | h
        · exact Or.inl (Or.inr ⟨c, m', h⟩)
        · simp only [List.mem_singleton, Prod.mk.injEq] at h
          exact Or.inr h.1
      · exact Or.inl (Or.inr ⟨c', m', h⟩)
  · intro hcase
    rcases hcase with (h | ⟨c', m', h⟩) | rfl
    · exact Or.inl h
    · refine Or.inr ⟨c', m', ?_⟩
      split_ifs with hc
      · subst hc
        exact List.mem_append_left _ h
      · exact h
    · exact Or.inr ⟨c, m, by simp⟩

/-- Of the processes that ask in turn, those that are not answered wait afterwards. -/
theorem wake_waiting_iff {ws : List (ℤ × ℤ)} (hws : (ws.map (·.1)).Nodup) {q : ℤ} :
    (a.wake ws).1.Waiting q ↔
      a.Waiting q ∨ (q ∈ ws.map (·.1) ∧ q ∉ (a.wake ws).2.map (·.dokad)) := by
  induction ws generalizing a with
  | nil => simp [wake]
  | cons w ws ih =>
    obtain ⟨p, m⟩ := w
    simp only [List.map_cons, List.nodup_cons] at hws
    -- nobody is woken twice, so the first is not answered again by the rest
    have hout : p ∉ ((a.lock p m).1.wake ws).2.map (·.dokad) := by
      intro hp
      obtain ⟨r, hr, rfl⟩ := List.mem_map.mp hp
      exact hws.1 (mem_wake_replies hr).2
    rw [wake, ih hws.2, lock_waiting_iff]
    cases hl : (a.lock p m).2 with
    | none => simp; grind
    | some r => simp; grind

/-- Whoever waits after a wake-up waited before it, or was woken. -/
theorem waiting_of_wake {ws : List (ℤ × ℤ)} {q : ℤ} (h : (a.wake ws).1.Waiting q) :
    a.Waiting q ∨ q ∈ ws.map (·.1) := by
  induction ws generalizing a with
  | nil => exact Or.inl h
  | cons w ws ih =>
    obtain ⟨p, m⟩ := w
    rcases ih h with h | h
    · rcases lock_waiting_iff.mp h with h | ⟨rfl, _⟩
      · exact Or.inl h
      · exact Or.inr (by simp)
    · exact Or.inr (by simp [h])

omit [Minix] in
/-- A process that is taken out disappears from every list; the lists are otherwise the same. -/
theorem remove_place (p : ℤ) (i : ℤ ⊕ ℤ) : (a.remove p).place i = (a.place i).erase p := by
  cases i with
  | inl k => exact remove_queue p k
  | inr c =>
    simp only [place]
    rw [remove_waiters, List.erase_eq_eraseP', List.eraseP_map]
    rfl

omit [Minix] in
/-- Once a process has been taken out it does not wait; the others wait as before. -/
theorem remove_waiting_iff (ha : a.WellFormed) {p q : ℤ} :
    (a.remove p).Waiting q ↔ a.Waiting q ∧ q ≠ p := by
  -- `p` stands at most once in each list, so `erase` takes it out entirely
  have hmem : ∀ i, q ∈ (a.remove p).place i ↔ q ≠ p ∧ q ∈ a.place i := by
    intro i
    rw [remove_place, (ha.exclusive.nodup i).mem_erase_iff]
  simp only [Waiting, Listed, hmem]
  grind

omit [Minix] in
/-- A death puts nobody into a list, and takes the dead process out of all of them. -/
theorem exit_place (p : ℤ) (i : ℤ ⊕ ℤ) : ((a.exit p).place i).Sublist ((a.place i).erase p) := by
  cases i with
  | inl k =>
    simp only [place]
    rcases a.exit_queue p k with ⟨h, _⟩ | ⟨h, _⟩
    · rw [h]
    · rw [h]
      exact (List.tail_sublist _).erase p
  | inr c =>
    rw [← remove_place]
    exact List.Sublist.refl _

omit [Minix] in
/-- After the death of `p` the others still wait, except those who got a mutex of `p`. -/
theorem exit_waiting_iff (ha : a.WellFormed) {p q : ℤ} :
    (a.exit p).Waiting q ↔
      a.Waiting q ∧ q ≠ p ∧ ∀ m, a.Owns p m → (a.queue m).head? ≠ some q := by
  constructor
  · intro hex
    obtain ⟨i, hi⟩ := hex
    have hi' := (exit_place p i).subset hi
    rw [(ha.exclusive.nodup i).mem_erase_iff] at hi'
    refine ⟨⟨i, hi'.2⟩, hi'.1, ?_⟩
    intro m hown hhead
    have hq : q ∈ a.place (.inl m) := List.mem_of_mem_head? hhead
    have : i = .inl m := ha.exclusive.eq_of_mem hi'.2 hq
    subst this
    -- `q` was the head of a queue without repetition, so the tail does not hold it
    rcases a.exit_queue p m with ⟨_, hn⟩ | ⟨h, _⟩
    · exact hn hown
    · simp only [place] at hi
      rw [h] at hi
      have htail := List.mem_of_mem_erase hi
      have hnodup := ha.exclusive.nodup (.inl m)
      simp only [place] at hnodup
      cases hqm : a.queue m with
      | nil => simp [hqm] at hhead
      | cons x t =>
        simp only [hqm, List.head?_cons, Option.some.injEq, List.tail_cons] at hhead htail
        subst hhead
        rw [hqm] at hnodup
        exact (List.nodup_cons.mp hnodup).1 htail
  · intro hex
    obtain ⟨⟨i, hi⟩, hne, hhead⟩ := hex
    refine ⟨i, ?_⟩
    cases i with
    | inl m =>
      simp only [place] at hi ⊢
      rcases a.exit_queue p m with ⟨h, _⟩ | ⟨h, hown⟩
      · rw [h]
        exact (List.mem_erase_of_ne hne).mpr hi
      · rw [h]
        -- only the head of the queue has been served, and that is not `q`
        apply (List.mem_erase_of_ne hne).mpr
        have := hhead m hown
        cases hqm : a.queue m with
        | nil => simp [hqm] at hi
        | cons x t =>
          rw [hqm] at hi this
          rcases List.mem_cons.mp hi with rfl | ht
          · simp at this
          · exact ht
    | inr c =>
      have := remove_place (a := a) p (.inr c)
      simp only [place] at this hi ⊢
      rw [exit_waiters, ← remove_waiters, this]
      exact (List.mem_erase_of_ne hne).mpr hi

/-! ## §2 Every operation keeps the invariant -/

/-- A lock by a process that waits nowhere puts it into one list at most. -/
theorem lock_wellFormed (ha : a.WellFormed) {p m : ℤ} (hp : ¬ a.Waiting p) :
    (a.lock p m).1.WellFormed where
  exclusive := by
    rcases a.lock_queue p m m with hq | ⟨_, _, _, hq⟩
    · refine ha.exclusive.mono fun i => ?_
      cases i with
      | inl k =>
        by_cases hk : k = m
        · subst hk
          simp [place, hq]
        · simp [place, lock_queue_of_ne hk]
      | inr c => simp [place, lock_waiters]
    · -- the caller joins one queue, and it was in no list before
      refine ha.exclusive.append hp (i := .inl m) hq fun j hj => ?_
      cases j with
      | inl k => exact lock_queue_of_ne fun hk => hj (by rw [hk])
      | inr c => simp [place, lock_waiters]
  owner_not_queued := by
    intro q k hown
    rcases lock_owns_iff.mp hown with h | ⟨rfl, rfl, hnone⟩
    · rcases a.lock_queue p m k with hq | ⟨rfl, hno, _, hq⟩
      · rw [hq]
        exact ha.owner_not_queued h
      · rw [hq, List.mem_append, List.mem_singleton]
        intro hcase
        rcases hcase with hmem | rfl
        · exact ha.owner_not_queued h hmem
        · exact hno h
    · -- the owner of a mutex that was free finds an empty queue
      rcases a.lock_queue q k k with hq | ⟨_, _, hsome, _⟩
      · rw [hq, queue_of_none hnone]
        simp
      · exact absurd hnone hsome
  condition_inhabited := by
    intro c
    simpa using ha.condition_inhabited c
  waiter_not_owner := by
    intro q c k hw hown
    rw [lock_waiters] at hw
    rcases lock_owns_iff.mp hown with h | ⟨rfl, _, _⟩
    · exact ha.waiter_not_owner hw h
    · exact hp (waiting_of_waiters hw)

omit [Minix] in
/-- The first in a queue is not registered on a condition. -/
theorem WellFormed.head_not_waiter (ha : a.WellFormed) {q m c k : ℤ} (hq : (a.queue m).head? = some q) :
    (q, k) ∉ a.waiters c := by
  intro hw
  have hqueue : q ∈ a.place (.inl m) := List.mem_of_mem_head? hq
  have hcond : q ∈ a.place (.inr c) := List.mem_map.mpr ⟨(q, k), hw, rfl⟩
  simpa using ha.exclusive.eq_of_mem hqueue hcond

omit [Minix] in
/-- Nobody is in a queue twice. -/
theorem WellFormed.queue_nodup (ha : a.WellFormed) (m : ℤ) : (a.queue m).Nodup :=
  ha.exclusive.nodup (.inl m)

/-- An unlock hands the mutex to somebody who is then in no list. -/
theorem unlock_wellFormed (ha : a.WellFormed) (p m : ℤ) : (a.unlock p m).1.WellFormed where
  exclusive := ha.exclusive.mono (unlock_place p m)
  owner_not_queued := by
    intro q k hown hmem
    have hmem' := (unlock_place p m (.inl k)).subset hmem
    rcases owns_of_unlock hown with h | ⟨rfl, howner, hhead⟩
    · exact ha.owner_not_queued h hmem'
    · -- the new owner was the head of a queue without repetition
      obtain ⟨hn, _⟩ | ⟨hm, _⟩ | ⟨x, t, hm, h⟩ := a.unlock_cases p k
      · exact hn howner
      · simp [queue_of_get hm] at hhead
      · have hnodup := ha.queue_nodup k
        rw [queue_of_get hm, List.nodup_cons] at hnodup
        rw [queue_of_get hm, List.head?_cons, Option.some.injEq] at hhead
        subst hhead
        exact hnodup.1 (by simpa [h, queue] using hmem)
  condition_inhabited := by
    intro c
    simpa using ha.condition_inhabited c
  waiter_not_owner := by
    intro q c k hw hown
    rw [unlock_waiters] at hw
    rcases owns_of_unlock hown with h | ⟨_, _, hhead⟩
    · exact ha.waiter_not_owner hw h
    · exact ha.head_not_waiter hhead hw

omit [Minix] in
/-- Somebody who waits nowhere may be registered on a condition. -/
theorem register_wellFormed (ha : a.WellFormed) {p c m : ℤ} (hp : ¬ a.Waiting p)
    (ho : ¬ a.Owns p m) : (a.register p c m).WellFormed where
  exclusive := by
    -- `p` waits nowhere, so one more entry keeps the places exclusive
    refine ha.exclusive.append hp (i := .inr c) ?_ fun j hj => ?_
    · simp [place, register_waiters]
    · cases j with
      | inl k => rfl
      | inr k =>
        have hk : k ≠ c := fun hk => hj (by rw [hk])
        simp [place, register_waiters, hk]
  owner_not_queued := ha.owner_not_queued
  condition_inhabited := by
    intro k
    by_cases hk : k = c
    · simp [register, hk]
    · simpa [register, hk] using ha.condition_inhabited k
  waiter_not_owner := by
    intro q k n hw hown
    rw [register_waiters] at hw
    split_ifs at hw with hk
    · rcases List.mem_append.mp hw with hw | hw
      · exact ha.waiter_not_owner hw hown
      · simp only [List.mem_singleton, Prod.mk.injEq] at hw
        obtain ⟨rfl, rfl⟩ := hw
        exact ho hown
    · exact ha.waiter_not_owner hw hown

/-- A wait is an unlock and a registration, or a refusal. -/
theorem wait_wellFormed (ha : a.WellFormed) {p c m : ℤ} (hp : ¬ a.Waiting p) :
    (a.wait p c m).1.WellFormed := by
  by_cases ho : a.Owns p m
  · rw [wait_of_owns ho]
    -- the release comes first: the caller registers without the mutex
    apply register_wellFormed (unlock_wellFormed ha p m)
    · exact fun hw => hp (Listed.mono (unlock_place p m) hw)
    · exact unlock_releases fun hq => hp (waiting_of_queue hq)
  · rw [wait_of_not_owns ho]
    exact ha

/-- Different processes that wait nowhere may ask for their mutexes in turn. -/
theorem wake_wellFormed (ha : a.WellFormed) {ws : List (ℤ × ℤ)} (hws : (ws.map (·.1)).Nodup)
    (hfree : ∀ w ∈ ws, ¬ a.Waiting w.1) : (a.wake ws).1.WellFormed := by
  induction ws generalizing a with
  | nil => exact ha
  | cons w ws ih =>
    obtain ⟨p, m⟩ := w
    simp only [List.map_cons, List.nodup_cons] at hws
    apply ih (lock_wellFormed ha (hfree (p, m) (by simp))) hws.2
    -- whoever is still to be woken waits nowhere, and is not the one just served
    intro w hw hwait
    rcases lock_waiting_iff.mp hwait with h | ⟨h, _⟩
    · exact hfree w (List.mem_cons_of_mem _ hw) h
    · exact hws.1 (List.mem_map.mpr ⟨w, hw, h⟩)

/-- The manager in which condition `c` is forgotten, with its waiters. -/
def forget (a : Manager) (c : ℤ) : Manager :=
  { a with conditions := a.conditions.set c none }

/-- A broadcast forgets the condition before its waiters ask for their mutexes. -/
theorem broadcast_eq (c : ℤ) : a.broadcast c = (a.forget c).wake (a.waiters c) := rfl

omit [Minix] in
/-- Only the condition itself loses its waiters. -/
theorem forget_waiters (c k : ℤ) :
    (a.forget c).waiters k = if k = c then [] else a.waiters k := by
  by_cases hk : k = c <;> simp [forget, waiters, hk]

omit [Minix] in
theorem forget_place (c : ℤ) (i : ℤ ⊕ ℤ) : ((a.forget c).place i).Sublist (a.place i) := by
  cases i with
  | inl m => exact List.Sublist.refl _
  | inr k =>
    by_cases hk : k = c
    · simp [place, forget_waiters, hk]
    · simp [place, forget_waiters, hk]

omit [Minix] in
/-- Without one of its conditions the manager is still well formed. -/
theorem forget_wellFormed (ha : a.WellFormed) (c : ℤ) : (a.forget c).WellFormed where
  exclusive := ha.exclusive.mono (forget_place c)
  owner_not_queued := ha.owner_not_queued
  condition_inhabited := by
    intro k
    by_cases hk : k = c
    · simp [forget, hk]
    · simpa [forget, hk] using ha.condition_inhabited k
  waiter_not_owner := by
    intro q k m hw
    rw [forget_waiters] at hw
    split_ifs at hw with hk
    · simp at hw
    · exact ha.waiter_not_owner hw

omit [Minix] in
/-- Exactly the waiters of the condition no longer wait. -/
theorem forget_waiting_iff (ha : a.WellFormed) {c q : ℤ} :
    (a.forget c).Waiting q ↔ a.Waiting q ∧ q ∉ (a.waiters c).map (·.1) := by
  constructor
  · intro hex
    obtain ⟨i, hi⟩ := hex
    have hi' := (forget_place c i).subset hi
    refine ⟨⟨i, hi'⟩, fun hq => ?_⟩
    -- nobody waits in two places, so a waiter of `c` waits nowhere else
    have : i = .inr c := ha.exclusive.eq_of_mem hi' hq
    subst this
    simp [place, forget_waiters] at hi
  · intro hex
    obtain ⟨⟨i, hi⟩, hq⟩ := hex
    refine ⟨i, ?_⟩
    cases i with
    | inl m => exact hi
    | inr k =>
      by_cases hk : k = c
      · subst hk
        exact absurd hi hq
      · simpa [place, forget_waiters, hk] using hi

/-- The waiters of a condition are different and wait nowhere once it is forgotten. -/
theorem broadcast_wellFormed (ha : a.WellFormed) (c : ℤ) : (a.broadcast c).1.WellFormed := by
  rw [broadcast_eq]
  apply wake_wellFormed (forget_wellFormed ha c) (ha.exclusive.nodup (.inr c))
  intro w hw hwait
  exact ((forget_waiting_iff ha).mp hwait).2 (List.mem_map.mpr ⟨w, hw, rfl⟩)

omit [Minix] in
/-- A condition that loses its last waiter is dropped with it. -/
theorem dropWaiter_ne_nil (p : ℤ) (l : List (ℤ × ℤ)) : dropWaiter p l ≠ some [] := by
  unfold dropWaiter
  by_cases h : l.eraseP (fun w => w.1 == p) = [] <;> simp [h]

omit [Minix] in
private theorem filterMapVals_inhabited (p c : ℤ) :
    (a.conditions.filterMapVals (dropWaiter p)).get c ≠ some [] := by
  intro h
  obtain ⟨l, _, hl⟩ := Option.bind_eq_some_iff.mp h
  exact dropWaiter_ne_nil p l hl

omit [Minix] in
/-- A process may be taken out of every list at any time. -/
theorem remove_wellFormed (ha : a.WellFormed) (p : ℤ) : (a.remove p).WellFormed where
  exclusive := ha.exclusive.mono fun i => by
    rw [remove_place]
    exact List.erase_sublist
  owner_not_queued := by
    intro q k hown hmem
    rw [remove_queue] at hmem
    exact ha.owner_not_queued (remove_owns_iff.mp hown) (List.mem_of_mem_erase hmem)
  condition_inhabited := filterMapVals_inhabited p
  waiter_not_owner := by
    intro q c k hw hown
    rw [remove_waiters] at hw
    exact ha.waiter_not_owner (List.mem_of_mem_eraseP hw) (remove_owns_iff.mp hown)

omit [Minix] in
/-- The heirs of a dead process leave their queues when they become owners. -/
theorem exit_wellFormed (ha : a.WellFormed) (p : ℤ) : (a.exit p).WellFormed where
  exclusive := ha.exclusive.mono fun i => (exit_place p i).trans List.erase_sublist
  owner_not_queued := by
    intro q k hown hmem
    -- whoever has inherited a mutex has left its queue
    have hwait : (a.exit p).Waiting q := waiting_of_queue hmem
    rcases exit_owns_iff.mp hown with ⟨h, _⟩ | ⟨h, hhead⟩
    · have hmem' := (exit_place p (.inl k)).subset hmem
      exact ha.owner_not_queued h (List.mem_of_mem_erase hmem')
    · exact ((exit_waiting_iff ha).mp hwait).2.2 k h hhead
  condition_inhabited := filterMapVals_inhabited p
  waiter_not_owner := by
    intro q c k hw hown
    rw [exit_waiters] at hw
    have hw' := List.mem_of_mem_eraseP hw
    rcases exit_owns_iff.mp hown with ⟨h, _⟩ | ⟨_, hhead⟩
    · exact ha.waiter_not_owner hw' h
    · exact ha.head_not_waiter hhead hw'

/-- Whoever sends a request is not waiting. -/
def Admits (a : Manager) (r : Request) : Prop := ∀ p, r.sender = some p → ¬ a.Waiting p

/-- **Invariance**: requests from processes that are not waiting keep the manager
well-formed. -/
theorem next_wellFormed (ha : a.WellFormed) {r : Request} (hr : a.Admits r) :
    (a.next r).WellFormed := by
  cases r with
  | lock p m => exact lock_wellFormed ha (hr p rfl)
  | unlock p m => exact unlock_wellFormed ha p m
  | wait p c m => exact wait_wellFormed ha (hr p rfl)
  | broadcast p c => exact broadcast_wellFormed ha c
  | interrupt p => exact remove_wellFormed ha p
  | exit p => exact exit_wellFormed ha p
  | bad p => exact ha

/-! ## §3 Replies and waiting -/

/-- The bookkeeping of replies: who is answered by `out`, and who waits afterwards. -/
structure Answers (a : Manager) (r : Request) (out : List Reply) : Prop where
  nodup : (out.map (·.dokad)).Nodup
  recipient : ∀ q ∈ out.map (·.dokad), (a.Waiting q ∨ r.sender = some q) ∧ r ≠ .exit q
  waiting_iff : ∀ q, (a.next r).Waiting q ↔
    (a.Waiting q ∨ r.sender = some q) ∧ q ∉ out.map (·.dokad) ∧ r ≠ .exit q

/-- A lock answers nobody but its caller. -/
theorem lock_answers {p m : ℤ} (hp : ¬ a.Waiting p) :
    a.Answers (.lock p m) ((a.lock p m).2.map fun r => ⟨r, p⟩).toList := by
  cases hl : (a.lock p m).2 with
  | none =>
    refine ⟨by simp, by simp, fun q => ?_⟩
    simp [next, lock_waiting_iff, hl, Request.sender, eq_comm]
  | some r =>
    refine ⟨by simp, by simp [Request.sender], fun q => ?_⟩
    simp only [next, lock_waiting_iff, hl, Request.sender]
    simp
    grind

/-- An unlock sends its message to the first in the queue. -/
theorem unlock_replies (p m : ℤ) :
    (a.unlock p m).2.1 = [] ∨ ∃ h, (a.unlock p m).2.1 = [⟨0, h⟩] ∧ a.Waiting h := by
  obtain ⟨_, h⟩ | ⟨_, h⟩ | ⟨x, t, hm, h⟩ := a.unlock_cases p m
  · simp [h]
  · simp [h]
  · exact Or.inr ⟨x, by simp [h], waiting_of_queue (m := m) (by simp [queue_of_get hm])⟩

/-- An unlock answers its caller and the process that gets the mutex. -/
theorem unlock_answers (ha : a.WellFormed) {p m : ℤ} (hp : ¬ a.Waiting p) :
    a.Answers (.unlock p m) ((a.unlock p m).2.1 ++ [⟨(a.unlock p m).2.2, p⟩]) := by
  have hw := fun q => unlock_waiting_iff ha (p := p) (m := m) (q := q)
  rcases unlock_replies (a := a) p m with h | ⟨x, h, hx⟩
  · refine ⟨by simp [h], by simp [h, Request.sender], fun q => ?_⟩
    simp only [next, hw, h, Request.sender]
    simp
    grind
  · have hxp : x ≠ p := fun e => hp (e ▸ hx)
    refine ⟨by simp [h, hxp], by simp [h, Request.sender, hx], fun q => ?_⟩
    simp only [next, hw, h, Request.sender]
    simp
    grind

/-- A wait answers the process that gets the mutex, or its caller when it is refused. -/
theorem wait_answers (ha : a.WellFormed) {p c m : ℤ} (hp : ¬ a.Waiting p) :
    a.Answers (.wait p c m) (a.wait p c m).2 := by
  by_cases ho : a.Owns p m
  · have hw := fun q => unlock_waiting_iff ha (p := p) (m := m) (q := q)
    rcases unlock_replies (a := a) p m with h | ⟨x, h, hx⟩
    · refine ⟨by simp [wait_of_owns ho, h], by simp [wait_of_owns ho, h], fun q => ?_⟩
      simp only [next, wait_of_owns ho, register_waiting_iff, hw, h, Request.sender]
      simp [eq_comm]
    · -- the next owner was waiting, the sender was not
      have hxp : x ≠ p := fun e => hp (e ▸ hx)
      refine ⟨by simp [wait_of_owns ho, h], by simp [wait_of_owns ho, h, hx], fun q => ?_⟩
      simp only [next, wait_of_owns ho, register_waiting_iff, hw, h, Request.sender]
      simp
      grind
  · refine ⟨by simp [wait_of_not_owns ho], by simp [wait_of_not_owns ho, Request.sender],
      fun q => ?_⟩
    simp only [next, wait_of_not_owns ho, Request.sender]
    simp
    grind

/-- Every message of a wake-up goes to one of those who are woken, in their order. -/
theorem wake_replies_sublist (ws : List (ℤ × ℤ)) :
    ((a.wake ws).2.map (·.dokad)).Sublist (ws.map (·.1)) := by
  induction ws generalizing a with
  | nil => simp [wake]
  | cons w ws ih =>
    obtain ⟨p, m⟩ := w
    rw [wake, List.map_append]
    split_ifs with h
    · exact (ih (a := (a.lock p m).1)).cons_cons p
    · exact (ih (a := (a.lock p m).1)).cons p

/-- A broadcast answers its caller and those it wakes whose mutex is free. -/
theorem broadcast_answers (ha : a.WellFormed) {p c : ℤ} (hp : ¬ a.Waiting p) :
    a.Answers (.broadcast p c) ((a.broadcast c).2 ++ [⟨OK, p⟩]) := by
  have hnodup : ((a.waiters c).map (·.1)).Nodup := ha.exclusive.nodup (.inr c)
  have hsub := wake_replies_sublist (a := a.forget c) (a.waiters c)
  have hwaiting : ∀ q ∈ (a.waiters c).map (·.1), a.Waiting q := fun q hq => ⟨.inr c, hq⟩
  -- the sender of the broadcast waits nowhere, so it is not among the woken
  have hpo : p ∉ ((a.forget c).wake (a.waiters c)).2.map (·.dokad) :=
    fun h => hp (hwaiting p (hsub.subset h))
  refine ⟨?_, ?_, fun q => ?_⟩
  · rw [broadcast_eq, List.map_append, List.nodup_append]
    refine ⟨hnodup.sublist hsub, by simp, ?_⟩
    intro q hq _ hp' heq
    subst heq
    simp only [List.map_cons, List.map_nil, List.mem_singleton] at hp'
    exact hpo (hp' ▸ hq)
  · intro q hq
    rw [broadcast_eq, List.map_append, List.mem_append] at hq
    refine ⟨?_, by simp⟩
    rcases hq with hq | hq
    · exact Or.inl (hwaiting q (hsub.subset hq))
    · simp only [List.map_cons, List.map_nil, List.mem_singleton] at hq
      exact Or.inr (by simp [Request.sender, hq])
  · simp only [next]
    rw [broadcast_eq, wake_waiting_iff hnodup, forget_waiting_iff ha, List.map_append,
      List.mem_append]
    simp only [Request.sender, List.map_cons, List.map_nil, List.mem_singleton]
    have hin := hwaiting q
    have hout := fun h => hsub.subset (a := q) h
    grind

omit [Minix] in
/-- The messages of an exit go to the first in the queue of each mutex. -/
theorem mem_handOvers {ms : List ℤ} :
    (ms.filterMap a.handOver).map (·.dokad) = ms.filterMap fun m => (a.queue m).head? := by
  rw [List.map_filterMap]
  congr 1
  funext m
  cases h : (a.queue m).head? <;> simp [handOver, h]

/-- The heirs of a dead process are different, and all of them waited. -/
theorem exit_answers (ha : a.WellFormed) {p : ℤ} {ms : List ℤ} (hnodup : ms.Nodup)
    (hms : ∀ m, m ∈ ms ↔ a.Owns p m) : a.Answers (.exit p) (ms.filterMap a.handOver) := by
  have hmem : ∀ q, q ∈ (ms.filterMap a.handOver).map (·.dokad) ↔
      ∃ m, a.Owns p m ∧ (a.queue m).head? = some q := by
    intro q
    rw [mem_handOvers, List.mem_filterMap]
    simp only [hms]
  refine ⟨?_, ?_, ?_⟩
  · rw [mem_handOvers]
    -- two mutexes have different heads, since nobody waits for two
    apply hnodup.filterMap
    intro m m' q hq hq'
    have h := ha.exclusive.eq_of_mem (i := .inl m) (j := .inl m')
      (List.mem_of_mem_head? hq) (List.mem_of_mem_head? hq')
    simpa using h
  · intro q hq
    obtain ⟨m, hown, hhead⟩ := (hmem q).mp hq
    have hqueue : q ∈ a.queue m := List.mem_of_mem_head? hhead
    refine ⟨Or.inl (waiting_of_queue hqueue), ?_⟩
    intro he
    simp only [Request.exit.injEq] at he
    -- the dead process stands in no queue of a mutex of its own
    subst he
    exact ha.owner_not_queued hown hqueue
  · intro q
    rw [hmem]
    simp only [next, exit_waiting_iff ha, Request.sender, Request.exit.injEq, ne_eq]
    grind

/-- **Bookkeeping of replies**: every message goes to somebody who waits or has just
asked and is not being buried, nobody is sent two, and afterwards exactly the unanswered
ones wait. -/
theorem replies_answer (ha : a.WellFormed) {r : Request} (hr : a.Admits r) {out : List Reply}
    (hout : a.Replies r out) : a.Answers r out := by
  cases r with
  | lock p m => exact hout ▸ lock_answers (hr p rfl)
  | unlock p m => exact hout ▸ unlock_answers ha (hr p rfl)
  | wait p c m => exact hout ▸ wait_answers ha (hr p rfl)
  | broadcast p c => exact hout ▸ broadcast_answers ha (hr p rfl)
  | interrupt p =>
    rcases hout with ⟨hw, rfl⟩ | ⟨hw, rfl⟩
    · refine ⟨by simp, by simp [hw], fun q => ?_⟩
      simp [next, remove_waiting_iff ha, Request.sender]
    · refine ⟨by simp, by simp, fun q => ?_⟩
      simp only [next, remove_waiting_iff ha, Request.sender]
      simp
      grind
  | exit p =>
    obtain ⟨ms, hnodup, hms, rfl⟩ := hout
    exact exit_answers ha hnodup hms
  | bad p =>
    have hp := hr p rfl
    refine ⟨by simp [show out = _ from hout], by simp [show out = _ from hout, Request.sender],
      fun q => ?_⟩
    simp only [next, show out = _ from hout, Request.sender]
    simp
    grind

end

end MinixCv.LockManager.Manager

import MinixCv.Server.Runs

/-!
# Staying Inside The Tables

No handler checks the slot index it writes at.

- `mutex_slot_in_range_iff`: the mutex table is written inside its bounds exactly as long
  as no more mutexes are reserved at once than it has slots
- `condition_slot_in_range`: the condition table has room for every accepted wait as long
  as no more processes than it has slots have a request outstanding.  Every used
  condition has a waiter and nobody waits twice, so there are never more used conditions
  than waiting processes.
-/

namespace MinixCv.Server

open MinixCv.Lib MinixCv.LockManager

/-! ## §1 The mutex table -/

section MutexTable

variable [Minix] {s s' : ServerState} {l : Message × List Reply}

/-- One message is handled inside the tables, whoever sent it, whatever that process still
    waits for, and whatever the sentinels hold. -/
def Handles (s : ServerState) (l : Message × List Reply) (s' : ServerState) : Prop :=
  obsluz s l.1 = .ok (s', l.2)

theorem Handles.tableInv (hs : TableInv s) (h : Handles s l s') : TableInv s' :=
  obsluz_tableInv hs h

/-- The tables of every state reached, with any messages from anybody, satisfy the invariant. -/
theorem tableInv_of_handles {start koniec : Fin MAX_MUTEX → ℤ}
    {ls : List (Message × List Reply)} (h : Run Handles (initial start koniec) ls s) :
    TableInv s :=
  h.invariant (fun _ _ _ hs hstep => hstep.tableInv hs) (initial_tableInv start koniec)

theorem Run.toHandles {c c' : Config} {ls : List (Message × List Reply)} (h : Run Step c ls c') :
    Run Handles c.server ls c'.server := by
  induction h with
  | nil c => exact .nil _
  | cons hstep _ ih => exact .cons hstep.handled ih

/-- The only slot of `M` outside the table that is ever written is the first one behind it,
and it is written exactly when one slot too many is needed. -/
theorem obsluz_mutexSlot_iff (hs : TableInv s) (m : Message) (i : ℕ) :
    obsluz s m = .error (.mutexSlot i) ↔
      i = MAX_MUTEX ∧ MAX_MUTEX < ((abs s).next m.request).mutexes.count := by
  by_cases hfits : Fits ((abs s).next m.request)
  · -- there is room for the state after the message
    obtain ⟨x, hok⟩ := (obsluz_ok_iff hs).mpr hfits
    simp [hok, hfits.mutexes]
  · -- what does not fit is no notification, so the sentinels play no part
    have hblind : m.Blind s := by
      rcases m.notice_or_blind s with ⟨p, hr⟩ | ⟨p, hr⟩ | hblind
      · rw [hr] at hfits
        exact absurd (hs.fits.remove p) hfits
      · rw [hr] at hfits
        exact absurd (hs.fits.exit p) hfits
      · exact hblind
    rcases obsluz_spec hs hblind with ⟨s', out, hok, hhandled⟩ | ⟨f, herr, hover⟩
    · exact absurd (hhandled.abs_eq ▸ hhandled.tableInv.fits) hfits
    · cases f with
      | mutexSlot j =>
        have hlt : MAX_MUTEX < ((abs s).next m.request).mutexes.count := hover.2
        simp [herr, hover.1, hlt, eq_comm]
      | cvSlot j => simp [herr, hover.2.2]
      | waiter j size => simp [herr, hover.2.2]

/-- **The mutex table stays in range exactly as long as it is large enough**: after any run on
any messages, from anybody and with anything in the sentinels, `cs_lock` writes inside the
table, for a lock request and for the waiters that a broadcast wakes, if and only if the
message being handled leaves no more mutexes reserved than the table has slots. -/
theorem mutex_slot_in_range_iff {start koniec : Fin MAX_MUTEX → ℤ}
    {ls : List (Message × List Reply)} (h : Run Handles (initial start koniec) ls s)
    (m : Message) :
    (∀ i, obsluz s m ≠ .error (.mutexSlot i)) ↔
      ((abs s).next m.request).mutexes.count ≤ MAX_MUTEX := by
  have hs := tableInv_of_handles h
  simp only [ne_eq, obsluz_mutexSlot_iff hs m, not_and, forall_eq, not_lt]

/-- A process can reserve the mutexes `0, …, n - 1`, one after the other. -/
theorem shows_locks {n : ℕ} (hn : n ≤ MAX_MUTEX) (p : ℤ) :
    ∃ c a, Shows ((List.range n).map fun k : ℕ => (⟨p, CS_LOCK, k, 0⟩, [⟨OK, p⟩])) c a ∧
      a.mutexes.get (n : ℤ) = none ∧ a.mutexes.count = n := by
  -- along the way: nobody waits, and only numbers below `n` are reserved
  have key : ∃ c a, Shows ((List.range n).map fun k : ℕ => (⟨p, CS_LOCK, k, 0⟩, [⟨OK, p⟩])) c a ∧
      (∀ m, a.mutexes.get m ≠ none → m < n) ∧ a.mutexes.count = n ∧ ∀ q, ¬ a.Waiting q := by
    induction n with
    | zero =>
      refine ⟨_, _, shows_initial, ?_, ?_, Manager.not_waiting_empty⟩ <;> simp [Manager.empty]
    | succ n ih =>
      obtain ⟨c, a, hshows, hdom, hcount, hfree⟩ := ih (Nat.le_of_succ_le hn)
      have hnone : a.mutexes.get (n : ℤ) = none := by
        by_contra hbound
        exact lt_irrefl _ (hdom n hbound)
      obtain ⟨c', -, hshows'⟩ := hshows.lock_free (hfree p) hnone (hcount ▸ hn)
      refine ⟨c', ⟨a.mutexes.set n (some (p, [])), a.conditions⟩, ?_, ?_, ?_, ?_⟩
      · rw [List.range_succ, List.map_append]
        exact hshows'
      · intro m hm
        by_cases hmn : m = n
        · omega
        · have := hdom m (by simpa [hmn] using hm)
          omega
      · rw [PartialMap.count_set_fresh hnone, hcount]
      · intro q hq
        have hiff := Manager.lock_waiting_iff (a := a) (p := p) (m := n) (q := q)
        rw [Manager.lock_of_none hnone] at hiff
        simpa [hfree q] using hiff.mp hq
  obtain ⟨c, a, hshows, hdom, hcount, -⟩ := key
  refine ⟨c, a, hshows, ?_, hcount⟩
  by_contra hbound
  exact lt_irrefl _ (hdom n hbound)

end MutexTable

/-- One process locks the mutexes `0, …, 1023`; its next lock is written at slot 1024. -/
theorem mutex_slot_out_of_range :
    letI := Minix.v321
    ∃ s, Run Handles (initial (fun _ => 0) (fun _ => 0))
        ((List.range 1024).map fun k : ℕ => (⟨1, CS_LOCK, k, 0⟩, [⟨OK, 1⟩])) s ∧
      obsluz s ⟨1, CS_LOCK, 1024, 0⟩ = .error (.mutexSlot 1024) := by
  let _ := Minix.v321
  obtain ⟨c, a, hshows, hnone, hcount⟩ := shows_locks (n := 1024) le_rfl 1
  refine ⟨c.server, Run.toHandles hshows.run, ?_⟩
  rw [obsluz_mutexSlot_iff hshows.reachable.inv.tables, request_lock, hshows.abs_eq, Manager.next]
  have hnone' : a.mutexes.get 1024 = none := hnone
  simp only [Manager.lock_of_none hnone', PartialMap.count_set_fresh hnone', hcount, MAX_MUTEX]
  exact ⟨trivial, by omega⟩

/-- The lock of the last free slot is still written inside the table. -/
theorem mutex_slot_in_range_last :
    letI := Minix.v321
    ∃ s, Run Handles (initial (fun _ => 0) (fun _ => 0))
        ((List.range 1023).map fun k : ℕ => (⟨1, CS_LOCK, k, 0⟩, [⟨OK, 1⟩])) s ∧
      ∀ i, obsluz s ⟨1, CS_LOCK, 1023, 0⟩ ≠ .error (.mutexSlot i) := by
  let _ := Minix.v321
  obtain ⟨c, a, hshows, hnone, hcount⟩ := shows_locks (n := 1023) (by decide) 1
  have hnone' : a.mutexes.get 1023 = none := hnone
  refine ⟨c.server, Run.toHandles hshows.run,
    (mutex_slot_in_range_iff (Run.toHandles hshows.run) _).mpr ?_⟩
  rw [request_lock, hshows.abs_eq, Manager.next]
  simp only [Manager.lock_of_none hnone', PartialMap.count_set_fresh hnone', hcount, MAX_MUTEX]
  omega

/-! ## §2 The condition table -/

section ConditionTable

/-- **Counting conditions**: every bound condition has a waiter and nobody waits twice, so
there are at most as many conditions, and waiters of one condition, as waiting processes. -/
theorem conditions_le_waiting {a : Manager} (ha : a.WellFormed) {F : Finset ℤ}
    (hF : ∀ p, a.Waiting p → p ∈ F) :
    a.conditions.count ≤ F.card ∧ ∀ c, (a.waiters c).length ≤ F.card := by
  have hexcl : Exclusive fun c => (a.waiters c).map (·.1) :=
    ⟨fun c => ha.exclusive.nodup (.inr c), fun hi hj => by
      simpa using ha.exclusive.eq_of_mem (i := .inr _) (j := .inr _) hi hj⟩
  have hmem : ∀ c, ∀ p ∈ (a.waiters c).map (·.1), p ∈ F := fun c p hp => hF p ⟨.inr c, hp⟩
  constructor
  · -- count a condition as one of its waiters; nobody is counted for two conditions
    let dom := a.conditions.finite_dom.toFinset
    calc a.conditions.count = dom.card := Set.ncard_eq_toFinset_card _ a.conditions.finite_dom
      _ = ∑ c ∈ dom, 1 := by simp
      _ ≤ ∑ c ∈ dom, ((a.waiters c).map (·.1)).length := by
        apply Finset.sum_le_sum
        intro c hc
        have hbound : a.conditions.get c ≠ none := by simpa [dom] using hc
        obtain ⟨l, hl⟩ := Option.ne_none_iff_exists'.mp hbound
        have hne : l ≠ [] := fun h => ha.condition_inhabited c (h ▸ hl)
        rw [List.length_map, Manager.waiters_of_get hl]
        exact List.length_pos_of_ne_nil hne
      _ ≤ F.card := hexcl.sum_length_le dom fun c _ => hmem c
  · intro c
    have := hexcl.sum_length_le {c} fun c _ => hmem c
    simpa using this

/-- Tables in which at most 511 processes wait have room for one more waiter on any condition. -/
theorem condition_room {s : ServerState} (hs : TableInv s) (ha : (abs s).WellFormed)
    {F : Finset ℤ} (hF : ∀ p, (abs s).Waiting p → p ∈ F) (hcard : F.card ≤ 511) (numerCv : ℤ) :
    (indeksUzywanegoCv s numerCv = none → wolnyCv s < MAX_CV) ∧
      (∀ i, indeksUzywanegoCv s numerCv = some i → (s.CV i).size < 512) ∧
      (∀ i, (s.CV i).uzywany = true → 1 ≤ (s.CV i).size ∧ (s.CV i).size ≤ 511) ∧
      Exclusive (fun i => listIn s (.inr i)) := by
  obtain ⟨hcount, hlength⟩ := conditions_le_waiting ha hF
  -- the waiters of one condition variable are all different, and all in `F`
  have hsize : ∀ i, (s.CV i).uzywany = true → (s.CV i).size ≤ 511 := by
    intro i hi
    have hget : (abs s).conditions.get (s.CV i).numer = some (s.CV i).czekajacy :=
      SlotView.toMap_get_used hs.cvUnique hi
    have hle := hlength (s.CV i).numer
    rw [Manager.waiters_of_get hget, length_czekajacy] at hle
    exact hle.trans hcard
  refine ⟨fun _ => ?_, fun i hi => ?_, fun i hi => ⟨hs.inhabited i hi, hsize i hi⟩, ?_⟩
  · -- every used condition variable has a waiter of its own, so some slot is free
    have hroom : (abs s).conditions.count < MAX_CV := (hcount.trans hcard).trans_lt (by decide)
    exact (SlotView.firstFree_lt_iff_count hs.cvUnique).mpr hroom
  · exact (hsize i (indeks_cv_some hi).1).trans_lt (by decide)
  · have hexcl := listIn_exclusive hs ha
    exact ⟨fun i => hexcl.nodup (.inr i), fun hi hj => by
      simpa using hexcl.eq_of_mem (i := .inr _) (j := .inr _) hi hj⟩

variable [Minix] {c : Config}

/-- **The condition table never overflows** while at most 512 processes have a request
outstanding, the one being handled included.  When an accepted wait chooses its slot, in the
state `s` that the release of the mutex leaves, a new condition finds a free slot, and the
waiter is written at an index below 512; every used condition has between 1 and 511 waiters,
and no process is among the waiters twice. -/
theorem condition_slot_in_range (hc : Reachable c) {m : Message} (hm : Admissible c m)
    (hpm : FromPM m) {p numerCv numerMutexu : ℤ}
    (hwait : m.request = .wait p numerCv numerMutexu) (hown : c.server.Owns p numerMutexu)
    (hcard : (insert p c.pending).card ≤ 512) :
    let s := (csUnlock (c.server.przyjmij p) numerMutexu).2
    csWait (c.server.przyjmij p) numerCv numerMutexu = zarejestrujNaCv s numerCv numerMutexu ∧
      (indeksUzywanegoCv s numerCv = none → wolnyCv s < MAX_CV) ∧
      (∀ i, indeksUzywanegoCv s numerCv = some i → (s.CV i).size < 512) ∧
      (∀ i, (s.CV i).uzywany = true → 1 ≤ (s.CV i).size ∧ (s.CV i).size ≤ 511) ∧
      Exclusive (fun i => listIn s (.inr i)) ∧
      ∃ out c', Step c (m, out) c' := by
  have hinv := hc.inv
  have hp : p ∉ c.pending := hm.answered p (by rw [hwait]; rfl)
  have hpending : c.pending.card ≤ 511 := by
    rw [Finset.card_insert_of_notMem hp] at hcard
    omega
  obtain ⟨-, hs, habs, -, -⟩ := csUnlock_spec (hinv.tables.przyjmij p) numerMutexu
  -- the release takes nobody into a list, so everybody listed has a request outstanding
  have hF : ∀ q, ((abs c.server).unlock p numerMutexu).1.Waiting q → q ∈ c.pending := fun q hq =>
    (hinv.pending_iff q).mpr (Listed.mono (Manager.unlock_place p numerMutexu) hq)
  obtain ⟨hfree, hindex, hsizes, hexcl⟩ := condition_room hs
    (habs ▸ Manager.unlock_wellFormed hinv.manager p numerMutexu) (habs ▸ hF) hpending numerCv
  refine ⟨csWait_accept (hinv.tables.przyjmij p) ((owns_iff hinv.tables).mp hown),
    hfree, hindex, hsizes, hexcl, ?_⟩
  · have hnext : ∀ q, ((abs c.server).next m.request).Waiting q → q ∈ insert p c.pending := by
      intro q hq
      have hadm := hm.admits hinv
      rw [hwait] at hq hadm
      have := ((Manager.wait_answers hinv.manager (hadm p rfl)).waiting_iff q).mp hq
      rw [Finset.mem_insert, hinv.pending_iff]
      simpa [Request.sender, eq_comm, or_comm] using this.1
    have hnextwf := Manager.next_wellFormed hinv.manager (hm.admits hinv)
    obtain ⟨hcount', hlength'⟩ := conditions_le_waiting hnextwf hnext
    have hmutexes : ((abs c.server).next m.request).mutexes.count ≤ MAX_MUTEX := by
      rw [hwait]
      exact (Manager.wait_count_le p numerCv numerMutexu).trans hinv.tables.fits.mutexes
    obtain ⟨out, c', hstep⟩ := exists_openStep hinv hm
      ⟨hmutexes, hcount'.trans hcard, fun k => (hlength' k).trans hcard⟩
    exact ⟨out, c', hstep, hpm⟩

end ConditionTable

/-- Process 1 waits on condition 5, and the owner of mutex 7 waits there too: its entry is the
second of the condition that is in use. -/
theorem condition_slot_in_range_first :
    letI := Minix.v321
    ∃ c i, c.server.Owns 2 7 ∧ c.server.Registered 1 5 7 ∧
      indeksUzywanegoCv (csUnlock (c.server.przyjmij 2) 7).2 5 = some i ∧
      ((csUnlock (c.server.przyjmij 2) 7).2.CV i).size < 512 ∧
      ∃ out c', Step c (⟨2, CS_WAIT, 7, 5⟩, out) c' ∧
        (abs c'.server).waiters 5 = [(1, 7), (2, 7)] := by
  let _ := Minix.v321
  obtain ⟨c, h⟩ := shows_waiting (o := 1) (p := 2) (m := 7) (by decide) 5
  have hinv := h.reachable.inv
  have hpending : c.pending = {1} := by
    ext p
    rw [hinv.pending_iff, h.abs_eq, waiting_waiter_iff, Finset.mem_singleton]
  have hown : c.server.Owns 2 7 := by
    rw [owns_iff hinv.tables, h.abs_eq]
    exact ⟨[], by simp⟩
  have hreg : c.server.Registered 1 5 7 := by
    rw [registered_iff hinv.tables, h.abs_eq]
    simp [Manager.waiters]
  have hadm : Admissible c ⟨2, CS_WAIT, 7, 5⟩ := by
    refine ⟨fun p hp => ?_, not_notification (request_wait 2 7 5) (by simp) _⟩
    rw [request_wait, Request.sender, Option.some.injEq] at hp
    simp [hpending, ← hp]
  obtain ⟨-, -, hindex, -, -, out, c', hstep⟩ := condition_slot_in_range h.reachable hadm
    (by simp [FromPM, CS_WAIT, CS_EINTR, CS_EXIT]) (request_wait 2 7 5) hown
    ((Finset.card_insert_le _ _).trans (by simp [hpending]))
  -- the release of the mutex leaves the condition as it is
  obtain ⟨-, -, habs, -, -⟩ := csUnlock_spec (hinv.tables.przyjmij 2) 7
  obtain ⟨i, hi⟩ : ∃ i, indeksUzywanegoCv (csUnlock (c.server.przyjmij 2) 7).2 5 = some i := by
    rw [← Option.ne_none_iff_exists']
    intro hnone
    have hget := indeks_cv_none hnone
    rw [habs, Manager.unlock_conditions, abs_przyjmij, h.abs_eq] at hget
    simp at hget
  have hsize := hindex i hi
  refine ⟨c, i, hown, hreg, hi, by convert hsize, out, c', hstep, ?_⟩
  rw [(hstep.manager hinv).1, h.abs_eq, request_wait, Manager.next,
    Manager.wait_of_owns ⟨[], by simp⟩]
  simp [Manager.register, Manager.waiters]

end MinixCv.Server

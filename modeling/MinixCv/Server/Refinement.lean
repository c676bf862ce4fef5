import MinixCv.Server.Broadcast
import MinixCv.Server.Sweeps

/-!
# One Message Of The Server

`Message.request` reads a message as a request of the lock manager, the way the `switch`
of `obslugaWiadomosci` does.  `obsluz_spec` says that handling a message is the lock
manager's step for that request, unless the state after that step needs more slots than
the tables have; then the handler writes behind one of them.
-/

namespace MinixCv.Server

open MinixCv.Lib MinixCv.LockManager

/-! ## §1 Messages as requests -/

/-- The request a message stands for. -/
def Message.request (m : Message) : Request :=
  if m.mType = CS_LOCK then .lock m.mSource m.m1i1
  else if m.mType = CS_UNLOCK then .unlock m.mSource m.m1i1
  else if m.mType = CS_WAIT then .wait m.mSource m.m1i2 m.m1i1
  else if m.mType = CS_BROADCAST then .broadcast m.mSource m.m1i2
  else if m.mType = CS_EINTR then .interrupt m.pmProc
  else if m.mType = CS_EXIT then .exit m.pmProc
  else .bad m.mSource

theorem request_lock (p m c : ℤ) : (⟨p, CS_LOCK, m, c⟩ : Message).request = .lock p m := rfl

theorem request_unlock (p m c : ℤ) : (⟨p, CS_UNLOCK, m, c⟩ : Message).request = .unlock p m := rfl

theorem request_wait (p m c : ℤ) : (⟨p, CS_WAIT, m, c⟩ : Message).request = .wait p c m := rfl

theorem request_broadcast (p m c : ℤ) :
    (⟨p, CS_BROADCAST, m, c⟩ : Message).request = .broadcast p c := rfl

theorem request_eintr (s p c : ℤ) : (⟨s, CS_EINTR, p, c⟩ : Message).request = .interrupt p := rfl

theorem request_exit (s p c : ℤ) : (⟨s, CS_EXIT, p, c⟩ : Message).request = .exit p := rfl

/-- The seven ways of the dispatch. -/
theorem Message.request_cases (m : Message) :
    (m.mType = CS_LOCK ∧ m.request = .lock m.mSource m.m1i1) ∨
    (m.mType = CS_UNLOCK ∧ m.request = .unlock m.mSource m.m1i1) ∨
    (m.mType = CS_WAIT ∧ m.request = .wait m.mSource m.m1i2 m.m1i1) ∨
    (m.mType = CS_BROADCAST ∧ m.request = .broadcast m.mSource m.m1i2) ∨
    (m.mType = CS_EINTR ∧ m.request = .interrupt m.pmProc) ∨
    (m.mType = CS_EXIT ∧ m.request = .exit m.pmProc) ∨
    ((m.mType < 1 ∨ m.mType > 6) ∧ m.request = .bad m.mSource) := by
  unfold Message.request
  split_ifs with h₁ h₂ h₃ h₄ h₅ h₆
  · exact Or.inl ⟨h₁, rfl⟩
  · exact Or.inr (Or.inl ⟨h₂, rfl⟩)
  · exact Or.inr (Or.inr (Or.inl ⟨h₃, rfl⟩))
  · exact Or.inr (Or.inr (Or.inr (Or.inl ⟨h₄, rfl⟩)))
  · exact Or.inr (Or.inr (Or.inr (Or.inr (Or.inl ⟨h₅, rfl⟩))))
  · exact Or.inr (Or.inr (Or.inr (Or.inr (Or.inr (Or.inl ⟨h₆, rfl⟩)))))
  · -- none of the numbers from 1 to 6 is left
    simp only [CS_LOCK, CS_UNLOCK, CS_WAIT, CS_BROADCAST, CS_EINTR, CS_EXIT] at h₁ h₂ h₃ h₄ h₅ h₆
    exact Or.inr (Or.inr (Or.inr (Or.inr (Or.inr (Or.inr ⟨by omega, rfl⟩)))))

theorem request_eq_interrupt_iff {m : Message} {p : ℤ} :
    m.request = .interrupt p ↔ m.mType = CS_EINTR ∧ m.pmProc = p := by
  obtain ⟨h, hr⟩ | ⟨h, hr⟩ | ⟨h, hr⟩ | ⟨h, hr⟩ | ⟨h, hr⟩ | ⟨h, hr⟩ | ⟨h, hr⟩ := m.request_cases <;>
    simp only [hr, reduceCtorEq, false_iff, Request.interrupt.injEq]
  all_goals simp only [CS_LOCK, CS_UNLOCK, CS_WAIT, CS_BROADCAST, CS_EINTR, CS_EXIT] at *
  all_goals omega

theorem request_eq_exit_iff {m : Message} {p : ℤ} :
    m.request = .exit p ↔ m.mType = CS_EXIT ∧ m.pmProc = p := by
  obtain ⟨h, hr⟩ | ⟨h, hr⟩ | ⟨h, hr⟩ | ⟨h, hr⟩ | ⟨h, hr⟩ | ⟨h, hr⟩ | ⟨h, hr⟩ := m.request_cases <;>
    simp only [hr, reduceCtorEq, false_iff, Request.exit.injEq]
  all_goals simp only [CS_LOCK, CS_UNLOCK, CS_WAIT, CS_BROADCAST, CS_EINTR, CS_EXIT] at *
  all_goals omega

theorem request_eq_lock_iff {m : Message} {p k : ℤ} :
    m.request = .lock p k ↔ m.mType = CS_LOCK ∧ m.mSource = p ∧ m.m1i1 = k := by
  obtain ⟨h, hr⟩ | ⟨h, hr⟩ | ⟨h, hr⟩ | ⟨h, hr⟩ | ⟨h, hr⟩ | ⟨h, hr⟩ | ⟨h, hr⟩ := m.request_cases <;>
    simp only [hr, reduceCtorEq, false_iff, Request.lock.injEq]
  all_goals simp only [CS_LOCK, CS_UNLOCK, CS_WAIT, CS_BROADCAST, CS_EINTR, CS_EXIT] at *
  all_goals omega

/-- Only the source of a message counts as the sender of a request. -/
theorem Message.sender_eq {m : Message} {p : ℤ} (h : m.request.sender = some p) : m.mSource = p := by
  obtain ⟨_, hr⟩ | ⟨_, hr⟩ | ⟨_, hr⟩ | ⟨_, hr⟩ | ⟨_, hr⟩ | ⟨_, hr⟩ | ⟨_, hr⟩ := m.request_cases <;>
    simp [hr, Request.sender] at h
  all_goals exact h

/-! ## §2 The dispatch -/

section Dispatch

variable [Minix]

/-- The end of `obslugaWiadomosci`: the sender is answered unless told not to be. -/
def odpowiedz (r : ℤ × ServerState) : ServerState :=
  if r.1 ≠ EDONTREPLY then wyslijWiadomosc r.1 r.2.aktualnyProces r.2 else r.2

/-- The state in which a message from `p` is handled: nothing sent yet, `p` current. -/
def ServerState.przyjmij (s : ServerState) (p : ℤ) : ServerState :=
  { s with aktualnyProces := p, sent := [] }

/-- What each type of message does, with the sender as the current process. -/
theorem obslugaWiadomosci_eq (s : ServerState) (m : Message) :
    obslugaWiadomosci { s with sent := [] } m = match m.request with
      | .lock p k => (csLock (s.przyjmij p) k).map odpowiedz
      | .unlock p k => .ok (odpowiedz (csUnlock (s.przyjmij p) k))
      | .wait p c k => (csWait (s.przyjmij p) c k).map odpowiedz
      | .broadcast p c => (csBroadcast (s.przyjmij p) c).map odpowiedz
      | .interrupt p => .ok (wyslijEINTR (s.przyjmij m.mSource) p)
      | .exit p => .ok (usunZakonczonyProces (s.przyjmij m.mSource) p)
      | .bad p => .ok (wyslijWiadomosc EINVAL p (s.przyjmij p)) := by
  unfold ServerState.przyjmij
  obtain ⟨h, hr⟩ | ⟨h, hr⟩ | ⟨h, hr⟩ | ⟨h, hr⟩ | ⟨h, hr⟩ | ⟨h, hr⟩ | ⟨h, hr⟩ := m.request_cases <;>
    rw [hr]
  · simp only [obslugaWiadomosci, wykonaj, h, CS_LOCK]
    cases csLock { s with aktualnyProces := m.mSource, sent := [] } m.m1i1 <;>
      simp [odpowiedz, Except.map, bind, Except.bind]
  · simp [obslugaWiadomosci, wykonaj, h, CS_LOCK, CS_UNLOCK, odpowiedz, bind, Except.bind]
  · simp only [obslugaWiadomosci, wykonaj, h, CS_LOCK, CS_UNLOCK, CS_WAIT]
    cases csWait { s with aktualnyProces := m.mSource, sent := [] } m.m1i2 m.m1i1 <;>
      simp [odpowiedz, Except.map, bind, Except.bind]
  · simp only [obslugaWiadomosci, wykonaj, h, CS_LOCK, CS_UNLOCK, CS_WAIT, CS_BROADCAST]
    cases csBroadcast { s with aktualnyProces := m.mSource, sent := [] } m.m1i2 <;>
      simp [odpowiedz, Except.map, bind, Except.bind]
  · simp [obslugaWiadomosci, wykonaj, h, CS_LOCK, CS_UNLOCK, CS_WAIT, CS_BROADCAST, CS_EINTR,
      bind, Except.bind]
  · simp [obslugaWiadomosci, wykonaj, h, CS_LOCK, CS_UNLOCK, CS_WAIT, CS_BROADCAST, CS_EINTR,
      CS_EXIT, bind, Except.bind]
  · unfold obslugaWiadomosci
    simp only [h, ↓reduceIte]

end Dispatch

/-! ## §3 A message is a step of the lock manager -/

/-- What handling a message as the request `r` has done: `s'` and the messages `out` are the
    lock manager's.  How often a process is interrupted depends on how often it is listed, so
    there the replies are known in a well-formed state only. -/
structure Handled [Minix] (s : ServerState) (r : Request) (s' : ServerState)
    (out : List Reply) : Prop where
  tableInv : TableInv s'
  abs_eq : abs s' = (abs s).next r
  replies_of : ((∃ p, r = .interrupt p) → (abs s).WellFormed) → (abs s).Replies r out
  sentinels : SameSentinels s s'

theorem Handled.replies [Minix] {s s' : ServerState} {r : Request} {out : List Reply}
    (h : Handled s r s' out) (ha : (abs s).WellFormed) : (abs s).Replies r out :=
  h.replies_of fun _ => ha

/-- The tables have room for the state `a`. -/
structure Fits (a : Manager) : Prop where
  mutexes : a.mutexes.count ≤ MAX_MUTEX
  conditions : a.conditions.count ≤ MAX_CV
  waiters : ∀ c, (a.waiters c).length ≤ MAX_CZEKAJACYCH

theorem TableInv.fits {s : ServerState} (hs : TableInv s) : Fits (abs s) where
  mutexes := SlotView.count_toMap_le hs.mutexUnique
  conditions := SlotView.count_toMap_le hs.cvUnique
  waiters c := by
    cases hget : (abs s).conditions.get c with
    | none => simp [Manager.waiters, hget]
    | some l =>
      obtain ⟨i, hused, -, rfl⟩ := (SlotView.toMap_get_eq_some_iff hs.cvUnique).mp hget
      rw [Manager.waiters_of_get hget]
      exact (length_czekajacy (s.CV i)).trans_le (hs.bounded i hused)

/-- The write outside a table that a server in need of the state `a` makes.  Only a wait
    writes outside the condition table, and it reserves no mutex. -/
def Overflows (a : Manager) : TableFault → Prop
  | .mutexSlot i => i = MAX_MUTEX ∧ MAX_MUTEX < a.mutexes.count
  | .cvSlot i => i = MAX_CV ∧ MAX_CV < a.conditions.count ∧ a.mutexes.count ≤ MAX_MUTEX
  | .waiter _ size =>
    size = MAX_CZEKAJACYCH ∧ (∃ c, MAX_CZEKAJACYCH < (a.waiters c).length) ∧
      a.mutexes.count ≤ MAX_MUTEX

/-- No scan for the process that PM's notification names stops at a head sentinel. -/
def Message.Scannable (s : ServerState) (m : Message) : Prop :=
  ∀ p, m.request = .interrupt p ∨ m.request = .exit p → SentinelFree s p

/-- Handling `m` does not depend on the sentinels: `CS_EINTR` about `p` is received while no
    queue with somebody in it holds `p` in its head sentinel, and `CS_EXIT` about `p` while no
    queue with `p` in it does. -/
structure Message.Blind (s : ServerState) (m : Message) : Prop where
  interrupt : ∀ p, m.request = .interrupt p → Unfooled s p
  exit : ∀ p, m.request = .exit p → Unhidden s p

theorem Message.Scannable.blind {s : ServerState} {m : Message} (h : m.Scannable s) :
    m.Blind s where
  interrupt p hp := (h p (.inl hp)).unfooled
  exit p hp := (h p (.inr hp)).unfooled.unhidden

section Step

variable [Minix] {s s' : ServerState} {m : Message}

omit [Minix] in
@[simp] theorem abs_przyjmij (s : ServerState) (p : ℤ) : abs (s.przyjmij p) = abs s := rfl

omit [Minix] in
@[simp] theorem przyjmij_sent (s : ServerState) (p : ℤ) : (s.przyjmij p).sent = [] := rfl

omit [Minix] in
@[simp] theorem przyjmij_aktualnyProces (s : ServerState) (p : ℤ) :
    (s.przyjmij p).aktualnyProces = p := rfl

omit [Minix] in
theorem TableInv.przyjmij (hs : TableInv s) (p : ℤ) : TableInv (s.przyjmij p) :=
  hs.congr rfl rfl

theorem odpowiedz_M (r : ℤ × ServerState) : (odpowiedz r).M = r.2.M := by
  unfold odpowiedz
  split_ifs <;> rfl

theorem odpowiedz_CV (r : ℤ × ServerState) : (odpowiedz r).CV = r.2.CV := by
  unfold odpowiedz
  split_ifs <;> rfl

theorem odpowiedz_sent (r : ℤ × ServerState) :
    (odpowiedz r).sent =
      r.2.sent ++ if r.1 ≠ EDONTREPLY then [⟨r.1, r.2.aktualnyProces⟩] else [] := by
  unfold odpowiedz
  split_ifs <;> simp [wyslijWiadomosc]

theorem obsluz_of_ok (h : obslugaWiadomosci { s with sent := [] } m = .ok s') :
    obsluz s m = .ok ({ s' with sent := [] }, s'.sent) := by
  simp only [obsluz, h, bind, Except.bind]

theorem obsluz_of_error {f : TableFault} (h : obslugaWiadomosci { s with sent := [] } m = .error f) :
    obsluz s m = .error f := by
  simp only [obsluz, h, bind, Except.bind]

/-- Reading off the log leaves the tables as they are. -/
private theorem handled_clear {r : Request} {x : ServerState} (hinv : TableInv x)
    (habs : abs x = (abs s).next r) (hsame : SameSentinels s x)
    (hrep : ((∃ p, r = .interrupt p) → (abs s).WellFormed) → (abs s).Replies r x.sent) :
    Handled s r { x with sent := [] } x.sent :=
  ⟨hinv.congr rfl rfl, habs, hrep, hsame⟩

/-- A handler that answers through `odpowiedz` has handled the request `r`. -/
private theorem handled_odpowiedz {r : Request} {x : ℤ × ServerState} (hinv : TableInv x.2)
    (habs : abs x.2 = (abs s).next r) (hsame : SameSentinels s x.2)
    (hrep : (abs s).Replies r (odpowiedz x).sent) :
    Handled s r { odpowiedz x with sent := [] } (odpowiedz x).sent := by
  refine handled_clear (hinv.congr (odpowiedz_M x) (odpowiedz_CV x)) ?_ ?_ fun _ => hrep
  · rw [← habs, abs, abs, odpowiedz_M, odpowiedz_CV]
  · intro i
    rw [odpowiedz_M]
    exact hsame i

/-- The reply to the sender of a lock request. -/
private theorem lock_reply (o : Option ℤ) (ho : o ≠ some EDONTREPLY) (p : ℤ) :
    (if o.getD EDONTREPLY ≠ EDONTREPLY then [(⟨o.getD EDONTREPLY, p⟩ : Reply)] else []) =
      (o.map fun r => (⟨r, p⟩ : Reply)).toList := by
  cases o with
  | none => simp
  | some r =>
    have hr : r ≠ EDONTREPLY := fun h => ho (by rw [h])
    simp [hr]

private theorem lock_answer_ne (a : Manager) (p k : ℤ) : (a.lock p k).2 ≠ some EDONTREPLY := by
  obtain ⟨_, h⟩ | ⟨_, _, h⟩ | ⟨_, _, _, _, h⟩ := a.lock_cases p k <;> simp [h]

private theorem unlock_answer_ne (a : Manager) (p k : ℤ) : (a.unlock p k).2.2 ≠ EDONTREPLY := by
  obtain ⟨_, h⟩ | ⟨_, h⟩ | ⟨_, _, _, h⟩ := a.unlock_cases p k <;> simp [h]

/-- **Specification of `obsluz`**: a message is handled as the lock manager's step for the
request it stands for, or the state after that step needs a slot behind one of the tables
and that slot is written. -/
theorem obsluz_spec (hs : TableInv s) (hst : m.Blind s) :
    (∃ s' out, obsluz s m = .ok (s', out) ∧ Handled s m.request s' out) ∨
    (∃ f, obsluz s m = .error f ∧ Overflows ((abs s).next m.request) f) := by
  -- from here on the message is its request, with the sender made current
  have heq := obslugaWiadomosci_eq s m
  obtain ⟨hintr, hexit⟩ := hst
  generalize m.request = r at heq hintr hexit ⊢
  cases r with
  | lock p k =>
    simp only at heq
    rcases csLock_spec (hs.przyjmij p) k with ⟨s', hres, hs', habs, hsent, hframe⟩ | ⟨hres, hcount⟩
    · rw [hres] at heq
      refine Or.inl ⟨_, _, obsluz_of_ok heq, handled_odpowiedz hs' habs hframe.sentinels ?_⟩
      rw [odpowiedz_sent]
      simp only [hsent, hframe.aktualnyProces, przyjmij_sent, przyjmij_aktualnyProces,
        List.nil_append, abs_przyjmij]
      exact lock_reply _ (lock_answer_ne _ p k) p
    · rw [hres] at heq
      exact Or.inr ⟨_, obsluz_of_error heq, by simpa [Overflows, Manager.next] using hcount⟩
  | unlock p k =>
    simp only at heq
    obtain ⟨hres, hs', habs, hsent, hframe⟩ := csUnlock_spec (hs.przyjmij p) k
    refine Or.inl ⟨_, _, obsluz_of_ok heq, handled_odpowiedz hs' habs hframe.sentinels ?_⟩
    rw [odpowiedz_sent, hres, hsent, hframe.aktualnyProces, if_pos (unlock_answer_ne _ _ k)]
    simp [Manager.Replies]
  | wait p c k =>
    simp only at heq
    -- a wait reserves no mutex, so only the condition table can be too small
    have hmutexes : ((abs s).wait p c k).1.mutexes.count ≤ MAX_MUTEX :=
      (Manager.wait_count_le p c k).trans hs.fits.mutexes
    by_cases ho : (abs s).Owns p k
    · rcases csWait_spec (c := c) (hs.przyjmij p) ho with
        ⟨s', hres, hs', habs, hsent, _, hsame⟩ | ⟨hres, hcount⟩ | ⟨i, hres, hlen⟩
      · rw [hres] at heq
        refine Or.inl ⟨_, _, obsluz_of_ok heq, handled_odpowiedz hs' habs hsame ?_⟩
        rw [odpowiedz_sent, hsent]
        simp [Manager.Replies]
      · rw [hres] at heq
        refine Or.inr ⟨_, obsluz_of_error heq, ?_⟩
        simpa [Overflows, Manager.next] using ⟨hcount, hmutexes⟩
      · rw [hres] at heq
        refine Or.inr ⟨_, obsluz_of_error heq, ?_⟩
        simpa [Overflows, Manager.next] using ⟨⟨c, hlen⟩, hmutexes⟩
    · rw [csWait_refuse (hs.przyjmij p) ho] at heq
      refine Or.inl ⟨_, _, obsluz_of_ok heq, handled_odpowiedz (hs.przyjmij p) ?_ (.refl _) ?_⟩
      · simp [Manager.next, Manager.wait_of_not_owns ho]
      · rw [odpowiedz_sent]
        simp [Manager.Replies, Manager.wait_of_not_owns ho]
  | broadcast p c =>
    simp only at heq
    rcases csBroadcast_spec (hs.przyjmij p) c with
      ⟨s', hres, hs', habs, hsent, hakt, hsame⟩ | ⟨hres, hcount⟩
    · rw [hres] at heq
      refine Or.inl ⟨_, _, obsluz_of_ok heq, handled_odpowiedz hs' habs hsame ?_⟩
      rw [odpowiedz_sent, hsent]
      simp [Manager.Replies, hakt]
    · rw [hres] at heq
      exact Or.inr ⟨_, obsluz_of_error heq, by simpa [Overflows, Manager.next] using hcount⟩
  | interrupt p =>
    simp only at heq
    obtain ⟨hs', habs, ⟨out, hsent, hrep⟩, hsame⟩ :=
      wyslijEINTR_spec (hs.przyjmij m.mSource) (hintr p rfl)
    refine Or.inl ⟨_, _, obsluz_of_ok heq, handled_clear hs' habs hsame fun ha => ?_⟩
    rw [hsent]
    exact hrep (ha ⟨p, rfl⟩)
  | exit p =>
    simp only at heq
    obtain ⟨hs', habs, ⟨out, hsent, hrep⟩, hsame⟩ :=
      usunZakonczonyProces_spec (hs.przyjmij m.mSource) (hexit p rfl)
    refine Or.inl ⟨_, _, obsluz_of_ok heq, handled_clear hs' habs hsame fun _ => ?_⟩
    rw [hsent]
    exact hrep
  | bad p =>
    exact Or.inl ⟨_, _, obsluz_of_ok heq, hs.congr rfl rfl, rfl, fun _ => rfl, .refl s⟩

/-- A message that was handled was handled as its request. -/
theorem Handled.of_ok {out : List Reply} (hs : TableInv s) (hst : m.Blind s)
    (h : obsluz s m = .ok (s', out)) : Handled s m.request s' out := by
  rcases obsluz_spec hs hst with ⟨s₁, out₁, hok, hhandled⟩ | ⟨f, herr, _⟩
  · rw [h, Except.ok.injEq, Prod.mk.injEq] at hok
    obtain ⟨rfl, hout⟩ := hok
    exact hout ▸ hhandled
  · rw [h] at herr
    simp at herr

/-- A notification needs no room: it is always handled. -/
theorem obsluz_interrupt {p : ℤ} (h : m.request = .interrupt p) :
    obsluz s m = .ok ({ wyslijEINTR (s.przyjmij m.mSource) p with sent := [] },
      (wyslijEINTR (s.przyjmij m.mSource) p).sent) :=
  obsluz_of_ok (by rw [obslugaWiadomosci_eq, h])

theorem obsluz_exit {p : ℤ} (h : m.request = .exit p) :
    obsluz s m = .ok ({ usunZakonczonyProces (s.przyjmij m.mSource) p with sent := [] },
      (usunZakonczonyProces (s.przyjmij m.mSource) p).sent) :=
  obsluz_of_ok (by rw [obslugaWiadomosci_eq, h])

omit [Minix] in
/-- A message is a notification, or it does not depend on the sentinels. -/
theorem Message.notice_or_blind (m : Message) (s : ServerState) :
    (∃ p, m.request = .interrupt p) ∨ (∃ p, m.request = .exit p) ∨ m.Blind s := by
  cases hr : m.request with
  | interrupt p => exact Or.inl ⟨p, rfl⟩
  | exit p => exact Or.inr (Or.inl ⟨p, rfl⟩)
  | _ => exact Or.inr (Or.inr (by constructor <;> simp [hr]))

omit [Minix] in
private theorem clear_tableInv {x : ServerState} (hx : TableInv x) :
    TableInv { x with sent := [] } := hx.congr rfl rfl

/-- Every message that is handled keeps the invariant of the tables, whatever the sentinels
hold. -/
theorem obsluz_tableInv {out : List Reply} (hs : TableInv s) (h : obsluz s m = .ok (s', out)) :
    TableInv s' := by
  rcases m.notice_or_blind s with ⟨p, hr⟩ | ⟨p, hr⟩ | hblind
  · have hkept := clear_tableInv (wyslijEINTR_tableInv (hs.przyjmij m.mSource) p)
    have heq := h.symm.trans (obsluz_interrupt hr)
    rw [Except.ok.injEq, Prod.mk.injEq] at heq
    exact heq.1 ▸ hkept
  · have hkept := clear_tableInv (usunZakonczonyProces_tableInv (hs.przyjmij m.mSource) p)
    have heq := h.symm.trans (obsluz_exit hr)
    rw [Except.ok.injEq, Prod.mk.injEq] at heq
    exact heq.1 ▸ hkept
  · exact (Handled.of_ok hs hblind h).tableInv

end Step

/-! ## §4 When the tables are large enough -/

/-- A death needs no room. -/
theorem Fits.exit {a : Manager} (h : Fits a) (p : ℤ) : Fits (a.exit p) where
  mutexes := by
    refine (PartialMap.count_le_of_dom fun k hk hnone => hk ?_).trans h.mutexes
    simp [Manager.exit, hnone]
  conditions := by
    refine (PartialMap.count_le_of_dom fun k hk hnone => hk ?_).trans h.conditions
    simp [Manager.exit, hnone]
  waiters c := by
    rw [Manager.exit_waiters]
    exact List.length_eraseP_le.trans (h.waiters c)

/-- An interruption needs no room. -/
theorem Fits.remove {a : Manager} (h : Fits a) (p : ℤ) : Fits (a.remove p) where
  mutexes := by
    refine (PartialMap.count_le_of_dom fun k hk hnone => hk ?_).trans h.mutexes
    simp [Manager.remove, hnone]
  conditions := by
    refine (PartialMap.count_le_of_dom fun k hk hnone => hk ?_).trans h.conditions
    simp [Manager.remove, hnone]
  waiters c := by
    rw [Manager.remove_waiters]
    exact (List.length_eraseP_le).trans (h.waiters c)

/-- Taking a free mutex needs one slot. -/
theorem Fits.lock_free [Minix] {a : Manager} (h : Fits a) {p m : ℤ} (hm : a.mutexes.get m = none)
    (hroom : a.mutexes.count < MAX_MUTEX) : Fits (a.next (.lock p m)) := by
  rw [Manager.next, Manager.lock_of_none hm]
  exact ⟨(PartialMap.count_set_fresh hm _).trans_le hroom, h.conditions, h.waiters⟩

/-- Waiting for a mutex that somebody has needs none. -/
theorem Fits.lock_taken [Minix] {a : Manager} (h : Fits a) {p m o : ℤ} {q : List ℤ}
    (hm : a.mutexes.get m = some (o, q)) (ho : o ≠ p) : Fits (a.next (.lock p m)) := by
  rw [Manager.next]
  simp only [Manager.lock, hm, if_neg ho]
  exact ⟨(PartialMap.count_set_bound (by simp [hm]) _).trans_le h.mutexes, h.conditions, h.waiters⟩

/-- An unlock needs no room. -/
theorem Fits.unlock [Minix] {a : Manager} (h : Fits a) (p m : ℤ) :
    Fits (a.next (.unlock p m)) := by
  rw [Manager.next]
  obtain ⟨_, hu⟩ | ⟨hm, hu⟩ | ⟨_, _, hm, hu⟩ := a.unlock_cases p m <;> rw [hu]
  · exact h
  · refine ⟨(PartialMap.count_le_of_dom fun k hk hnone => hk ?_).trans h.mutexes, h.conditions,
      h.waiters⟩
    by_cases hkm : k = m <;> simp [hkm, hnone]
  · exact ⟨(PartialMap.count_set_bound (by simp [hm]) _).trans_le h.mutexes, h.conditions,
      h.waiters⟩

theorem Overflows.not_fits {a : Manager} {f : TableFault} (h : Overflows a f) : ¬ Fits a := by
  intro hfits
  cases f with
  | mutexSlot i => exact absurd h.2 (not_lt.mpr hfits.mutexes)
  | cvSlot i => exact absurd h.2.1 (not_lt.mpr hfits.conditions)
  | waiter i size =>
    obtain ⟨-, ⟨c, hc⟩, -⟩ := h
    exact absurd hc (not_lt.mpr (hfits.waiters c))

/-- A message is handled inside the tables exactly when they have room for the state after
it.  A notification needs none, whatever the sentinels hold. -/
theorem obsluz_ok_iff [Minix] {s : ServerState} {m : Message} (hs : TableInv s) :
    (∃ x, obsluz s m = .ok x) ↔ Fits ((abs s).next m.request) := by
  rcases m.notice_or_blind s with ⟨p, hr⟩ | ⟨p, hr⟩ | hblind
  · exact ⟨fun _ => by rw [hr]; exact hs.fits.remove p, fun _ => ⟨_, obsluz_interrupt hr⟩⟩
  · exact ⟨fun _ => by rw [hr]; exact hs.fits.exit p, fun _ => ⟨_, obsluz_exit hr⟩⟩
  · rcases obsluz_spec hs hblind with ⟨s', out, hok, hhandled⟩ | ⟨f, herr, hover⟩
    · exact ⟨fun _ => hhandled.abs_eq ▸ hhandled.tableInv.fits, fun _ => ⟨_, hok⟩⟩
    · refine ⟨?_, fun hfits => absurd hfits hover.not_fits⟩
      intro hex
      obtain ⟨x, hx⟩ := hex
      simp [herr] at hx

end MinixCv.Server

import MinixCv.Lib.Run
import MinixCv.Server.Refinement

/-!
# Runs Of The Server

A configuration is the server together with the processes whose request it has received
and not yet answered.  A step handles one message inside the tables; the sender of a request
has no unanswered request, since it blocks in `sendrec`.

- `AnyStep`: any process may send any message, whatever the sentinels hold
- `ClearStep`: the scans for a notification do not stop at a head sentinel
- `OpenStep`: no head sentinel holds the process that a notification names
- `Step`: the notifications `CS_EINTR` and `CS_EXIT` come from PM only
- `Inv`: the invariant of every reachable configuration
- `run_refines_manager`: every run is a run of the lock manager
- `waiting_lists_and_replies`: a process has an unanswered request exactly when the
  tables list it, and then once; every message sent answers such a request
-/

namespace MinixCv.Server

open MinixCv.Lib MinixCv.LockManager

/-! ## §1 Configurations and steps -/

/-- The server, and the processes whose request it has received and not answered. -/
structure Config where
  server : ServerState
  pending : Finset ℤ

/-- The server before its first message. -/
def Config.initial (start koniec : Fin MAX_MUTEX → ℤ) : Config :=
  ⟨Server.initial start koniec, ∅⟩

/-- Who waits for an answer while a request is handled.  A handled `CS_EXIT` cancels the
    request of the dead process. -/
def asked (pending : Finset ℤ) : Request → Finset ℤ
  | .lock p _ | .unlock p _ | .wait p _ _ | .broadcast p _ | .bad p => insert p pending
  | .interrupt _ => pending
  | .exit p => pending.erase p

/-- Who still waits for an answer after the messages `out`. -/
def unanswered (pending : Finset ℤ) (out : List Reply) : Finset ℤ :=
  out.foldl (fun pending r => pending.erase r.dokad) pending

/-- Every message of `out` goes to a process that waits for an answer at that moment, and
    answers it. -/
def AnswersPending : Finset ℤ → List Reply → Prop
  | _, [] => True
  | pending, r :: out => r.dokad ∈ pending ∧ AnswersPending (pending.erase r.dokad) out

/-- A message from anybody: its sender, if it asks for an answer, has none outstanding. -/
structure Admissible (c : Config) (m : Message) : Prop where
  answered : ∀ p, m.request.sender = some p → p ∉ c.pending
  sentinel : m.Scannable c.server

section Steps

variable [Minix]

/-- One message from anybody is handled, whatever the sentinels hold. -/
structure AnyStep (c : Config) (l : Message × List Reply) (c' : Config) : Prop where
  answered : ∀ p, l.1.request.sender = some p → p ∉ c.pending
  handled : obsluz c.server l.1 = .ok (c'.server, l.2)
  pending : c'.pending = unanswered (asked c.pending l.1.request) l.2

/-- One message from anybody is handled, and its handling does not depend on the sentinels. -/
structure ClearStep (c : Config) (l : Message × List Reply) (c' : Config) : Prop
    extends AnyStep c l c' where
  blind : l.1.Blind c.server

/-- One message from anybody is handled. -/
structure OpenStep (c : Config) (l : Message × List Reply) (c' : Config) : Prop where
  admissible : Admissible c l.1
  handled : obsluz c.server l.1 = .ok (c'.server, l.2)
  pending : c'.pending = unanswered (asked c.pending l.1.request) l.2

theorem OpenStep.clear {c c' : Config} {l : Message × List Reply} (h : OpenStep c l c') :
    ClearStep c l c' :=
  ⟨⟨h.admissible.answered, h.handled, h.pending⟩, h.admissible.sentinel.blind⟩

/-- PM alone sends notifications. -/
def FromPM (m : Message) : Prop :=
  m.mType = CS_EINTR ∨ m.mType = CS_EXIT → m.mSource = Minix.PM_PROC_NR

/-- One message is handled, and notifications come from PM. -/
structure Step (c : Config) (l : Message × List Reply) (c' : Config) : Prop
    extends OpenStep c l c' where
  fromPM : FromPM l.1

/-- The configurations the server reaches from its initial tables. -/
def Reachable (c : Config) : Prop :=
  ∃ start koniec ls, Run Step (Config.initial start koniec) ls c

/-- The configurations it reaches when clients may send notifications as well. -/
def OpenReachable (c : Config) : Prop :=
  ∃ start koniec ls, Run OpenStep (Config.initial start koniec) ls c

theorem Reachable.snoc {c c' : Config} {l : Message × List Reply} (hc : Reachable c)
    (h : Step c l c') : Reachable c' := by
  obtain ⟨start, koniec, ls, hrun⟩ := hc
  exact ⟨start, koniec, _, hrun.snoc h⟩

theorem Reachable.append {c c' : Config} {ls : List (Message × List Reply)} (hc : Reachable c)
    (h : Run Step c ls c') : Reachable c' := by
  obtain ⟨start, koniec, ls₀, hrun⟩ := hc
  exact ⟨start, koniec, _, hrun.append h⟩

theorem Reachable.open {c : Config} (hc : Reachable c) : OpenReachable c := by
  obtain ⟨start, koniec, ls, hrun⟩ := hc
  exact ⟨start, koniec, ls, hrun.mono fun _ _ _ h => h.toOpenStep⟩

end Steps

/-! ## §2 Answering -/

theorem mem_unanswered {pending : Finset ℤ} {out : List Reply} {p : ℤ} :
    p ∈ unanswered pending out ↔ p ∈ pending ∧ p ∉ out.map (·.dokad) := by
  unfold unanswered
  induction out generalizing pending with
  | nil => simp
  | cons r out ih =>
    rw [List.foldl_cons, ih, Finset.mem_erase, List.map_cons, List.mem_cons]
    tauto

theorem mem_asked {pending : Finset ℤ} {r : Request} {p : ℤ} :
    p ∈ asked pending r ↔ (p ∈ pending ∨ r.sender = some p) ∧ r ≠ .exit p := by
  cases r with
  | interrupt q => simp [asked, Request.sender]
  | exit q =>
    simp only [asked, Finset.mem_erase, Request.sender, reduceCtorEq, or_false, ne_eq,
      Request.exit.injEq]
    tauto
  | _ =>
    simp only [asked, Finset.mem_insert, Request.sender, Option.some.injEq, ne_eq, reduceCtorEq,
      not_false_eq_true, and_true]
    tauto

theorem answersPending_iff {pending : Finset ℤ} {out : List Reply} :
    AnswersPending pending out ↔
      (out.map (·.dokad)).Nodup ∧ ∀ q ∈ out.map (·.dokad), q ∈ pending := by
  induction out generalizing pending with
  | nil => simp [AnswersPending]
  | cons r out ih =>
    simp only [AnswersPending, ih, Finset.mem_erase, List.map_cons, List.nodup_cons,
      List.mem_cons, forall_eq_or_imp]
    constructor
    · -- once answered, a process is not pending any more
      intro hboth
      obtain ⟨hr, hnodup, hall⟩ := hboth
      exact ⟨⟨fun hmem => (hall _ hmem).1 rfl, hnodup⟩, hr, fun q hq => (hall q hq).2⟩
    · intro hboth
      obtain ⟨⟨hmem, hnodup⟩, hr, hall⟩ := hboth
      exact ⟨hr, hnodup, fun q hq => ⟨fun h => hmem (h ▸ hq), hall q hq⟩⟩

/-! ## §3 The invariant -/

/-- The invariant of the reachable configurations. -/
structure Inv (c : Config) : Prop where
  tables : TableInv c.server
  manager : (abs c.server).WellFormed
  pending_iff : ∀ p, p ∈ c.pending ↔ (abs c.server).Waiting p

section Invariant

variable [Minix] {c c' : Config} {l : Message × List Reply}

omit [Minix] in
theorem initial_inv (start koniec : Fin MAX_MUTEX → ℤ) : Inv (Config.initial start koniec) where
  tables := initial_tableInv start koniec
  manager := by
    simp only [Config.initial, abs_initial]
    exact Manager.empty_wellFormed
  pending_iff p := by
    simp only [Config.initial, abs_initial, Finset.notMem_empty, false_iff]
    exact Manager.not_waiting_empty p

omit [Minix] in
theorem Admissible.admits (hc : Inv c) {m : Message} (h : Admissible c m) :
    (abs c.server).Admits m.request :=
  fun p hp hw => h.answered p hp ((hc.pending_iff p).mpr hw)

theorem ClearStep.admits (hc : Inv c) (h : ClearStep c l c') :
    (abs c.server).Admits l.1.request :=
  fun p hp hw => h.answered p hp ((hc.pending_iff p).mpr hw)

/-- A step of the server is a step of the lock manager that the tables stand for. -/
theorem ClearStep.handledAs (hc : Inv c) (h : ClearStep c l c') :
    Handled c.server l.1.request c'.server l.2 :=
  .of_ok hc.tables h.blind h.handled

theorem ClearStep.manager (hc : Inv c) (h : ClearStep c l c') :
    Manager.Step (abs c.server) (l.1.request, l.2) (abs c'.server) :=
  ⟨(h.handledAs hc).abs_eq, (h.handledAs hc).replies hc.manager⟩

/-- The messages sent in a step, and who waits after it. -/
theorem ClearStep.answers (hc : Inv c) (h : ClearStep c l c') :
    (abs c.server).Answers l.1.request l.2 :=
  Manager.replies_answer hc.manager (h.admits hc) (h.manager hc).2

/-- **Step lemma**: handling a message keeps the invariant. -/
theorem ClearStep.inv (hc : Inv c) (h : ClearStep c l c') : Inv c' where
  tables := (h.handledAs hc).tableInv
  manager := by
    rw [(h.handledAs hc).abs_eq]
    exact Manager.next_wellFormed hc.manager (h.admits hc)
  pending_iff p := by
    rw [h.pending, mem_unanswered, mem_asked, hc.pending_iff, (h.handledAs hc).abs_eq,
      (h.answers hc).waiting_iff]
    tauto

theorem OpenStep.handledAs (hc : Inv c) (h : OpenStep c l c') :
    Handled c.server l.1.request c'.server l.2 := h.clear.handledAs hc

theorem OpenStep.manager (hc : Inv c) (h : OpenStep c l c') :
    Manager.Step (abs c.server) (l.1.request, l.2) (abs c'.server) := h.clear.manager hc

theorem OpenStep.answers (hc : Inv c) (h : OpenStep c l c') :
    (abs c.server).Answers l.1.request l.2 := h.clear.answers hc

theorem OpenStep.inv (hc : Inv c) (h : OpenStep c l c') : Inv c' := h.clear.inv hc

/-- **Run lemma**: every configuration reached satisfies the invariant. -/
theorem OpenReachable.inv (hc : OpenReachable c) : Inv c := by
  obtain ⟨start, koniec, ls, hrun⟩ := hc
  exact hrun.invariant (fun _ _ _ hs hstep => hstep.inv hs) (initial_inv start koniec)

theorem Reachable.inv (hc : Reachable c) : Inv c := hc.open.inv

/-- Whenever the tables have room for the state after a message, the message is handled. -/
theorem exists_openStep (hc : Inv c) {m : Message} (hm : Admissible c m)
    (hfits : Fits ((abs c.server).next m.request)) : ∃ out c', OpenStep c (m, out) c' := by
  obtain ⟨⟨s', out⟩, hok⟩ := (obsluz_ok_iff hc.tables).mpr hfits
  exact ⟨out, ⟨s', unanswered (asked c.pending m.request) out⟩, hm, hok, rfl⟩

end Invariant

/-! ## §4 Runs told by the lock manager -/

/-- The run `ls` from tables with zero in every sentinel has led to `c`, whose tables stand
    for `a`. -/
structure Shows [Minix] (ls : List (Message × List Reply)) (c : Config) (a : Manager) : Prop where
  run : Run Step (Config.initial (fun _ => 0) (fun _ => 0)) ls c
  abs_eq : abs c.server = a
  start_zero : ∀ i, (c.server.M i).kolejka.start = 0

section Shows

variable [Minix] {ls : List (Message × List Reply)} {c : Config} {a : Manager}

theorem Shows.reachable (h : Shows ls c a) : Reachable c := ⟨_, _, ls, h.run⟩

theorem shows_initial : Shows [] (Config.initial (fun _ => 0) (fun _ => 0)) Manager.empty :=
  ⟨.nil _, abs_initial _ _, fun _ => rfl⟩

/-- A run goes on by any request of a process that is not waiting, as long as the tables have
room, and then shows the lock manager's next state. -/
theorem Shows.step (h : Shows ls c a) {m : Message} {r : Request} (hr : m.request = r)
    (hpm : FromPM m) (hm : a.Admits r) (hzero : r ≠ .interrupt 0 ∧ r ≠ .exit 0)
    (hfits : Fits (a.next r)) :
    ∃ out c', Step c (m, out) c' ∧ a.Replies r out ∧ Shows (ls ++ [(m, out)]) c' (a.next r) := by
  have hinv := h.reachable.inv
  have habs := h.abs_eq
  subst habs
  subst hr
  -- no sentinel holds anything but zero, and PM does not name process zero
  have hadm : Admissible c m := by
    refine ⟨fun p hp hpend => hm p hp ((hinv.pending_iff p).mp hpend), fun p hp i hi => ?_⟩
    rw [h.start_zero i] at hi
    rcases hp with hp | hp
    · exact hzero.1 (hi ▸ hp)
    · exact hzero.2 (hi ▸ hp)
  obtain ⟨out, c', hopen⟩ := exists_openStep hinv hadm hfits
  have hstep : Step c (m, out) c' := ⟨hopen, hpm⟩
  refine ⟨out, c', hstep, (hopen.manager hinv).2, h.run.snoc hstep, (hopen.manager hinv).1, ?_⟩
  intro i
  rw [(hopen.handledAs hinv).sentinels i]
  exact h.start_zero i

/-- The same, where the messages that are sent are known. -/
theorem Shows.request (h : Shows ls c a) {m : Message} {r : Request} {a' : Manager}
    {o : List Reply} (hr : m.request = r) (hpm : FromPM m) (hm : a.Admits r)
    (hzero : r ≠ .interrupt 0 ∧ r ≠ .exit 0) (hnext : a.next r = a')
    (hrep : ∀ out, a.Replies r out → out = o) (hfits : Fits a') :
    ∃ c', Step c (m, o) c' ∧ Shows (ls ++ [(m, o)]) c' a' := by
  subst hnext
  obtain ⟨out, c', hstep, hout, hshows⟩ := h.step hr hpm hm hzero hfits
  obtain rfl := hrep out hout
  exact ⟨c', hstep, hshows⟩

theorem Shows.fits (h : Shows ls c a) : Fits a := h.abs_eq ▸ h.reachable.inv.tables.fits

theorem fromPM_lock (p m c : ℤ) : FromPM ⟨p, CS_LOCK, m, c⟩ := by
  simp [FromPM, CS_LOCK, CS_EINTR, CS_EXIT]

/-- A free mutex is taken. -/
theorem Shows.lock_free (h : Shows ls c a) {p m : ℤ} (hp : ¬ a.Waiting p)
    (hm : a.mutexes.get m = none) (hroom : a.mutexes.count < MAX_MUTEX) :
    ∃ c', Step c (⟨p, CS_LOCK, m, 0⟩, [⟨OK, p⟩]) c' ∧
      Shows (ls ++ [(⟨p, CS_LOCK, m, 0⟩, [⟨OK, p⟩])]) c'
        ⟨a.mutexes.set m (some (p, [])), a.conditions⟩ := by
  have hnext : a.next (.lock p m) = ⟨a.mutexes.set m (some (p, [])), a.conditions⟩ := by
    rw [Manager.next, Manager.lock_of_none hm]
  refine h.request (request_lock p m 0) (fromPM_lock p m 0)
    (by simpa [Manager.Admits, Request.sender] using hp) (by simp) hnext (fun out hrep => ?_)
    (hnext ▸ h.fits.lock_free hm hroom)
  simpa [Manager.Replies, Manager.lock_of_none hm] using hrep

/-- A mutex that somebody else owns is waited for. -/
theorem Shows.lock_taken (h : Shows ls c a) {p m o : ℤ} {q : List ℤ} (hp : ¬ a.Waiting p)
    (hm : a.mutexes.get m = some (o, q)) (ho : o ≠ p) :
    ∃ c', Step c (⟨p, CS_LOCK, m, 0⟩, []) c' ∧
      Shows (ls ++ [(⟨p, CS_LOCK, m, 0⟩, [])]) c'
        ⟨a.mutexes.set m (some (o, q ++ [p])), a.conditions⟩ := by
  have hlock : a.lock p m = (⟨a.mutexes.set m (some (o, q ++ [p])), a.conditions⟩, none) := by
    simp [Manager.lock, hm, ho]
  have hnext : a.next (.lock p m) = ⟨a.mutexes.set m (some (o, q ++ [p])), a.conditions⟩ := by
    rw [Manager.next, hlock]
  refine h.request (request_lock p m 0) (fromPM_lock p m 0)
    (by simpa [Manager.Admits, Request.sender] using hp) (by simp) hnext (fun out hrep => ?_)
    (hnext ▸ h.fits.lock_taken hm ho)
  simpa [Manager.Replies, hlock] using hrep

/-- The owner of a mutex waits on a condition that nobody waits on: the first in the queue of
the mutex, if there is one, is told that it owns the mutex now. -/
theorem Shows.wait_owned (h : Shows ls c a) {p m k : ℤ} (hp : ¬ a.Waiting p) (hown : a.Owns p m)
    (hk : a.conditions.get k = none) (hroom : a.conditions.count < MAX_CV) :
    ∃ c', Step c (⟨p, CS_WAIT, m, k⟩, (a.unlock p m).2.1) c' ∧
      Shows (ls ++ [(⟨p, CS_WAIT, m, k⟩, (a.unlock p m).2.1)]) c'
        ⟨(a.unlock p m).1.mutexes, a.conditions.set k (some [(p, m)])⟩ := by
  have hkept : (a.unlock p m).1.conditions = a.conditions := a.unlock_conditions p m
  have hwait : a.wait p k m =
      (⟨(a.unlock p m).1.mutexes, a.conditions.set k (some [(p, m)])⟩, (a.unlock p m).2.1) := by
    rw [Manager.wait_of_owns hown, Manager.register, Manager.waiters, hkept, hk]
    rfl
  have hnext : a.next (.wait p k m) =
      ⟨(a.unlock p m).1.mutexes, a.conditions.set k (some [(p, m)])⟩ := by
    rw [Manager.next, hwait]
  have hfits : Fits (⟨(a.unlock p m).1.mutexes, a.conditions.set k (some [(p, m)])⟩ : Manager) := by
    refine ⟨?_, (PartialMap.count_set_fresh hk _).trans_le hroom, fun d => ?_⟩
    · have hcount := (Manager.wait_count_le p k m).trans h.fits.mutexes
      rwa [hwait] at hcount
    · by_cases hd : d = k
      · simp [Manager.waiters, hd, MAX_CZEKAJACYCH]
      · simpa [Manager.waiters, hd] using h.fits.waiters d
  refine h.request (request_wait p m k) (by simp [FromPM, CS_WAIT, CS_EINTR, CS_EXIT])
    (by simpa [Manager.Admits, Request.sender] using hp) (by simp) hnext (fun out hrep => ?_) hfits
  rwa [Manager.Replies, hwait] at hrep

/-- The owner of an uncontended mutex waits on a condition that nobody waits on. -/
theorem Shows.wait_alone (h : Shows ls c a) {p m k : ℤ} (hp : ¬ a.Waiting p)
    (hm : a.mutexes.get m = some (p, [])) (hk : a.conditions.get k = none)
    (hroom : a.conditions.count < MAX_CV) :
    ∃ c', Step c (⟨p, CS_WAIT, m, k⟩, []) c' ∧
      Shows (ls ++ [(⟨p, CS_WAIT, m, k⟩, [])]) c'
        ⟨a.mutexes.set m none, a.conditions.set k (some [(p, m)])⟩ := by
  have hunlock : a.unlock p m = (⟨a.mutexes.set m none, a.conditions⟩, [], OK) := by
    simp [Manager.unlock, hm]
  simpa only [hunlock] using h.wait_owned hp ⟨[], hm⟩ hk hroom

/-- A broadcast to one waiter, whose mutex somebody else owns. -/
theorem Shows.broadcast_one (h : Shows ls c a) {p q m o k : ℤ} {l : List ℤ} (hp : ¬ a.Waiting p)
    (hk : a.conditions.get k = some [(q, m)]) (hm : a.mutexes.get m = some (o, l)) (ho : o ≠ q) :
    ∃ c', Step c (⟨p, CS_BROADCAST, 0, k⟩, [⟨OK, p⟩]) c' ∧
      Shows (ls ++ [(⟨p, CS_BROADCAST, 0, k⟩, [⟨OK, p⟩])]) c'
        ⟨a.mutexes.set m (some (o, l ++ [q])), a.conditions.set k none⟩ := by
  have hbroadcast : a.broadcast k =
      (⟨a.mutexes.set m (some (o, l ++ [q])), a.conditions.set k none⟩, []) := by
    simp [Manager.broadcast, Manager.waiters_of_get hk, Manager.wake, Manager.lock, hm, ho]
  have hnext : a.next (.broadcast p k) =
      ⟨a.mutexes.set m (some (o, l ++ [q])), a.conditions.set k none⟩ := by
    rw [Manager.next, hbroadcast]
  have hfits : Fits
      (⟨a.mutexes.set m (some (o, l ++ [q])), a.conditions.set k none⟩ : Manager) := by
    refine ⟨(PartialMap.count_set_bound (by simp [hm]) _).trans_le h.fits.mutexes,
      (PartialMap.count_le_of_dom fun d hd hnone => hd ?_).trans h.fits.conditions, fun d => ?_⟩
    · by_cases hdk : d = k <;> simp [hdk, hnone]
    · by_cases hdk : d = k
      · simp [Manager.waiters, hdk]
      · simpa [Manager.waiters, hdk] using h.fits.waiters d
  refine h.request (request_broadcast p 0 k) (by simp [FromPM, CS_BROADCAST, CS_EINTR, CS_EXIT])
    (by simpa [Manager.Admits, Request.sender] using hp) (by simp) hnext (fun out hrep => ?_) hfits
  rwa [Manager.Replies, hbroadcast] at hrep

/-- The owner of one mutex dies, and the first in its queue gets it. -/
theorem Shows.exit_owner (h : Shows ls c a) {p q m : ℤ} {l : List ℤ} (hp : p ≠ 0)
    (hm : a.mutexes.get m = some (p, q :: l)) (hone : ∀ k, a.Owns p k → k = m) :
    ∃ c', Step c (⟨Minix.PM_PROC_NR, CS_EXIT, p, 0⟩, [⟨0, q⟩]) c' ∧
      Shows (ls ++ [(⟨Minix.PM_PROC_NR, CS_EXIT, p, 0⟩, [⟨0, q⟩])]) c' (a.exit p) := by
  refine h.request (request_exit Minix.PM_PROC_NR p 0) (fun _ => rfl)
    (by simp [Manager.Admits, Request.sender]) (by simpa using hp) rfl (fun out hrep => ?_)
    (h.fits.exit p)
  -- the mutexes that are handed on are those it owns
  obtain ⟨ms, hnodup, hown, rfl⟩ := hrep
  have hms : ms = [m] := by
    apply List.perm_singleton.mp
    refine (List.perm_ext_iff_of_nodup hnodup (List.nodup_singleton m)).mpr fun k => ?_
    rw [hown, List.mem_singleton]
    exact ⟨hone k, fun hk => hk ▸ ⟨_, hm⟩⟩
  simp [hms, Manager.handOver, Manager.queue_of_get hm]

omit [Minix] in
theorem waiting_single_iff {m o p : ℤ} {q : List ℤ} :
    (⟨PartialMap.empty.set m (some (o, q)), PartialMap.empty⟩ : Manager).Waiting p ↔ p ∈ q := by
  rw [Manager.waiting_iff]
  constructor
  · intro hcase
    rcases hcase with ⟨k, hk⟩ | ⟨c, k, hk⟩
    · by_cases hkm : k = m
      · simpa [Manager.queue, hkm] using hk
      · simp [Manager.queue, hkm] at hk
    · simp [Manager.waiters] at hk
  · intro hp
    exact Or.inl ⟨m, by simpa [Manager.queue] using hp⟩

omit [Minix] in
theorem not_notification {m : Message} {r : Request} (hr : m.request = r)
    (h : ∀ p, r ≠ .interrupt p ∧ r ≠ .exit p) (s : ServerState) : m.Scannable s := by
  intro p hp
  rw [hr] at hp
  rcases hp with hp | hp
  · exact absurd hp (h p).1
  · exact absurd hp (h p).2

/-- One process holds a mutex. -/
theorem shows_owned (o m : ℤ) :
    ∃ c, Shows [(⟨o, CS_LOCK, m, 0⟩, [⟨OK, o⟩])] c
      ⟨PartialMap.empty.set m (some (o, [])), PartialMap.empty⟩ := by
  obtain ⟨c, -, h⟩ := shows_initial.lock_free (p := o) (m := m)
    (Manager.not_waiting_empty o) rfl (by simp [Manager.empty, MAX_MUTEX])
  exact ⟨c, h⟩

/-- One process holds a mutex and another one waits for it. -/
theorem shows_contended {o p m : ℤ} (hop : o ≠ p) :
    ∃ c, Shows [(⟨o, CS_LOCK, m, 0⟩, [⟨OK, o⟩]), (⟨p, CS_LOCK, m, 0⟩, [])] c
      ⟨PartialMap.empty.set m (some (o, [p])), PartialMap.empty⟩ := by
  obtain ⟨c, h⟩ := shows_owned o m
  obtain ⟨c', -, h'⟩ := h.lock_taken (p := p) (m := m) (o := o) (q := [])
    (by simp [waiting_single_iff]) (by simp) hop
  rw [PartialMap.set_set] at h'
  exact ⟨c', h'⟩

/-- The owner of a contended mutex waits on a condition, and the other process has the mutex. -/
theorem shows_waiting {o p m : ℤ} (hop : o ≠ p) (k : ℤ) :
    ∃ c, Shows [(⟨o, CS_LOCK, m, 0⟩, [⟨OK, o⟩]), (⟨p, CS_LOCK, m, 0⟩, []),
        (⟨o, CS_WAIT, m, k⟩, [⟨0, p⟩])] c
      ⟨PartialMap.empty.set m (some (p, [])), PartialMap.empty.set k (some [(o, m)])⟩ := by
  obtain ⟨c, h⟩ := shows_contended (m := m) hop
  obtain ⟨c', -, h'⟩ := h.wait_owned (p := o) (m := m) (k := k)
    (by simpa [waiting_single_iff] using hop) ⟨[p], by simp⟩ rfl (by simp [MAX_CV])
  have hunlock : (⟨PartialMap.empty.set m (some (o, [p])), PartialMap.empty⟩ : Manager).unlock o m =
      (⟨PartialMap.empty.set m (some (p, [])), PartialMap.empty⟩, [⟨0, p⟩], OK) := by
    simp [Manager.unlock, PartialMap.set_set]
  rw [hunlock] at h'
  exact ⟨c', h'⟩

omit [Minix] in
/-- There only the waiter of the condition waits. -/
theorem waiting_waiter_iff {m k o p q : ℤ} :
    (⟨PartialMap.empty.set m (some (p, [])), PartialMap.empty.set k (some [(o, m)])⟩ :
      Manager).Waiting q ↔ q = o := by
  rw [Manager.waiting_iff]
  constructor
  · intro hcase
    rcases hcase with ⟨n, hn⟩ | ⟨d, n, hn⟩
    · by_cases hnm : n = m <;> simp [Manager.queue, hnm] at hn
    · by_cases hdk : d = k <;> simp [Manager.waiters, hdk] at hn
      exact hn.1
  · rintro rfl
    exact Or.inr ⟨k, m, by simp [Manager.waiters]⟩

/-- The waiter is woken while the other process has the mutex, and gets it when that dies. -/
theorem shows_woken {o p m : ℤ} (hop : o ≠ p) (hp : p ≠ 0) (k : ℤ) :
    ∃ c, Shows [(⟨o, CS_LOCK, m, 0⟩, [⟨OK, o⟩]), (⟨p, CS_LOCK, m, 0⟩, []),
        (⟨o, CS_WAIT, m, k⟩, [⟨0, p⟩]), (⟨p, CS_BROADCAST, 0, k⟩, [⟨OK, p⟩]),
        (⟨Minix.PM_PROC_NR, CS_EXIT, p, 0⟩, [⟨0, o⟩])] c
      ⟨PartialMap.empty.set m (some (o, [])), PartialMap.empty⟩ := by
  obtain ⟨c, h⟩ := shows_waiting (m := m) hop k
  obtain ⟨c₁, -, h₁⟩ := h.broadcast_one (p := p) (q := o) (m := m) (o := p) (k := k) (l := [])
    (fun hw => hop (waiting_waiter_iff.mp hw).symm) (by simp) (by simp) hop.symm
  rw [PartialMap.set_set, PartialMap.set_set] at h₁
  -- when it dies, it owns nothing but that mutex
  have hone : ∀ n, (⟨PartialMap.empty.set m (some (p, [] ++ [o])),
      PartialMap.empty.set k none⟩ : Manager).Owns p n → n = m := by
    intro n hown
    obtain ⟨q, hq⟩ := hown
    by_contra hn
    simp [hn] at hq
  obtain ⟨c₂, -, h₂⟩ := h₁.exit_owner (p := p) (q := o) (m := m) (l := []) hp (by simp) hone
  have hexit : (⟨PartialMap.empty.set m (some (p, [] ++ [o])), PartialMap.empty.set k none⟩ :
      Manager).exit p = ⟨PartialMap.empty.set m (some (o, [])), PartialMap.empty⟩ := by
    ext n : 3
    · by_cases hn : n = m <;> simp [Manager.exit, Manager.exitMutex, hn]
    · by_cases hn : n = k <;> simp [Manager.exit, hn]
  rw [hexit] at h₂
  exact ⟨c₂, h₂⟩

end Shows

/-! ## §5 Every run is a run of the lock manager -/

section Refinement

variable [Minix]

/-- **Refinement**: a run of the server from its initial tables is a run of the lock manager
from its empty state, with the same requests, the same messages sent in the same order, and
the state that the tables stand for.  After any such run an admissible message is handled
whenever the tables have room for the state it leads to. -/
theorem run_refines_manager {start koniec : Fin MAX_MUTEX → ℤ}
    {ls : List (Message × List Reply)} {c : Config}
    (h : Run Step (Config.initial start koniec) ls c) :
    Run Manager.Step Manager.empty (ls.map fun l => (l.1.request, l.2)) (abs c.server) ∧
      ∀ m, Admissible c m → FromPM m → Fits ((abs c.server).next m.request) →
        ∃ out c', Step c (m, out) c' := by
  constructor
  · -- the simulation relation: the invariant, and the state the tables stand for
    obtain ⟨a, hrun, _, rfl⟩ := h.simulate Manager.Step
      (R := fun c a => Inv c ∧ abs c.server = a) (f := fun l => (l.1.request, l.2))
      (fun c l c' a ⟨hc, ha⟩ hstep =>
        ⟨abs c'.server, ha ▸ hstep.manager hc, hstep.inv hc, rfl⟩)
      ⟨initial_inv start koniec, abs_initial start koniec⟩
    exact hrun
  · intro m hm hpm hfits
    have hc : Inv c := Reachable.inv ⟨start, koniec, ls, h⟩
    obtain ⟨out, c', hstep⟩ := exists_openStep hc hm hfits
    exact ⟨out, c', hstep, hpm⟩

end Refinement

/-- Two processes contend for mutex 7.  The owner waits on condition 5, the other one gets the
mutex, wakes it, and dies. -/
theorem run_refines_manager_lock :
    letI := Minix.v321
    ∃ c, Run Step (Config.initial (fun _ => 0) (fun _ => 0))
        [(⟨1, CS_LOCK, 7, 0⟩, [⟨OK, 1⟩]), (⟨2, CS_LOCK, 7, 0⟩, []),
          (⟨1, CS_WAIT, 7, 5⟩, [⟨0, 2⟩]), (⟨2, CS_BROADCAST, 0, 5⟩, [⟨OK, 2⟩]),
          (⟨Minix.PM_PROC_NR, CS_EXIT, 2, 0⟩, [⟨0, 1⟩])] c ∧
      Run Manager.Step Manager.empty
        [(.lock 1 7, [⟨OK, 1⟩]), (.lock 2 7, []), (.wait 1 5 7, [⟨0, 2⟩]),
          (.broadcast 2 5, [⟨OK, 2⟩]), (.exit 2, [⟨0, 1⟩])] (abs c.server) ∧
      (abs c.server).mutexes.get 7 = some (1, []) := by
  let _ := Minix.v321
  obtain ⟨c, h⟩ := shows_woken (o := 1) (p := 2) (m := 7) (by decide) (by decide) 5
  exact ⟨c, h.run, (run_refines_manager h.run).1, by simp [h.abs_eq]⟩

/-! ## §6 Waiting lists and replies -/

section Bookkeeping

variable [Minix] {c : Config}

/-- **No request is lost, answered twice, or remembered in two places**: a process has an
unanswered request exactly when a mutex queue or a used condition lists it, and then over
all slots together once; every message the server sends goes to a process that has an
unanswered request at that moment. -/
theorem waiting_lists_and_replies (hc : Reachable c) :
    (∀ p, (p ∈ c.pending ↔ ∃ k, p ∈ listIn c.server k) ∧
      (p ∈ c.pending → ∑ k, (listIn c.server k).count p = 1) ∧
      (p ∉ c.pending → ∀ k, p ∉ listIn c.server k)) ∧
    ∀ l c', Step c l c' → AnswersPending (asked c.pending l.1.request) l.2 := by
  have hinv := hc.inv
  have hlisted : ∀ p, p ∈ c.pending ↔ Listed (listIn c.server) p := fun p => by
    rw [hinv.pending_iff, listed_listIn_iff hinv.tables]
  constructor
  · intro p
    refine ⟨hlisted p, fun hp => ?_, fun hp k hk => hp ((hlisted p).mpr ⟨k, hk⟩)⟩
    classical
    rw [(listIn_exclusive hinv.tables hinv.manager).sum_count, if_pos ((hlisted p).mp hp)]
  · intro l c' hstep
    have hans := hstep.answers hinv
    rw [answersPending_iff]
    refine ⟨hans.nodup, fun q hq => ?_⟩
    rw [mem_asked, hinv.pending_iff]
    exact hans.recipient q hq

end Bookkeeping

theorem waiting_lists_and_replies_queued :
    letI := Minix.v321
    ∃ c, Reachable c ∧ 2 ∈ c.pending ∧ ∑ k, (listIn c.server k).count 2 = 1 := by
  let _ := Minix.v321
  obtain ⟨c, h⟩ := shows_contended (o := 1) (p := 2) (m := 7) (by decide)
  have hpending : 2 ∈ c.pending := by
    rw [h.reachable.inv.pending_iff, h.abs_eq]
    exact waiting_single_iff.mpr (by simp)
  exact ⟨c, h.reachable, hpending, ((waiting_lists_and_replies h.reachable).1 2).2.1 hpending⟩

end MinixCv.Server

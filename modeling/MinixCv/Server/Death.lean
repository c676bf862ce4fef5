import MinixCv.LockManager.Moves
import MinixCv.Server.Sentinels

/-!
# Dead Processes

The server knows of a death by `CS_EXIT` alone, and it may still receive a request that the
process had posted before it died.

- `Forgotten`: a process that owns nothing and is in no list
- `Forgotten.handled`: it stays so, whatever others send and whatever the sentinels hold
- `forgotten_for_good_iff`: when a process that dies with a request posted is forgotten for
  good
-/

namespace MinixCv.Server

open MinixCv.Lib MinixCv.LockManager

/-! ## §1 Forgotten processes -/

/-- No used slot of `M` is owned by `p`, and `p` is in no queue and no used condition. -/
def Forgotten (s : ServerState) (p : ℤ) : Prop :=
  (∀ i, (s.M i).uzywany = true → (s.M i).wlasciciel ≠ p) ∧ ∀ k, p ∉ listIn s k

theorem forgotten_iff {s : ServerState} (hs : TableInv s) {p : ℤ} :
    Forgotten s p ↔ (abs s).Forgets p := by
  unfold Forgotten Manager.Forgets
  rw [← listed_listIn_iff hs]
  simp only [← owns_iff hs, Listed, not_exists]
  refine and_congr_left fun _ => ?_
  constructor
  · intro h m hex
    obtain ⟨i, hused, _, ho⟩ := hex
    exact h i hused ho
  · intro h i hused ho
    exact h (s.M i).numer ⟨i, hused, rfl, ho⟩

/-- The same by numbers instead of slots. -/
theorem forgotten_iff_nowhere {s : ServerState} (hs : TableInv s) {p : ℤ} :
    Forgotten s p ↔
      (∀ k, ¬ s.Owns p k) ∧ (∀ k, ¬ s.Queued p k) ∧ ∀ c k, ¬ s.Registered p c k := by
  rw [forgotten_iff hs, Manager.Forgets, Manager.waiting_iff]
  simp only [owns_iff hs, queued_iff hs, registered_iff hs, not_or, not_exists]

theorem Forgotten.not_queued {s : ServerState} {p : ℤ} (h : Forgotten s p) (i : Fin MAX_MUTEX) :
    p ∉ (s.M i).kolejka.elementy :=
  h.2 (.inl i)

/-- What has been sent does not matter. -/
private theorem forgotten_clear {s : ServerState} {p : ℤ} :
    Forgotten { s with sent := [] } p ↔ Forgotten s p := Iff.rfl

section Forgotten

variable [Minix] {s s' : ServerState} {p q : ℤ}

/-- The scans of `CS_EINTR` bring nobody into a list. -/
private theorem forgotten_wyslijEINTR (hs : TableInv s) (hp : Forgotten s p) :
    Forgotten (wyslijEINTR s q) p := by
  have hs' := wyslijEINTR_tableInv hs q
  obtain ⟨howns, hqueue, hreg⟩ := (forgotten_iff_nowhere hs).mp hp
  refine (forgotten_iff_nowhere hs').mpr ⟨fun k hk => ?_, fun k hk => ?_, fun c k hk => ?_⟩
  · exact howns k (wyslijEINTR_owns_iff.mp hk)
  · obtain ⟨i, hused, hkey, hmem⟩ := wyslijEINTR_queued_iff.mp hk
    exact hqueue k ⟨i, hused, hkey, ((s.M i).scanned_elementy_sublist q).subset hmem⟩
  · have hmem := (registered_iff_eraseP hs hs' (wyslijEINTR_CV s q)).mp hk
    exact hreg c k ((registered_iff hs).mpr (List.mem_of_mem_eraseP hmem))

/-- What a death sets free goes to somebody in a queue. -/
private theorem forgotten_usunZakonczonyProces (hs : TableInv s) (hp : Forgotten s p) :
    Forgotten (usunZakonczonyProces s q) p := by
  have hs' := usunZakonczonyProces_tableInv hs q
  obtain ⟨howns, hqueue, hreg⟩ := (forgotten_iff_nowhere hs).mp hp
  refine (forgotten_iff_nowhere hs').mpr ⟨fun k hk => ?_, fun k hk => ?_, fun c k hk => ?_⟩
  · obtain ⟨i, hused, hkey, ho⟩ := (usunZakonczonyProces_owns_iff hs).mp hk
    obtain ⟨hused', hkey'⟩ := Mutex.unlockedBy_keys hused
    obtain ⟨_, _, _, hz, _⟩ | ⟨y, t, _, _, hcons, hz, _⟩ | ⟨_, hz, _⟩ := (s.M i).unlockedBy_cases q
    · simp [hz] at hused
    · rw [hz] at ho
      exact hqueue _ ⟨i, hused', rfl, by rw [hcons, ← ho]; exact List.mem_cons_self⟩
    · rw [hz] at ho
      exact howns _ ⟨i, hused', rfl, ho⟩
  · obtain ⟨i, hused, hkey, hmem⟩ := (usunZakonczonyProces_queued_iff hs).mp hk
    obtain ⟨hused', hkey'⟩ := Mutex.unlockedBy_keys hused
    have hmem' := (((s.M i).unlockedBy q).scanned_elementy_sublist q).subset hmem
    exact hqueue _ ⟨i, hused', rfl, ((s.M i).unlockedBy_elementy_sublist q).subset hmem'⟩
  · have hmem := (registered_iff_eraseP hs hs' (usunZakonczonyProces_CV hs q)).mp hk
    exact hreg c k ((registered_iff hs).mpr (List.mem_of_mem_eraseP hmem))

/-- A `CS_EXIT` forgets whomever its sweeps forget. -/
private theorem forgotten_exit_iff {m : Message} {out : List Reply}
    (h : obsluz s m = .ok (s', out)) (hr : m.request = .exit q) :
    Forgotten s' p ↔ Forgotten (usunZakonczonyProces (s.przyjmij m.mSource) q) p := by
  have heq := h.symm.trans (obsluz_exit hr)
  rw [Except.ok.injEq, Prod.mk.injEq] at heq
  rw [heq.1]
  exact forgotten_clear

/-- A `CS_EINTR` forgets whomever its sweeps forget. -/
private theorem forgotten_interrupt_iff {m : Message} {out : List Reply}
    (h : obsluz s m = .ok (s', out)) (hr : m.request = .interrupt q) :
    Forgotten s' p ↔ Forgotten (wyslijEINTR (s.przyjmij m.mSource) q) p := by
  have heq := h.symm.trans (obsluz_interrupt hr)
  rw [Except.ok.injEq, Prod.mk.injEq] at heq
  rw [heq.1]
  exact forgotten_clear

/-- **Forgotten processes stay forgotten**, whatever others send, in any state of the tables. -/
theorem Forgotten.handled (hs : TableInv s) (hp : Forgotten s p) {m : Message} {out : List Reply}
    (h : obsluz s m = .ok (s', out)) (hsender : m.request.sender ≠ some p) : Forgotten s' p := by
  rcases m.notice_or_blind s with ⟨q, hr⟩ | ⟨q, hr⟩ | hblind
  · exact (forgotten_interrupt_iff h hr).mpr (forgotten_wyslijEINTR (hs.przyjmij m.mSource) hp)
  · exact (forgotten_exit_iff h hr).mpr (forgotten_usunZakonczonyProces (hs.przyjmij m.mSource) hp)
  · have hh := Handled.of_ok hs hblind h
    rw [forgotten_iff hh.tableInv, hh.abs_eq]
    exact ((forgotten_iff hs).mp hp).bystander hsender

end Forgotten

/-! ## §2 A request and a `CS_EXIT` in either order -/

/-- The order in which the server receives the request that a process has posted and the
    `CS_EXIT` about it. -/
inductive Order where
  | requestFirst
  | exitFirst
  deriving DecidableEq, Repr

def Order.first : Order → Message → Message → Message
  | .requestFirst, request, _ => request
  | .exitFirst, _, exit => exit

def Order.second : Order → Message → Message → Message
  | .requestFirst, _, exit => exit
  | .exitFirst, request, _ => request

/-- A step of `R` in which no request of `p` is received. -/
def Without (p : ℤ) (R : Config → Message × List Reply → Config → Prop) (c : Config)
    (l : Message × List Reply) (c' : Config) : Prop :=
  R c l c' ∧ l.1.request.sender ≠ some p

section Death

variable [Minix] {p : ℤ} {c c₁ c₂ c₃ : Config}

/-- A forgotten process stays forgotten while nothing is received from it. -/
theorem forgotten_run {ls : List (Message × List Reply)} {c' : Config}
    (h : Run (Without p AnyStep) c ls c') (hc : TableInv c.server) (hp : Forgotten c.server p) :
    TableInv c'.server ∧ Forgotten c'.server p := by
  refine h.invariant (I := fun c => TableInv c.server ∧ Forgotten c.server p) ?_ ⟨hc, hp⟩
  rintro c l c' ⟨hs, hforgot⟩ ⟨hstep, hsender⟩
  exact ⟨obsluz_tableInv hs hstep.handled, hforgot.handled hs hstep.handled hsender⟩

theorem inv_run {ls : List (Message × List Reply)} {c' : Config}
    (h : Run (Without p ClearStep) c ls c') (hc : Inv c) : Inv c' :=
  h.invariant (fun _ _ _ hc hstep => hstep.1.inv hc) hc

/-- A request does not depend on the sentinels. -/
private theorem clear_of_sender {l : Message × List Reply} {c' : Config} (h : AnyStep c l c')
    (hr : l.1.request.sender = some p) : ClearStep c l c' :=
  ⟨h, fun q hq => by simp [hq, Request.sender] at hr, fun q hq => by simp [hq, Request.sender] at hr⟩

/-- A `CS_EXIT` about a process that is in no queue whose head sentinel holds it. -/
private theorem clear_of_unhidden {l : Message × List Reply} {c' : Config} (h : AnyStep c l c')
    (hr : l.1.request = .exit p) (hp : Unhidden c.server p) : ClearStep c l c' := by
  refine ⟨h, fun q hq => by simp [hr] at hq, fun q hq => ?_⟩
  rw [hr, Request.exit.injEq] at hq
  exact hq ▸ hp

/-- After a `CS_EXIT` whose scans are not led astray, the process is forgotten. -/
private theorem forgotten_of_exit {l : Message × List Reply} {c' : Config} (hc : Inv c)
    (h : AnyStep c l c') (hr : l.1.request = .exit p) (hp : Unhidden c.server p) :
    Inv c' ∧ Forgotten c'.server p := by
  have hclear := clear_of_unhidden h hr hp
  have hinv := hclear.inv hc
  refine ⟨hinv, ?_⟩
  rw [forgotten_iff hinv.tables, (hclear.manager hc).1]
  simp only [hr]
  exact Manager.exit_forgets hc.manager p

/-- After any other `CS_EXIT` the process is still in a queue. -/
private theorem not_forgotten_of_exit {l : Message × List Reply} {c' : Config} (hc : Inv c)
    (h : AnyStep c l c') (hr : l.1.request = .exit p) (hp : ¬ Unhidden c.server p) :
    ¬ Forgotten c'.server p := by
  simp only [Unhidden, not_forall, ne_eq, not_not] at hp
  obtain ⟨i, hmem, hstart⟩ := hp
  -- somebody else owns the mutex that `p` is queued for
  have hused : (c.server.M i).uzywany = true := by
    by_contra hfree
    simp [hc.tables.free_empty i (by simpa using hfree)] at hmem
  have ho : (c.server.M i).wlasciciel ≠ p := fun ho =>
    hc.manager.owner_not_queued ((owns_iff hc.tables).mp ⟨i, hused, rfl, ho⟩)
      ((queued_iff hc.tables).mp ⟨i, hused, rfl, hmem⟩)
  rw [forgotten_exit_iff h.handled hr]
  intro hforgot
  exact hforgot.not_queued i
    (usunZakonczonyProces_fooled (hc.tables.przyjmij l.1.mSource) (i := i) ho hmem hstart)

/-- **Death with a request posted**: the request of `p` and the `CS_EXIT` about `p` are received
in either order, with any messages of others before, between and after.  From then on `p` owns
nothing and is in no list, if and only if the request is no lock received behind the `CS_EXIT`,
and the `CS_EXIT` is not received behind the request while a queue with `p` in it holds `p` in
its head sentinel.  The notifications before the later of the two do not depend on the
sentinels; those after it may. -/
theorem forgotten_for_good_iff {start koniec : Fin MAX_MUTEX → ℤ}
    {ls : List (Message × List Reply)} (hrun : Run ClearStep (Config.initial start koniec) ls c)
    (hposted : p ∉ c.pending) {request exit : Message} (hrequest : request.request.sender = some p)
    (hexit : exit.request = .exit p) (order : Order) {o₁ o₂ : List Reply}
    {between : List (Message × List Reply)}
    (h₁ : AnyStep c (order.first request exit, o₁) c₁)
    (hbetween : Run (Without p ClearStep) c₁ between c₂)
    (h₂ : AnyStep c₂ (order.second request exit, o₂) c₃) :
    (∀ rest c₄, Run (Without p AnyStep) c₃ rest c₄ → Forgotten c₄.server p) ↔
      (order = .exitFirst → request.mType ≠ CS_LOCK) ∧
      (order = .requestFirst → Unhidden c₂.server p) := by
  have hinv : Inv c :=
    hrun.invariant (fun _ _ _ hs hstep => hstep.inv hs) (initial_inv start koniec)
  -- once forgotten, forgotten for the rest of the run
  have hrest : TableInv c₃.server → Forgotten c₃.server p →
      ∀ rest c₄, Run (Without p AnyStep) c₃ rest c₄ → Forgotten c₄.server p :=
    fun hs hp rest c₄ hrun => (forgotten_run hrun hs hp).2
  cases order with
  | requestFirst =>
    simp only [reduceCtorEq, false_implies, true_and, true_implies]
    have hinv₁ : Inv c₁ := (clear_of_sender h₁ hrequest).inv hinv
    have hinv₂ : Inv c₂ := inv_run hbetween hinv₁
    constructor
    · intro hall
      by_contra hhidden
      exact not_forgotten_of_exit hinv₂ h₂ hexit hhidden (hall [] c₃ (.nil c₃))
    · intro hp
      -- the report of the death comes last and wipes out what the request did
      obtain ⟨hinv₃, hp₃⟩ := forgotten_of_exit hinv₂ h₂ hexit hp
      exact hrest hinv₃.tables hp₃
  | exitFirst =>
    simp only [true_implies, reduceCtorEq, false_implies, and_true]
    -- with its request posted `p` is in no list yet, so nothing hides it
    have hnowhere : ¬ (abs c.server).Waiting p := fun hw => hposted ((hinv.pending_iff p).mpr hw)
    have hunhidden : Unhidden c.server p := fun i hmem =>
      absurd ((listed_listIn_iff hinv.tables).mp ⟨.inl i, hmem⟩) hnowhere
    obtain ⟨hinv₁, hp₁⟩ := forgotten_of_exit hinv h₁ hexit hunhidden
    have hinv₂ : Inv c₂ := inv_run hbetween hinv₁
    have hany : Run (Without p AnyStep) c₁ between c₂ :=
      hbetween.mono fun _ _ _ h => ⟨h.1.toAnyStep, h.2⟩
    have hp₂ := (forgotten_iff hinv₂.tables).mp (forgotten_run hany hinv₁.tables hp₁).2
    -- the request is now that of an unknown process
    have hclear := clear_of_sender h₂ hrequest
    have hinv₃ : Inv c₃ := hclear.inv hinv₂
    obtain ⟨hnext, hrep⟩ := hclear.manager hinv₂
    simp only [Order.second] at hnext hrep
    constructor
    · intro hall hlock
      have hr : request.request = .lock p request.m1i1 :=
        request_eq_lock_iff.mpr ⟨hlock, Message.sender_eq hrequest, rfl⟩
      have hp₃ := (forgotten_iff hinv₃.tables).mp (hall [] c₃ (.nil c₃))
      rw [hnext, hr] at hp₃
      exact Manager.not_forgets_lock p request.m1i1 hp₃
    · intro hnot
      apply hrest hinv₃.tables
      rw [forgotten_iff hinv₃.tables, hnext]
      apply Manager.forgets_next hinv₂.manager (hclear.admits hinv₂) hrep hp₂
      intro m hr
      exact hnot (request_eq_lock_iff.mp hr).1

end Death

/-- The server reads PM's note of the death of process 1 before the lock that process 1 had
posted, and gives the mutex to the dead process. -/
theorem lock_after_exit_remembered :
    letI := Minix.v321
    ∃ o₁ c₁ o₂ c₂, Step (Config.initial (fun _ => 0) (fun _ => 0))
        (⟨Minix.PM_PROC_NR, CS_EXIT, 1, 0⟩, o₁) c₁ ∧
      Step c₁ (⟨1, CS_LOCK, 7, 0⟩, o₂) c₂ ∧ c₂.server.Owns 1 7 ∧ ¬ Forgotten c₂.server 1 := by
  let _ := Minix.v321
  obtain ⟨o₁, c₁, hstep₁, -, h₁⟩ := shows_initial.step (request_exit Minix.PM_PROC_NR 1 0)
    (fun _ => rfl) (by simp [Manager.Admits, Request.sender]) (by simp)
    (shows_initial.fits.exit 1)
  have hempty : Manager.empty.next (.exit 1) = Manager.empty := by
    apply Manager.ext <;> apply PartialMap.ext <;> rfl
  rw [hempty] at h₁
  obtain ⟨c₂, hstep₂, h₂⟩ := h₁.lock_free (p := 1) (m := 7)
    (Manager.not_waiting_empty 1) rfl (by simp [Manager.empty, MAX_MUTEX])
  have hown : c₂.server.Owns 1 7 := by
    rw [owns_iff h₂.reachable.inv.tables, h₂.abs_eq]
    exact ⟨[], by simp⟩
  refine ⟨o₁, c₁, _, c₂, hstep₁, hstep₂, hown, fun hforgot => ?_⟩
  obtain ⟨i, hused, _, ho⟩ := hown
  exact hforgot.1 i hused ho

/-- Process 1 owns mutex 7, for which process 2 has posted a lock when it dies; the server
reads the lock first. -/
theorem lock_before_exit_forgotten :
    letI := Minix.v321
    ∃ ls c o₁ c₁ o₂ c₂, Run Step (Config.initial (fun _ => 0) (fun _ => 0)) ls c ∧
      c.server.Owns 1 7 ∧ Step c (⟨2, CS_LOCK, 7, 0⟩, o₁) c₁ ∧ c₁.server.Queued 2 7 ∧
      Step c₁ (⟨Minix.PM_PROC_NR, CS_EXIT, 2, 0⟩, o₂) c₂ ∧
      ∀ rest c₃, Run (Without 2 AnyStep) c₂ rest c₃ → Forgotten c₃.server 2 := by
  let _ := Minix.v321
  obtain ⟨c, h⟩ := shows_owned 1 7
  obtain ⟨c₁, hstep₁, h₁⟩ := h.lock_taken (p := 2) (m := 7) (o := 1) (q := [])
    (by simp [waiting_single_iff]) (by simp) (by decide)
  obtain ⟨o₂, c₂, hstep₂, -, -⟩ := h₁.step (request_exit Minix.PM_PROC_NR 2 0)
    (fun _ => rfl) (by simp [Manager.Admits, Request.sender]) (by simp) (h₁.fits.exit 2)
  have hown : c.server.Owns 1 7 := by
    rw [owns_iff h.reachable.inv.tables, h.abs_eq]
    exact ⟨[], by simp⟩
  have hqueued : c₁.server.Queued 2 7 := by
    rw [queued_iff h₁.reachable.inv.tables, h₁.abs_eq]
    simp [Manager.queue]
  have hclear : ∀ {c c' l}, Step c l c' → ClearStep c l c' := fun h => h.toOpenStep.clear
  -- no sentinel holds 2
  have hunhidden : Unhidden c₁.server 2 := fun i _ => by
    rw [h₁.start_zero i]
    decide
  refine ⟨_, c, _, c₁, o₂, c₂, h.run, hown, hstep₁, hqueued, hstep₂, ?_⟩
  exact (forgotten_for_good_iff (h.run.mono fun _ _ _ h => hclear h)
    (hstep₁.admissible.answered 2 (by simp [request_lock, Request.sender]))
    (by simp [request_lock, Request.sender]) (request_exit Minix.PM_PROC_NR 2 0) .requestFirst
    (hclear hstep₁).toAnyStep (.nil c₁) (hclear hstep₂).toAnyStep).mpr
      ⟨by simp, fun _ => hunhidden⟩

end MinixCv.Server

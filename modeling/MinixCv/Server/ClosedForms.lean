import MinixCv.LockManager.ClosedForms
import MinixCv.Server.Runs
import Mathlib.Data.List.FinRange
import Mathlib.GroupTheory.Perm.Basic

/-!
# Broadcast And Exit On The Tables

What a handled `CS_BROADCAST` and a handled `CS_EXIT` leave behind, number by number, from
any configuration that the server reaches.

- `broadcast_closed_form`: the waiters of the condition, mutex by mutex
- `exit_closed_form`: the mutexes and lists of the dead process, whatever the order of the
  slots
-/

namespace MinixCv.Server

open MinixCv.Lib MinixCv.LockManager

/-! ## §1 The rounds of the broadcast loop -/

section Rounds

variable [Minix] {s : ServerState}

/-- What `cs_lock` returns in round `j` of the loop of `cs_broadcast` over slot `i`. -/
def odpowiedzRundy (s : ServerState) (i : Fin MAX_CV) (j : ℕ) : Except TableFault ℤ := do
  let s ← (List.range j).foldlM (zwrocMutex i) s
  let s := { s with aktualnyProces := (s.CV i).procesy j }
  let (response, _) ← csLock s ((s.CV i).muteksy j)
  .ok response

omit [Minix] in
/-- The waiters of a slot, cut at entry `j`. -/
private theorem czekajacy_split (cv : ConditionVariable) {j : ℕ} (hj : j < cv.size) :
    ∃ ws, cv.czekajacy =
      (List.range j).map (fun k => (cv.procesy k, cv.muteksy k)) ++ (cv.procesy j, cv.muteksy j) :: ws := by
  obtain ⟨n, hn⟩ := Nat.exists_eq_add_of_lt hj
  refine ⟨(List.range n).map fun k => (cv.procesy (j + 1 + k), cv.muteksy (j + 1 + k)), ?_⟩
  have hsize : cv.size = j + 1 + n := by omega
  rw [ConditionVariable.czekajacy, arrayPrefix, hsize, List.range_add, List.range_succ]
  simp

/-- The waiters that a broadcast serves own none of the mutexes they are given, so the loop
never hides an `EPERM` behind its `0`. -/
theorem odpowiedzRundy_ne_EPERM (hs : TableInv s) (ha : (abs s).WellFormed) {c : ℤ}
    {i : Fin MAX_CV} (hf : indeksUzywanegoCv s c = some i) {j : ℕ} (hj : j < (s.CV i).size) :
    odpowiedzRundy s i j ≠ .ok EPERM := by
  have hget := conditions_get_of_indeks hs hf
  obtain ⟨hused, -⟩ := indeks_cv_some hf
  obtain ⟨ws, hws⟩ := czekajacy_split (s.CV i) hj
  have hwake := ha.wakeable c
  rw [Manager.waiters_of_get hget, hws] at hwake
  have hnever := Manager.wake_never_refuses hwake
  unfold odpowiedzRundy
  rcases petla_spec hs hused (List.nodup_range (n := j)) (b := (abs s).forget c) rfl rfl with
    ⟨s₁, hres, hs₁, -, habs, -, hrest⟩ | ⟨hres, -⟩
  · -- before round `j` the first `j` waiters have been woken, and entry `j` is untouched
    obtain ⟨hp, hm⟩ := hrest j (by simp)
    have hs₂ : TableInv { s₁ with aktualnyProces := (s₁.CV i).procesy j } := hs₁.congr rfl rfl
    rw [← (lock_congr habs _ _).2] at hnever
    have hspec := csLock_spec hs₂ ((s₁.CV i).muteksy j)
    simp only [abs_aktualnyProces, hp, hm] at hspec
    simp only [hres, bind, Except.bind, hp, hm]
    generalize (s.CV i).procesy j = p at hspec hnever ⊢
    generalize (s.CV i).muteksy j = m at hspec hnever ⊢
    rcases hspec with ⟨s₂, hok, -⟩ | ⟨herr, -⟩
    · rw [hok]
      cases hl : ((abs s₁).lock p m).2 with
      | none => simpa using Ne.symm EPERM_ne_EDONTREPLY
      | some r => simpa [hl] using hnever
    · simp [herr]
  · simp [hres, bind, Except.bind]

end Rounds

/-! ## §2 Broadcast -/

/-- Forgetting a condition needs no room. -/
theorem Fits.forget {a : Manager} (h : Fits a) (c : ℤ) : Fits (a.forget c) where
  mutexes := h.mutexes
  conditions := by
    refine (PartialMap.count_le_of_dom fun k hk hnone => hk ?_).trans h.conditions
    by_cases hkc : k = c <;> simp [Manager.forget, hkc, hnone]
  waiters k := by
    rw [Manager.forget_waiters]
    split_ifs
    · exact Nat.zero_le _
    · exact h.waiters k

section Broadcast

variable [Minix] {c c' : Config}

open Classical in
/-- **Closed form of a broadcast**: of the waiters of condition `k`, those that want a free
mutex get it in the person of their first, the others stand behind its queue; those that want
a reserved one stand behind its queue.  The condition is gone, nothing else has changed.
Answered are the waiters that have become owners, in their order, and then the sender; no
waiter was refused a mutex of its own. -/
theorem broadcast_closed_form (hc : Reachable c) {src x k : ℤ} {out : List Reply}
    (hstep : Step c (⟨src, CS_BROADCAST, x, k⟩, out) c') {ws : List (ℤ × ℤ)}
    (hws : (abs c.server).waiters k = ws) :
    (∀ m,
      ((abs c.server).mutexes.get m = none →
        (∀ h t, Manager.wanting ws m = h :: t → (abs c'.server).mutexes.get m = some (h, t)) ∧
        (Manager.wanting ws m = [] → (abs c'.server).mutexes.get m = none)) ∧
      (∀ o q, (abs c.server).mutexes.get m = some (o, q) →
        (abs c'.server).mutexes.get m = some (o, q ++ Manager.wanting ws m))) ∧
    (abs c'.server).conditions.get k = none ∧
    (∀ d, d ≠ k → (abs c'.server).conditions.get d = (abs c.server).conditions.get d) ∧
    out = ((ws.filter fun w => decide (c'.server.Owns w.1 w.2)).map fun w => ⟨0, w.1⟩) ++
      [⟨OK, src⟩] ∧
    ∀ i j, indeksUzywanegoCv c.server k = some i → j < (c.server.CV i).size →
      odpowiedzRundy (c.server.przyjmij src) i j ≠ .ok EPERM := by
  subst hws
  have hinv := hc.inv
  obtain ⟨hnext, hrep⟩ := hstep.manager hinv
  have hwake := hinv.manager.wakeable k
  simp only [request_broadcast, Manager.next, Manager.broadcast_eq] at hnext
  simp only [request_broadcast, Manager.Replies, Manager.broadcast_eq] at hrep
  -- what the loop does to one mutex: those who want it ask for it in their order
  have hget : ∀ m, (abs c'.server).mutexes.get m =
      Manager.askedBy (Manager.wanting ((abs c.server).waiters k) m)
        ((abs c.server).mutexes.get m) := fun m => by
    rw [hnext, Manager.wake_get hwake]
    rfl
  refine ⟨fun m => ⟨fun hm => ⟨fun h t hht => ?_, fun hnil => ?_⟩, fun o q hm => ?_⟩,
    ?_, fun d hd => ?_, ?_, fun i j hf hj => ?_⟩
  · rw [hget, hm, hht]
    rfl
  · rw [hget, hm, hnil]
    rfl
  · rw [hget, hm]
    rfl
  · rw [hnext, Manager.wake_conditions]
    simp [Manager.forget]
  · rw [hnext, Manager.wake_conditions]
    simp [Manager.forget, hd]
  · rw [hrep, Manager.wake_replies hwake]
    simp only [owns_iff (hstep.inv hinv).tables, hnext]
  · exact odpowiedzRundy_ne_EPERM (hinv.tables.przyjmij src) hinv.manager hf hj

end Broadcast

/-- Process 1 waits on condition 3 with mutex 7; process 2 broadcasts condition 3. -/
theorem broadcast_closed_form_one_waiter :
    letI := Minix.v321
    ∃ c out c', Reachable c ∧ (abs c.server).waiters 3 = [(1, 7)] ∧
      Step c (⟨2, CS_BROADCAST, 0, 3⟩, out) c' ∧
      (abs c'.server).mutexes.get 7 = some (1, []) ∧ (abs c'.server).conditions.get 3 = none ∧
      out = [⟨0, 1⟩, ⟨OK, 2⟩] := by
  let _ := Minix.v321
  obtain ⟨c₁, h₁⟩ := shows_owned 1 7
  obtain ⟨c, -, h⟩ := h₁.wait_alone (p := 1) (m := 7) (k := 3) (by simp [waiting_single_iff])
    (by simp) rfl (by simp [MAX_CV])
  have hinv := h.reachable.inv
  have hwait : (abs c.server).waiters 3 = [(1, 7)] := by simp [h.abs_eq, Manager.waiters]
  have hfree : (abs c.server).mutexes.get 7 = none := by simp [h.abs_eq]
  have hidle : ¬ (abs c.server).Waiting 2 := by
    rw [h.abs_eq, Manager.waiting_iff]
    intro hcase
    rcases hcase with ⟨m, hm⟩ | ⟨d, m, hd⟩
    · by_cases hm7 : m = 7 <;> simp [Manager.queue, hm7] at hm
    · by_cases hd3 : d = 3 <;> simp [Manager.waiters, hd3] at hd
  -- the broadcast hands the one waiter its mutex, which needs one slot
  have hnext : (abs c.server).next (.broadcast 2 3) =
      ((abs c.server).forget 3).next (.lock 1 7) := by
    simp [Manager.next, Manager.broadcast_eq, hwait, Manager.wake]
  have hroom : (abs c.server).mutexes.count < MAX_MUTEX := by
    have hle : (abs c.server).mutexes.count ≤ (PartialMap.empty : PartialMap ℤ (ℤ × List ℤ)).count := by
      apply PartialMap.count_le_of_dom
      intro m hm
      by_cases hm7 : m = 7 <;> simp [h.abs_eq, hm7] at hm
    exact hle.trans_lt (by simp [MAX_MUTEX])
  have hfits : Fits ((abs c.server).next (.broadcast 2 3)) := by
    rw [hnext]
    exact Fits.lock_free (hinv.tables.fits.forget 3) hfree hroom
  rw [h.abs_eq] at hidle hfits
  obtain ⟨out, c', hstep, -, -⟩ := h.step (request_broadcast 2 0 3)
    (by simp [FromPM, CS_BROADCAST, CS_EINTR, CS_EXIT])
    (by simpa [Manager.Admits, Request.sender] using hidle) (by simp) hfits
  obtain ⟨hmut, hcond, -, hout, -⟩ := broadcast_closed_form h.reachable hstep hwait
  have hown := ((hmut 7).1 hfree).1 1 [] (by simp [Manager.wanting])
  have hown' : c'.server.Owns 1 7 := (owns_iff (hstep.inv hinv).tables).mpr ⟨_, hown⟩
  exact ⟨c, out, c', h.reachable, hwait, hstep, hown, hcond, by simp [hout, hown']⟩

/-! ## §3 Exit -/

/-- The same tables with their slots in another order. -/
def ServerState.przestaw (s : ServerState) (σ : Equiv.Perm (Fin MAX_MUTEX))
    (τ : Equiv.Perm (Fin MAX_CV)) : ServerState :=
  { s with M := fun i => s.M (σ i), CV := fun i => s.CV (τ i) }

section Exit

variable [Minix] {s : ServerState} {p : ℤ} {σ : Equiv.Perm (Fin MAX_MUTEX)}
  {τ : Equiv.Perm (Fin MAX_CV)}

omit [Minix] in
theorem przestaw_tableInv (hs : TableInv s) : TableInv (s.przestaw σ τ) where
  mutexUnique i j hi hj hij := σ.injective (hs.mutexUnique (σ i) (σ j) hi hj hij)
  cvUnique i j hi hj hij := τ.injective (hs.cvUnique (τ i) (τ j) hi hj hij)
  free_empty i := hs.free_empty (σ i)
  inhabited i := hs.inhabited (τ i)
  bounded i := hs.bounded (τ i)

/-- The sweeps of a death commute with reordering the slots, up to the order of the messages. -/
theorem usunZakonczonyProces_przestaw (hs : TableInv s) (hst : SentinelFree s p) :
    ∃ out, usunZakonczonyProces (s.przestaw σ τ) p =
        { (usunZakonczonyProces s p).przestaw σ τ with sent := s.sent ++ out } ∧
      (usunZakonczonyProces s p).sent.Perm (s.sent ++ out) := by
  rw [usunZakonczonyProces_eq hs hst.unfooled.unhidden,
    usunZakonczonyProces_eq (przestaw_tableInv hs) fun i _ => hst (σ i)]
  refine ⟨(List.finRange MAX_MUTEX).flatMap fun i => (s.M (σ i)).handover p, rfl, ?_⟩
  -- both lists of messages are collected from the same slots
  refine List.Perm.append_left _ ?_
  have hmap : ((List.finRange MAX_MUTEX).flatMap fun i => (s.M (σ i)).handover p) =
      ((List.finRange MAX_MUTEX).map σ).flatMap fun i => (s.M i).handover p := by
    rw [List.flatMap_map]
  rw [hmap]
  exact (σ.map_finRange_perm).symm.flatMap_right _

/-- PM, which sends nothing but notifications, waits for no answer. -/
theorem pm_not_pending {c c' : Config} {ls : List (Message × List Reply)} (h : Run Step c ls c')
    (hls : ∀ l ∈ ls, l.1.mSource = Minix.PM_PROC_NR → l.1.mType = CS_EINTR ∨ l.1.mType = CS_EXIT)
    (hc : Minix.PM_PROC_NR ∉ c.pending) : Minix.PM_PROC_NR ∉ c'.pending := by
  induction h with
  | nil _ => exact hc
  | @cons c c₁ _ l ls hstep _ ih =>
    refine ih (fun l' hl' => hls l' (List.mem_cons_of_mem _ hl')) ?_
    rw [hstep.pending, mem_unanswered, mem_asked]
    intro hboth
    rcases hboth with ⟨⟨hold | hsender, -⟩, -⟩
    · exact hc hold
    · -- a notification has no sender that could be answered
      rcases hls l (by simp) (Message.sender_eq hsender) with ht | ht
      · rw [request_eq_interrupt_iff.mpr ⟨ht, rfl⟩] at hsender
        simp [Request.sender] at hsender
      · rw [request_eq_exit_iff.mpr ⟨ht, rfl⟩] at hsender
        simp [Request.sender] at hsender

/-- A `CS_EXIT` is handled by the sweeps, whoever sends it. -/
theorem obsluz_cs_exit (s : ServerState) (src p x : ℤ) :
    obsluz s ⟨src, CS_EXIT, p, x⟩ =
      .ok ({ usunZakonczonyProces (s.przyjmij src) p with sent := [] },
        (usunZakonczonyProces (s.przyjmij src) p).sent) :=
  obsluz_exit (request_exit src p x)

/-- The current process is restored after the sweeps. -/
theorem usunZakonczonyProces_aktualnyProces (s : ServerState) (p : ℤ) :
    (usunZakonczonyProces s p).aktualnyProces = s.aktualnyProces := by
  unfold usunZakonczonyProces
  rfl

theorem obsluz_exit_przestaw {src x : ℤ} (hs : TableInv s) (hst : SentinelFree s p) {s' : ServerState}
    {out : List Reply} (h : obsluz s ⟨src, CS_EXIT, p, x⟩ = .ok (s', out)) :
    ∃ out', obsluz (s.przestaw σ τ) ⟨src, CS_EXIT, p, x⟩ = .ok (s'.przestaw σ τ, out') ∧
      out'.Perm out := by
  obtain ⟨out', heq, hperm⟩ := usunZakonczonyProces_przestaw (σ := σ) (τ := τ) (hs.przyjmij src) hst
  have hsame : (s.przestaw σ τ).przyjmij src = (s.przyjmij src).przestaw σ τ := rfl
  -- reordering the slots and clearing the log commute
  have hfold : ∀ t : ServerState,
      (⟨(t.przestaw σ τ).M, (t.przestaw σ τ).CV, (t.przestaw σ τ).aktualnyProces, []⟩ : ServerState) =
        ServerState.przestaw ⟨t.M, t.CV, t.aktualnyProces, []⟩ σ τ := fun _ => rfl
  rw [obsluz_cs_exit, Except.ok.injEq, Prod.mk.injEq] at h
  obtain ⟨hs', hout⟩ := h
  refine ⟨out', ?_, hout ▸ hperm.symm⟩
  rw [obsluz_cs_exit, hsame, heq, hfold, hs']
  rfl

variable {c : Config}

/-- PM's note of a death is handled in every reachable configuration. -/
theorem exists_exit_step (hc : Inv c) (p x : ℤ) (hst : SentinelFree c.server p) :
    ∃ out c', Step c (⟨Minix.PM_PROC_NR, CS_EXIT, p, x⟩, out) c' ∧
      c'.server.aktualnyProces = Minix.PM_PROC_NR := by
  have hadm : Admissible c ⟨Minix.PM_PROC_NR, CS_EXIT, p, x⟩ := by
    refine ⟨by simp [request_exit, Request.sender], fun q hq => ?_⟩
    simp only [request_exit, Request.exit.injEq, reduceCtorEq, false_or] at hq
    exact hq ▸ hst
  obtain ⟨out, c', hstep⟩ := exists_openStep hc hadm (hc.tables.fits.exit p)
  have hok := hstep.handled
  have hcurrent := usunZakonczonyProces_aktualnyProces (c.server.przyjmij Minix.PM_PROC_NR) p
  rw [obsluz_cs_exit, Except.ok.injEq, Prod.mk.injEq] at hok
  generalize usunZakonczonyProces (c.server.przyjmij Minix.PM_PROC_NR) p = s at hok hcurrent
  refine ⟨out, c', ⟨hstep, fun _ => rfl⟩, ?_⟩
  rw [← hok.1]
  exact hcurrent

/-- **Closed form of a process exit**: every mutex of `p` is freed or goes to the first in its
queue, every other queue and every condition loses `p`, and a condition that has lost its last
waiter is gone.  Told are the new owners, each once, and nobody else.  With the slots in any
other order the same happens. -/
theorem exit_closed_form {start koniec : Fin MAX_MUTEX → ℤ} {ls : List (Message × List Reply)}
    (hrun : Run Step (Config.initial start koniec) ls c) {p x : ℤ} (hst : SentinelFree c.server p) :
    ∃ out c', Step c (⟨Minix.PM_PROC_NR, CS_EXIT, p, x⟩, out) c' ∧
      (∀ k,
        ((abs c.server).mutexes.get k = none → (abs c'.server).mutexes.get k = none) ∧
        ((abs c.server).mutexes.get k = some (p, []) → (abs c'.server).mutexes.get k = none) ∧
        (∀ h t, (abs c.server).mutexes.get k = some (p, h :: t) →
          (abs c'.server).mutexes.get k = some (h, t)) ∧
        (∀ o q, (abs c.server).mutexes.get k = some (o, q) → o ≠ p →
          (abs c'.server).mutexes.get k = some (o, q.erase p))) ∧
      (∀ d, (abs c'.server).waiters d = ((abs c.server).waiters d).eraseP (fun w => w.1 == p) ∧
        ((abs c'.server).conditions.get d ≠ none ↔
          ((abs c.server).waiters d).eraseP (fun w => w.1 == p) ≠ [])) ∧
      (∀ r, r ∈ out ↔
        r.typ = 0 ∧ ∃ k t, (abs c.server).mutexes.get k = some (p, r.dokad :: t)) ∧
      (out.map (·.dokad)).Nodup ∧ p ∉ out.map (·.dokad) ∧
      ((∀ l ∈ ls, l.1.mSource = Minix.PM_PROC_NR →
          l.1.mType = CS_EINTR ∨ l.1.mType = CS_EXIT) →
        Minix.PM_PROC_NR ∉ out.map (·.dokad)) ∧
      c'.server.aktualnyProces = Minix.PM_PROC_NR ∧
      ∀ σ τ, ∃ out', obsluz (c.server.przestaw σ τ) ⟨Minix.PM_PROC_NR, CS_EXIT, p, x⟩ =
        .ok (c'.server.przestaw σ τ, out') ∧ out'.Perm out := by
  have hinv : Inv c := Reachable.inv ⟨start, koniec, ls, hrun⟩
  obtain ⟨out, c', hstep, hcurrent⟩ := exists_exit_step hinv p x hst
  obtain ⟨hnext, hrep⟩ := hstep.manager hinv
  have hans := hstep.answers hinv
  simp only [request_exit] at hnext hrep hans
  refine ⟨out, c', hstep, fun k => ?_, fun d => ⟨?_, ?_⟩, Manager.exit_replies hrep, hans.nodup,
    fun hp => ?_, fun hls hpm => ?_, ?_, fun σ τ => ?_⟩
  · rw [hnext]
    exact Manager.exit_get hinv.manager p k
  · rw [hnext]
    exact Manager.exit_waiters p d
  · rw [hnext]
    exact Manager.exit_condition p d
  · exact (hans.recipient p hp).2 rfl
  · -- only somebody who waits is told, and PM does not wait
    have hpend := pm_not_pending hrun hls (by simp [Config.initial])
    rcases (hans.recipient _ hpm).1 with hw | hs
    · exact hpend ((hinv.pending_iff _).mpr hw)
    · simp [Request.sender] at hs
  · exact hcurrent
  · exact obsluz_exit_przestaw hinv.tables hst hstep.handled

end Exit

/-- Process 1 dies with mutex 7, for which process 2 waits. -/
theorem exit_closed_form_contended :
    letI := Minix.v321
    ∃ c out c', Reachable c ∧ (abs c.server).mutexes.get 7 = some (1, [2]) ∧
      Step c (⟨Minix.PM_PROC_NR, CS_EXIT, 1, 0⟩, out) c' ∧
      (abs c'.server).mutexes.get 7 = some (2, []) ∧ ⟨0, 2⟩ ∈ out ∧
      c'.server.aktualnyProces = Minix.PM_PROC_NR := by
  let _ := Minix.v321
  obtain ⟨c, h⟩ := shows_contended (o := 1) (p := 2) (m := 7) (by decide)
  have hget : (abs c.server).mutexes.get 7 = some (1, [2]) := by simp [h.abs_eq]
  have hst : SentinelFree c.server 1 := by
    intro i
    simp [h.start_zero i]
  obtain ⟨out, c', hstep, hmutex, -, hout, -, -, -, hcurrent, -⟩ :=
    exit_closed_form (p := 1) (x := 0) h.run hst
  exact ⟨c, out, c', h.reachable, hget, hstep, (hmutex 7).2.2.1 2 [] hget,
    (hout ⟨0, 2⟩).mpr ⟨rfl, 7, [], hget⟩, hcurrent⟩

end MinixCv.Server

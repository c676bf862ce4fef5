import MinixCv.Server.Abstraction
import MinixCv.LockManager.WellFormed

/-!
# The Broadcast Loop

`csBroadcast` impersonates the waiters of a condition one after the other.  Each round
is the lock manager's `lock` for the waiter it serves, and changes nothing of the
condition slot but the entry it has served, so the whole loop is the lock manager's
`wake` of the waiters the slot had at the start.
-/

namespace MinixCv.Server

open MinixCv.Lib MinixCv.LockManager

variable [Minix] {s : ServerState}

/-! ## §1 One round of the loop -/

omit [Minix] in
/-- Overwriting the entries of a used condition slot keeps the invariant of the tables. -/
private theorem zeruj_tableInv (hs : TableInv s) {i : Fin MAX_CV} {x : ConditionVariable}
    (hused : (s.CV i).uzywany = true) (hnumer : x.numer = (s.CV i).numer)
    (hsize : x.size = (s.CV i).size) : TableInv (s.setCV i x) :=
  setCV_tableInv hs (SlotView.unique_update_used hs.cvUnique hused hnumer) fun _ =>
    hsize ▸ ⟨hs.inhabited i hused, hs.bounded i hused⟩

/-- The conditions after waiters of slot `i` have been served: only the entries of that slot
have changed. -/
structure BroadcastFrame (i : Fin MAX_CV) (s s' : ServerState) : Prop where
  other : ∀ j, j ≠ i → s'.CV j = s.CV j
  uzywany : (s'.CV i).uzywany = (s.CV i).uzywany
  numer : (s'.CV i).numer = (s.CV i).numer
  size : (s'.CV i).size = (s.CV i).size
  sentinels : SameSentinels s s'

/-- One round of the broadcast loop is the lock manager's `lock` for the waiter it serves. -/
private theorem zwrocMutex_spec (hs : TableInv s) {i : Fin MAX_CV}
    (hused : (s.CV i).uzywany = true) (j : ℕ) :
    (∃ s', zwrocMutex i s j = .ok s' ∧ TableInv s' ∧ BroadcastFrame i s s' ∧
      (abs s').mutexes = ((abs s).lock ((s.CV i).procesy j) ((s.CV i).muteksy j)).1.mutexes ∧
      s'.sent = s.sent ++
        (if ((abs s).lock ((s.CV i).procesy j) ((s.CV i).muteksy j)).2.isSome
          then [⟨0, (s.CV i).procesy j⟩] else []) ∧
      ∀ k, k ≠ j → (s'.CV i).procesy k = (s.CV i).procesy k ∧
        (s'.CV i).muteksy k = (s.CV i).muteksy k) ∨
    (zwrocMutex i s j = .error (.mutexSlot MAX_MUTEX) ∧ MAX_MUTEX <
      ((abs s).lock ((s.CV i).procesy j) ((s.CV i).muteksy j)).1.mutexes.count) := by
  -- the round starts by making the waiter the current process
  have hs₀ : TableInv { s with aktualnyProces := (s.CV i).procesy j } := hs.congr rfl rfl
  have hspec := csLock_spec hs₀ ((s.CV i).muteksy j)
  simp only [abs_aktualnyProces] at hspec
  simp only [zwrocMutex]
  generalize (s.CV i).procesy j = p at hspec ⊢
  generalize (s.CV i).muteksy j = m at hspec ⊢
  rcases hspec with ⟨s₁, hres, hs₁, habs, hsent, hCV, hakt, hsame⟩ | ⟨hres, hcount⟩
  · left
    have hCVi : s₁.CV i = s.CV i := by rw [hCV]
    -- the reply is sent exactly when the lock manager answers the waiter
    have hreply : (((abs s).lock p m).2.getD EDONTREPLY ≠ EDONTREPLY) ↔
        ((abs s).lock p m).2.isSome := by
      obtain ⟨_, h⟩ | ⟨_, _, h⟩ | ⟨_, _, _, _, h⟩ := (abs s).lock_cases p m <;> simp [h]
    let x : ConditionVariable :=
      { s.CV i with
        procesy := Function.update (s.CV i).procesy j 0
        muteksy := Function.update (s.CV i).muteksy j 0 }
    let s₂ : ServerState :=
      { s₁ with sent := s.sent ++ (if ((abs s).lock p m).2.isSome then [⟨0, p⟩] else []) }
    refine ⟨s₂.setCV i x, ?_, ?_, ?_, ?_, rfl, ?_⟩
    · simp only [hres, bind, Except.bind, hreply, Except.ok.injEq]
      by_cases hsome : ((abs s).lock p m).2.isSome = true
      · simp [hsome, wyslijWiadomosc, ServerState.setCV, hCVi, hsent, hakt, s₂, x]
      · simp [hsome, ServerState.setCV, hCVi, hsent, s₂, x]
    · refine zeruj_tableInv (s := s₂) (hs₁.congr rfl rfl) ?_ ?_ ?_ <;>
        simp [s₂, x, hCVi, hused]
    · refine ⟨?_, ?_, ?_, ?_, hsame⟩
      · intro k hk
        simp [ServerState.setCV, s₂, hk, hCV]
      all_goals simp [ServerState.setCV, x]
    · rw [abs_setCV_mutexes, ← habs]
      rfl
    · intro k hk
      simp [ServerState.setCV, x, hk]
  · right
    simp only [hres, bind, Except.bind, true_and]
    exact hcount

/-! ## §2 The whole loop -/

omit [Minix] in
theorem BroadcastFrame.refl (i : Fin MAX_CV) (s : ServerState) : BroadcastFrame i s s :=
  ⟨fun _ _ => rfl, rfl, rfl, rfl, .refl s⟩

omit [Minix] in
theorem BroadcastFrame.trans {i : Fin MAX_CV} {s s' s'' : ServerState}
    (h : BroadcastFrame i s s') (h' : BroadcastFrame i s' s'') : BroadcastFrame i s s'' where
  other j hj := (h'.other j hj).trans (h.other j hj)
  uzywany := h'.uzywany.trans h.uzywany
  numer := h'.numer.trans h.numer
  size := h'.size.trans h.size
  sentinels := h.sentinels.trans h'.sentinels

/-- `lock` reads and writes the mutexes only. -/
theorem lock_congr {a b : Manager} (h : a.mutexes = b.mutexes) (p m : ℤ) :
    (a.lock p m).1.mutexes = (b.lock p m).1.mutexes ∧ (a.lock p m).2 = (b.lock p m).2 := by
  unfold Manager.lock
  rw [h]
  cases b.mutexes.get m with
  | none => exact ⟨rfl, rfl⟩
  | some x =>
    obtain ⟨o, q⟩ := x
    by_cases ho : o = p <;> simp [ho, h]

theorem wake_count_mono (a : Manager) (ws : List (ℤ × ℤ)) :
    a.mutexes.count ≤ (a.wake ws).1.mutexes.count := by
  induction ws generalizing a with
  | nil => exact le_refl _
  | cons w ws ih =>
    exact (PartialMap.count_le_of_dom fun _ hk => Manager.lock_bound hk).trans (ih _)

/-- The loop wakes the processes it visits, in the order in which it visits them, and leaves
the other entries as they are. -/
theorem petla_spec (hs : TableInv s) {i : Fin MAX_CV} (hused : (s.CV i).uzywany = true)
    {js : List ℕ} (hjs : js.Nodup) {b : Manager} (hb : b.mutexes = (abs s).mutexes)
    {ws : List (ℤ × ℤ)} (hws : ws = js.map fun j => ((s.CV i).procesy j, (s.CV i).muteksy j)) :
    (∃ s', js.foldlM (zwrocMutex i) s = .ok s' ∧ TableInv s' ∧ BroadcastFrame i s s' ∧
      (abs s').mutexes = (b.wake ws).1.mutexes ∧ s'.sent = s.sent ++ (b.wake ws).2 ∧
      ∀ k, k ∉ js → (s'.CV i).procesy k = (s.CV i).procesy k ∧
        (s'.CV i).muteksy k = (s.CV i).muteksy k) ∨
    (js.foldlM (zwrocMutex i) s = .error (.mutexSlot MAX_MUTEX) ∧
      MAX_MUTEX < (b.wake ws).1.mutexes.count) := by
  -- the entries are zeroed once served, so `ws` is fixed before the loop
  induction js generalizing s b ws with
  | nil =>
    subst hws
    exact Or.inl ⟨s, rfl, hs, .refl i s, by simp [Manager.wake, hb], by simp [Manager.wake],
      fun _ _ => ⟨rfl, rfl⟩⟩
  | cons j js ih =>
    obtain ⟨hj, hjs⟩ := List.nodup_cons.mp hjs
    rw [List.map_cons] at hws
    subst hws
    obtain ⟨hmut, hrep⟩ := lock_congr hb ((s.CV i).procesy j) ((s.CV i).muteksy j)
    rw [List.foldlM_cons, Manager.wake, hrep]
    rcases zwrocMutex_spec hs hused j with ⟨s₁, hres, hs₁, hframe, habs, hsent, hrest⟩ | ⟨hres, hcount⟩
    · -- the entries still to be visited are as they were
      have hentries : (js.map fun j => ((s.CV i).procesy j, (s.CV i).muteksy j)) =
          js.map fun j => ((s₁.CV i).procesy j, (s₁.CV i).muteksy j) := by
        apply List.map_congr_left
        intro k hk
        obtain ⟨h₁, h₂⟩ := hrest k fun h => hj (h ▸ hk)
        rw [h₁, h₂]
      have hb₁ : (b.lock ((s.CV i).procesy j) ((s.CV i).muteksy j)).1.mutexes = (abs s₁).mutexes := by
        rw [hmut, habs]
      simp only [hres, bind, Except.bind]
      rcases ih hs₁ (hframe.uzywany.trans hused) hjs hb₁ hentries with
        ⟨s', hres', hs', hframe', habs', hsent', hrest'⟩ | hfault
      · refine Or.inl ⟨s', hres', hs', hframe.trans hframe', habs', ?_, fun k hk => ?_⟩
        · rw [hsent', hsent, List.append_assoc]
        · rw [List.mem_cons, not_or] at hk
          exact ⟨(hrest' k hk.2).1.trans (hrest k hk.1).1, (hrest' k hk.2).2.trans (hrest k hk.1).2⟩
      · exact Or.inr hfault
    · right
      simp only [hres, bind, Except.bind, true_and]
      -- later rounds free no mutex, so the count stays too large
      rw [← hmut] at hcount
      exact hcount.trans_le (wake_count_mono _ _)

/-! ## §3 `csBroadcast` -/

omit [Minix] in
theorem forget_of_none {a : Manager} {c : ℤ} (h : a.conditions.get c = none) : a.forget c = a := by
  apply Manager.ext
  · rfl
  · apply PartialMap.ext
    funext k
    by_cases hk : k = c <;> simp [Manager.forget, hk, h]

/-- **Specification of `csBroadcast`**: the lock manager's `broadcast`, or a write behind the
mutex table when the woken processes need more slots than there are. -/
theorem csBroadcast_spec (hs : TableInv s) (c : ℤ) :
    (∃ s', csBroadcast s c = .ok (OK, s') ∧ TableInv s' ∧ abs s' = ((abs s).broadcast c).1 ∧
      s'.sent = s.sent ++ ((abs s).broadcast c).2 ∧
      s'.aktualnyProces = s.aktualnyProces ∧ SameSentinels s s') ∨
    (csBroadcast s c = .error (.mutexSlot MAX_MUTEX) ∧
      MAX_MUTEX < ((abs s).broadcast c).1.mutexes.count) := by
  rw [Manager.broadcast_eq]
  unfold csBroadcast
  cases hf : indeksUzywanegoCv s c with
  | none =>
    have hnone := indeks_cv_none hf
    left
    rw [forget_of_none hnone]
    refine ⟨s, rfl, hs, ?_, ?_, rfl, .refl s⟩ <;> simp [Manager.waiters, hnone, Manager.wake]
  | some i =>
    have hget := conditions_get_of_indeks hs hf
    obtain ⟨hused, rfl⟩ := indeks_cv_some hf
    rw [Manager.waiters_of_get hget]
    rcases petla_spec hs hused List.nodup_range (b := (abs s).forget (s.CV i).numer) rfl rfl with
      ⟨s₁, hres, hs₁, hframe, habs, hsent, -⟩ | ⟨hres, hcount⟩
    · left
      -- after the loop the slot is freed and the current process restored
      let x : ConditionVariable := { s₁.CV i with uzywany := false, size := 0, numer := 0 }
      let s₂ : ServerState := { s₁ with aktualnyProces := s.aktualnyProces }
      refine ⟨s₂.setCV i x, by simp only [hres, bind, Except.bind]; rfl, ?_, ?_, hsent, rfl,
        hframe.sentinels⟩
      · exact setCV_tableInv (s := s₂) (hs₁.congr rfl rfl)
          (SlotView.unique_update_free hs₁.cvUnique rfl) fun h => by simp [x] at h
      · apply Manager.ext
        · exact habs
        · -- outside slot `i` the conditions are those from before the loop
          have hCV : Function.update s₁.CV i x = Function.update s.CV i x := by
            funext j
            by_cases hj : j = i
            · simp [hj]
            · simp [hj, hframe.other j hj]
          rw [Manager.wake_conditions]
          show cvView.toMap (Function.update s₁.CV i x) = _
          rw [hCV, SlotView.toMap_update_free hs.cvUnique hused rfl]
          rfl
    · right
      simp only [hres, bind, Except.bind, true_and]
      exact hcount

end MinixCv.Server

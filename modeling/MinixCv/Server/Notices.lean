import MinixCv.Server.Refinement

/-!
# Notifications, Whatever The Sentinels Hold

The server carries out every `CS_EINTR` and `CS_EXIT`, about any process and with anything in
the sentinels of the queues.  Here the state after one is read slot by slot.

- `wyslijEINTR_owns_iff`, `wyslijEINTR_queued_iff`, `registered_iff_eraseP`: what everybody
  owns and waits for after a `CS_EINTR`
- `usunZakonczonyProces_…`: the same after a `CS_EXIT`
-/

namespace MinixCv.Server

open MinixCv.Lib MinixCv.LockManager

/-! ## §1 One list -/

section Lists

variable {x : Mutex} {p q : ℤ}

/-- The scan leaves `p` in the queue if the head sentinel holds it, or if it is in the queue
more than once. -/
theorem Mutex.mem_scanned_self (hp : p ∈ x.kolejka.elementy) :
    p ∈ (x.scanned p).kolejka.elementy ↔
      x.kolejka.start = p ∨ x.kolejka.elementy.count p ≠ 1 := by
  unfold scanned
  split_ifs with hstart
  · simp [hp, hstart]
  · have hpos := List.count_pos_iff.mpr hp
    have hmem : p ∈ (x.dropProc p).kolejka.elementy ↔ 0 < (x.kolejka.elementy.erase p).count p :=
      List.count_pos_iff.symm
    rw [hmem, List.count_erase_self]
    simp only [hstart, false_or]
    omega

end Lists

/-! ## §2 `CS_EINTR` -/

section Conditions

variable {s s' : ServerState} {p q c k : ℤ}

/-- The waiters after a sweep over the used conditions. -/
theorem registered_iff_eraseP (hs : TableInv s) (hs' : TableInv s')
    (hCV : s'.CV = fun i => (s.CV i).dropProc p) :
    s'.Registered q c k ↔ (q, k) ∈ ((abs s).waiters c).eraseP fun w => w.1 == p := by
  have hmap : (abs s').conditions = ((abs s).remove p).conditions := by
    rw [← toMap_cv_dropProc hs p]
    exact congrArg cvView.toMap hCV
  rw [registered_iff hs', Manager.waiters, hmap]
  change (q, k) ∈ ((abs s).remove p).waiters c ↔ _
  rw [Manager.remove_waiters]

end Conditions

section Interrupt

variable [Minix] {s : ServerState} {p q k : ℤ}

theorem wyslijEINTR_CV (s : ServerState) (p : ℤ) :
    (wyslijEINTR s p).CV = fun i => (s.CV i).dropProc p := by
  rw [wyslijEINTR_scans]

theorem wyslijEINTR_owns_iff : (wyslijEINTR s p).Owns q k ↔ s.Owns q k := by
  rw [wyslijEINTR_scans]
  simp [ServerState.Owns]

theorem wyslijEINTR_queued_iff : (wyslijEINTR s p).Queued q k ↔
    ∃ i, (s.M i).uzywany = true ∧ (s.M i).numer = k ∧
      q ∈ ((s.M i).scanned p).kolejka.elementy := by
  rw [wyslijEINTR_scans]
  simp [ServerState.Queued]

/-- Nothing but `EINTR` is sent, and to nobody but `p`. -/
theorem wyslijEINTR_replies {r : Reply} (h : r ∈ (wyslijEINTR s p).sent) :
    r ∈ s.sent ∨ r = ⟨EINTR, p⟩ := by
  rw [wyslijEINTR_scans] at h
  simp only [List.append_assoc, List.mem_append, List.mem_flatMap, List.mem_finRange, true_and] at h
  rcases h with h | ⟨i, h⟩ | ⟨i, h⟩
  · exact Or.inl h
  · split_ifs at h <;> simp_all
  · split_ifs at h <;> simp_all

end Interrupt

/-! ## §3 `CS_EXIT` -/

section Exit

variable [Minix] {s : ServerState} {p q k : ℤ}

theorem usunZakonczonyProces_CV (hs : TableInv s) (p : ℤ) :
    (usunZakonczonyProces s p).CV = fun i => (s.CV i).dropProc p := by
  rw [usunZakonczonyProces_scans hs]

theorem usunZakonczonyProces_owns_iff (hs : TableInv s) :
    (usunZakonczonyProces s p).Owns q k ↔
      ∃ i, ((s.M i).unlockedBy p).uzywany = true ∧ ((s.M i).unlockedBy p).numer = k ∧
        ((s.M i).unlockedBy p).wlasciciel = q := by
  rw [usunZakonczonyProces_scans hs]
  simp [ServerState.Owns]

theorem usunZakonczonyProces_queued_iff (hs : TableInv s) :
    (usunZakonczonyProces s p).Queued q k ↔
      ∃ i, ((s.M i).unlockedBy p).uzywany = true ∧ ((s.M i).unlockedBy p).numer = k ∧
        q ∈ (((s.M i).unlockedBy p).scanned p).kolejka.elementy := by
  rw [usunZakonczonyProces_scans hs]
  simp [ServerState.Queued]

omit [Minix] in
/-- A slot that `p` does not own is left as it is by the unlocking. -/
theorem Mutex.unlockedBy_of_ne {x : Mutex} (ho : x.wlasciciel ≠ p) : x.unlockedBy p = x := by
  simp [Mutex.unlockedBy, ho]

end Exit

end MinixCv.Server

import MinixCv.LockManager.ClosedForms

/-!
# Interrupting A Waiting Process

A process that waits for a mutex, in its queue or on a condition, is interrupted and asks
for the mutex anew.

- `resume_resumed`: what the two requests together do, number by number
- `resume_resume`: doing it again to a process that waits again changes nothing
-/

namespace MinixCv.LockManager.Manager

open MinixCv.Lib MinixCv.Server

variable {a a' : Manager} {p m : ℤ}

/-- `p` waits for mutex `m`, in its queue or on a condition. -/
def Wants (a : Manager) (p m : ℤ) : Prop := p ∈ a.queue m ∨ ∃ c, (p, m) ∈ a.waiters c

/-- `a'` is `a` with `p` taken out of the list it was in and then made the owner of `m` if
    nobody was, or else put at the tail of the queue of `m`. -/
structure Resumed (a : Manager) (p m : ℤ) (a' : Manager) : Prop where
  free : a.mutexes.get m = none → a'.mutexes.get m = some (p, [])
  reserved : ∀ o q, a.mutexes.get m = some (o, q) →
    a'.mutexes.get m = some (o, q.erase p ++ [p])
  other_mutexes : ∀ k, k ≠ m → a'.mutexes.get k = a.mutexes.get k
  waiters : ∀ c, a'.waiters c = (a.waiters c).erase (p, m)
  in_use : ∀ c, a'.conditions.get c ≠ none ↔ (a.waiters c).erase (p, m) ≠ []
  other_conditions : ∀ c, (p, m) ∉ a.waiters c → a'.conditions.get c = a.conditions.get c

/-! ## §1 Taking the process out of its list -/

theorem Wants.waiting (h : a.Wants p m) : a.Waiting p := by
  rcases h with h | ⟨c, h⟩
  · exact waiting_of_queue h
  · exact waiting_of_waiters h

/-- Erasing by the process is erasing the entry, if the process has no other entry. -/
private theorem eraseP_eq_erase {l : List (ℤ × ℤ)} (h : ∀ k, (p, k) ∈ l → k = m) :
    (l.eraseP fun w => w.1 == p) = l.erase (p, m) := by
  induction l with
  | nil => rfl
  | cons w l ih =>
    obtain ⟨x, k⟩ := w
    by_cases hx : x = p
    · subst hx
      have hk : k = m := h k (by simp)
      simp [hk]
    · have hne : ¬ ((x, k) == (p, m)) = true := by simp [hx]
      rw [List.eraseP_cons_of_neg (by simpa using hx), List.erase_cons_tail hne,
        ih fun k' hk' => h k' (List.mem_cons_of_mem _ hk')]

theorem WellFormed.eraseP_waiters (ha : a.WellFormed) (h : a.Wants p m) (c : ℤ) :
    ((a.waiters c).eraseP fun w => w.1 == p) = (a.waiters c).erase (p, m) :=
  eraseP_eq_erase fun _ hk => (ha.wanted_unique h (Or.inr ⟨c, hk⟩)).symm

/-- No queue but that of `m` is touched. -/
theorem WellFormed.remove_get_of_ne (ha : a.WellFormed) (h : a.Wants p m) {k : ℤ} (hk : k ≠ m) :
    (a.remove p).mutexes.get k = a.mutexes.get k := by
  cases hget : a.mutexes.get k with
  | none => simp [remove, hget]
  | some x =>
    obtain ⟨o, q⟩ := x
    have hp : p ∉ q := by
      intro hp
      refine hk (ha.wanted_unique (Or.inl ?_) h)
      rwa [queue_of_get hget]
    simp [remove, hget, List.erase_of_not_mem hp]

theorem remove_condition_of_not_mem (ha : a.WellFormed) (h : a.Wants p m) {c : ℤ}
    (hc : (p, m) ∉ a.waiters c) : (a.remove p).conditions.get c = a.conditions.get c := by
  cases hget : a.conditions.get c with
  | none => simp [remove, hget]
  | some l =>
    have hl : (l.eraseP fun w => w.1 == p) = l := by
      rw [← waiters_of_get hget, ha.eraseP_waiters h c, List.erase_of_not_mem hc]
    have hne : l ≠ [] := fun hnil => ha.condition_inhabited c (hnil ▸ hget)
    simp [remove, hget, dropWaiter, hl, hne]

/-! ## §2 Asking again -/

variable [Minix]

/-- The interruption and the request that follows it. -/
def resume (a : Manager) (p m : ℤ) : Manager := ((a.remove p).lock p m).1

omit [Minix] in
/-- The interrupted process owns nothing more than before, so it is not refused. -/
private theorem not_owns_remove (ha : a.WellFormed) (h : a.Wants p m) : ¬ (a.remove p).Owns p m :=
  fun ho => ha.wanted_not_owned h (remove_owns_iff.mp ho)

/-- **What an interruption and the request after it do together.** -/
theorem resume_resumed (ha : a.WellFormed) (h : a.Wants p m) : a.Resumed p m (a.resume p m) := by
  have hlock := lock_get (not_owns_remove ha h)
  refine ⟨fun hm => ?_, fun o q hm => ?_, fun k hk => ?_, fun c => ?_, fun c => ?_, fun c hc => ?_⟩
  · rw [resume, hlock, if_pos rfl]
    simp [remove, hm, askedBy]
  · rw [resume, hlock, if_pos rfl]
    simp [remove, hm, askedBy]
  · rw [resume, hlock, if_neg (Ne.symm hk), ha.remove_get_of_ne h hk]
  · rw [resume, lock_waiters, remove_waiters, ha.eraseP_waiters h]
  · rw [resume, lock_conditions, ← ha.eraseP_waiters h c, ← exit_condition]
    rfl
  · rw [resume, lock_conditions, remove_condition_of_not_mem ha h hc]

/-- The request is answered at once exactly when the mutex is free. -/
theorem resume_reply (ha : a.WellFormed) (h : a.Wants p m) :
    ((a.remove p).lock p m).2 = if a.mutexes.get m = none then some OK else none := by
  obtain ⟨hm, hl⟩ | ⟨q, hm, hl⟩ | ⟨o, q, hm, ho, hl⟩ := (a.remove p).lock_cases p m
  · cases hget : a.mutexes.get m with
    | none => simp [hl]
    | some x => simp [remove, hget] at hm
  · exact absurd ⟨q, hm⟩ (not_owns_remove ha h)
  · cases hget : a.mutexes.get m with
    | none => simp [remove, hget] at hm
    | some x => simp [hl]

/-- A process that waits again stands at the tail of the queue. -/
theorem wants_resume (ha : a.WellFormed) (h : a.Wants p m) (hm : a.mutexes.get m ≠ none) :
    (a.resume p m).Wants p m := by
  obtain ⟨⟨o, q⟩, hget⟩ := Option.ne_none_iff_exists'.mp hm
  left
  rw [queue_of_get ((resume_resumed ha h).reserved o q hget)]
  simp

/-- **Once more changes nothing**: interrupting a process that waits again leaves everything
as it is. -/
theorem resume_resume (ha : a.WellFormed) (h : a.Wants p m) (hm : a.mutexes.get m ≠ none)
    (ha' : (a.resume p m).WellFormed) : (a.resume p m).resume p m = a.resume p m := by
  obtain ⟨⟨o, q⟩, hget⟩ := Option.ne_none_iff_exists'.mp hm
  have hget' := (resume_resumed ha h).reserved o q hget
  have hwants := wants_resume ha h hm
  have hagain := resume_resumed ha' hwants
  -- in the queue it stands last, and it is on no condition any more
  have hq : p ∉ q.erase p := by
    have hnodup := ha'.queue_nodup m
    rw [queue_of_get hget', List.nodup_append] at hnodup
    exact fun hp => hnodup.2.2 p hp p (by simp) rfl
  have hno : ∀ c, (p, m) ∉ (a.resume p m).waiters c := by
    intro c hc
    have hplace := ha'.exclusive.eq_of_mem (i := .inl m) (j := .inr c) (a := p)
      (by simp [place, queue_of_get hget']) (List.mem_map.mpr ⟨(p, m), hc, rfl⟩)
    simp at hplace
  apply Manager.ext
  · apply PartialMap.ext
    funext k
    by_cases hk : k = m
    · subst hk
      rw [hagain.reserved o _ hget', hget', List.erase_append_right _ hq]
      simp
    · exact hagain.other_mutexes k hk
  · apply PartialMap.ext
    funext c
    exact hagain.other_conditions c (hno c)

end MinixCv.LockManager.Manager

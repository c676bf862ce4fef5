import MinixCv.LockManager.Interruption
import MinixCv.Server.Runs

/-!
# An Interrupted Wait At The Server

`CS_EINTR` takes a process out of the list it is in.  The request for the mutex that the
process sends next gives it the mutex, or puts it at the tail of the queue.

- `obsluz_interrupted`, `obsluz_resumed`: the two messages
- `wait_resumed`: both of them, after any run, and both once more
-/

namespace MinixCv.Server

open MinixCv.Lib MinixCv.LockManager

section Interruption

variable [Minix] {s s₁ : ServerState} {x : Message} {c : Config} {p m : ℤ}

/-- Neither the interruption nor the request after it needs room, except for a slot for `m`
    if nobody has it. -/
theorem fits_resume {a : Manager} (ha : a.WellFormed) (h : Fits a) (hw : a.Wants p m)
    (hroom : a.mutexes.get m = none → a.mutexes.count < MAX_MUTEX) : Fits (a.resume p m) := by
  have hdom : ∀ k, (a.remove p).mutexes.get k ≠ none → a.mutexes.get k ≠ none := by
    intro k hk hnone
    exact hk (by simp [Manager.remove, hnone])
  -- a free mutex takes a slot, for which there is room; a taken one only a queue longer
  cases hm : a.mutexes.get m with
  | none =>
    have hcount := (PartialMap.count_le_of_dom hdom).trans_lt (hroom hm)
    exact (h.remove p).lock_free (by simp [Manager.remove, hm]) hcount
  | some x =>
    refine ⟨?_, ?_, fun c => ?_⟩
    · refine (PartialMap.count_le_of_dom fun k hk hnone => hk ?_).trans h.mutexes
      have hkm : k ≠ m := fun hkm => by simp [hkm, hm] at hnone
      rw [(Manager.resume_resumed ha hw).other_mutexes k hkm, hnone]
    · rw [Manager.resume, Manager.lock_conditions]
      exact (h.remove p).conditions
    · rw [Manager.resume, Manager.lock_waiters]
      exact (h.remove p).waiters c

/-- The notification takes `p` out of its list and tells it `EINTR`. -/
theorem obsluz_interrupted (hs : TableInv s) (ha : (abs s).WellFormed) (hst : SentinelFree s p)
    (hw : (abs s).Waiting p) (hx : x.request = .interrupt p) :
    ∃ s₁, obsluz s x = .ok (s₁, [⟨EINTR, p⟩]) ∧ abs s₁ = (abs s).remove p ∧
      SameSentinels s s₁ := by
  have hscan : x.Scannable s := by
    intro q hq
    rw [hx] at hq
    rcases hq with hq | hq <;> cases hq
    exact hst
  have hfits : Fits ((abs s).next x.request) := by
    rw [hx]
    exact hs.fits.remove p
  obtain ⟨⟨s₁, o₁⟩, h₁⟩ := (obsluz_ok_iff hs).mpr hfits
  have hh := Handled.of_ok hs hscan.blind h₁
  rw [hx] at hh
  -- `p` waits, so the server answers it `EINTR` and nothing else
  have hout : o₁ = [⟨EINTR, p⟩] := by
    rcases hh.replies ha with ⟨-, hout⟩ | ⟨hnot, -⟩
    · exact hout
    · exact absurd hw hnot
  subst hout
  exact ⟨s₁, h₁, hh.abs_eq, hh.sentinels⟩

/-- The request for the mutex, in the tables without `p`. -/
theorem obsluz_resumed (hs : TableInv s) (ha : (abs s).WellFormed) (hwants : (abs s).Wants p m)
    (hroom : (abs s).mutexes.get m = none → (abs s).mutexes.count < MAX_MUTEX)
    (hs₁ : TableInv s₁) (habs₁ : abs s₁ = (abs s).remove p) (hx : x.request = .lock p m) :
    ∃ s₂, obsluz s₁ x = .ok (s₂, if (abs s).mutexes.get m = none then [⟨OK, p⟩] else []) ∧
      abs s₂ = (abs s).resume p m ∧ SameSentinels s₁ s₂ := by
  have hfits : Fits ((abs s₁).next x.request) := by
    rw [hx, habs₁]
    exact fits_resume ha hs.fits hwants hroom
  obtain ⟨⟨s₂, o₂⟩, h₂⟩ := (obsluz_ok_iff hs₁).mpr hfits
  have hh := Handled.of_ok hs₁ (not_notification hx (by simp) s₁).blind h₂
  rw [hx] at hh
  -- without `p` the lock manager is well formed, and answers the new request
  have hwell : (abs s₁).WellFormed := habs₁ ▸ Manager.remove_wellFormed ha p
  have hrep := hh.replies hwell
  rw [Manager.Replies, habs₁, Manager.resume_reply ha hwants] at hrep
  have hout : o₂ = if (abs s).mutexes.get m = none then [⟨OK, p⟩] else [] := by
    rw [hrep]
    split_ifs <;> rfl
  refine ⟨s₂, hout ▸ h₂, ?_, hh.sentinels⟩
  rw [hh.abs_eq, habs₁]
  rfl

private theorem step_of_ok {out : List Reply} (hadm : Admissible c x) (hpm : FromPM x)
    (hok : obsluz c.server x = .ok (s, out)) : ∃ c', c'.server = s ∧ Step c (x, out) c' :=
  ⟨⟨s, unanswered (asked c.pending x.request) out⟩, rfl, ⟨hadm, hok, rfl⟩, hpm⟩

/-- The notification and the request after it, as steps of the server. -/
theorem exists_resumed (hc : Reachable c) (hwants : (abs c.server).Wants p m)
    (hst : SentinelFree c.server p)
    (hroom : (abs c.server).mutexes.get m = none → (abs c.server).mutexes.count < MAX_MUTEX)
    (z : ℤ) :
    ∃ c₁ c₂, Step c (⟨Minix.PM_PROC_NR, CS_EINTR, p, z⟩, [⟨EINTR, p⟩]) c₁ ∧
      Step c₁ (⟨p, CS_LOCK, m, 0⟩,
        if (abs c.server).mutexes.get m = none then [⟨OK, p⟩] else []) c₂ ∧
      abs c₂.server = (abs c.server).resume p m ∧ SentinelFree c₂.server p := by
  have hinv := hc.inv
  obtain ⟨s₁, h₁, habs₁, hsame₁⟩ := obsluz_interrupted hinv.tables hinv.manager hst
    hwants.waiting (request_eintr Minix.PM_PROC_NR p z)
  have hadm : Admissible c ⟨Minix.PM_PROC_NR, CS_EINTR, p, z⟩ := by
    refine ⟨fun q hq => ?_, fun q hq => ?_⟩
    · simp [request_eintr, Request.sender] at hq
    · rw [request_eintr] at hq
      rcases hq with hq | hq <;> cases hq
      exact hst
  obtain ⟨c₁, rfl, hstep₁⟩ := step_of_ok hadm (fun _ => rfl) h₁
  have hinv₁ := hstep₁.inv hinv
  obtain ⟨s₂, h₂, habs₂, hsame₂⟩ := obsluz_resumed hinv.tables hinv.manager hwants hroom
    hinv₁.tables habs₁ (request_lock p m 0)
  -- `p` has been answered, so it may send a request
  have hnot : ¬ (abs c₁.server).Waiting p := by
    rw [habs₁, Manager.remove_waiting_iff hinv.manager]
    exact fun hw => hw.2 rfl
  have hadm₁ : Admissible c₁ ⟨p, CS_LOCK, m, 0⟩ := by
    refine ⟨fun q hq => ?_, not_notification (request_lock p m 0) (by simp) c₁.server⟩
    rw [request_lock, Request.sender, Option.some.injEq] at hq
    subst hq
    exact fun hpending => hnot ((hinv₁.pending_iff p).mp hpending)
  obtain ⟨c₂, rfl, hstep₂⟩ := step_of_ok hadm₁ (fromPM_lock p m 0) h₂
  refine ⟨c₁, c₂, hstep₁, hstep₂, habs₂, fun i => ?_⟩
  rw [hsame₂ i, hsame₁ i]
  exact hst i

/-- **An interrupted wait is resumed**: after any run, when a process that waits for `m`, or on
a condition with `m`, is interrupted and then asks for `m`, it has left the list it was in and
owns `m` if nobody did, or else stands at the tail of its queue; nothing else has changed.  If
it waits again, the same two messages change nothing. -/
theorem wait_resumed (hc : Reachable c) (hwants : (abs c.server).Wants p m)
    (hst : SentinelFree c.server p)
    (hroom : (abs c.server).mutexes.get m = none → (abs c.server).mutexes.count < MAX_MUTEX)
    (z : ℤ) :
    ∃ c₁ c₂, Step c (⟨Minix.PM_PROC_NR, CS_EINTR, p, z⟩, [⟨EINTR, p⟩]) c₁ ∧
      Step c₁ (⟨p, CS_LOCK, m, 0⟩,
        if (abs c.server).mutexes.get m = none then [⟨OK, p⟩] else []) c₂ ∧
      (abs c.server).Resumed p m (abs c₂.server) ∧
      ((abs c.server).mutexes.get m ≠ none → ∀ z', ∃ c₃ c₄,
        Step c₂ (⟨Minix.PM_PROC_NR, CS_EINTR, p, z'⟩, [⟨EINTR, p⟩]) c₃ ∧
          Step c₃ (⟨p, CS_LOCK, m, 0⟩, []) c₄ ∧ abs c₄.server = abs c₂.server) := by
  have hinv := hc.inv
  obtain ⟨c₁, c₂, h₁, h₂, habs, hst₂⟩ := exists_resumed hc hwants hst hroom z
  have hresumed := Manager.resume_resumed hinv.manager hwants
  refine ⟨c₁, c₂, h₁, h₂, by rw [habs]; exact hresumed, fun hm z' => ?_⟩
  have hc₂ : Reachable c₂ := (hc.snoc h₁).snoc h₂
  have hwants₂ : (abs c₂.server).Wants p m := by
    rw [habs]
    exact Manager.wants_resume hinv.manager hwants hm
  -- the mutex is still reserved
  have hm₂ : (abs c₂.server).mutexes.get m ≠ none := by
    obtain ⟨⟨o, q⟩, hget⟩ := Option.ne_none_iff_exists'.mp hm
    rw [habs, hresumed.reserved o q hget]
    simp
  obtain ⟨c₃, c₄, h₃, h₄, habs', -⟩ :=
    exists_resumed hc₂ hwants₂ hst₂ (fun hnone => absurd hnone hm₂) z'
  rw [if_neg hm₂] at h₄
  have hwell : ((abs c.server).resume p m).WellFormed := by
    rw [← habs]
    exact hc₂.inv.manager
  refine ⟨c₃, c₄, h₃, h₄, ?_⟩
  rw [habs', habs, Manager.resume_resume hinv.manager hwants hm hwell]

end Interruption

end MinixCv.Server

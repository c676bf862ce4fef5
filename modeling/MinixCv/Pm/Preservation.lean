import MinixCv.Pm.Invariant

/-!
# Every Function Keeps The Invariant

The functions of `signal.c` and `forkexit.c` are proved from an arbitrary `exit_proc` that
keeps the invariant for at most `n` live processes; the body of `exit_proc` then does so for
`n + 1`, since the process it ends is no longer alive when it calls anything that could end
another one.  By induction the depth `NR_PROCS` is enough, and the model's own stop is never
reached.
-/

namespace MinixCv.Pm

open MinixCv.Lib MinixCv.Server PmHeader

variable [PmHeader] {α β : Type} {X : Set Slot} {n k : ℕ} {v : View} {p : Slot}

/-! ## §1 Programs that change the view -/

theorem sure_panic {format : String} {Φ : α → View → Prop} : Sure (panic format) v Φ :=
  .throw (by simp)

/-- Reading an entry. -/
theorem Sure.proc {f : Mproc → Program β} {Φ : β → View → Prop}
    (h : ∀ r, (v.slot p).Shows r → Sure (f r) v Φ) : Sure (proc p >>= f) v Φ := by
  intro s hs
  apply h (s.mproc p) _ s hs
  rw [← hs]
  exact s.view_shows p

/-- Behind a test that panics, the test is known to have failed. -/
theorem Sure.unless {c : Prop} [Decidable c] {format : String} {f : Unit → Program β}
    {Φ : β → View → Prop} (h : ¬c → Sure (f ()) v Φ) :
    Sure (when c (panic format) >>= f) v Φ := by
  apply Ensures.bind (Φ := fun _ v' => v' = v ∧ ¬c)
  · exact .when (fun _ => sure_panic) fun hc => ⟨rfl, hc⟩
  · intro _ _ hpost
    obtain ⟨rfl, hc⟩ := hpost
    exact h hc

theorem sure_modifyProc {f : Mproc → Mproc} {Φ : Unit → View → Prop}
    (h : ∀ r, (v.slot p).Shows r →
      Φ () (v.set p ⟨(f r).mpFlags ∩ vitalFlags, (f r).mpEndpoint, (f r).mpName, (v.slot p).vfs⟩)) :
    Sure (modifyProc p f) v Φ := by
  intro s hs
  change Φ () (PmState.view _)
  rw [view_modifyProc, hs]
  apply h
  rw [← hs]
  exact s.view_shows p

theorem sure_raise {f : Flag} (hf : f ∈ vitalFlags) :
    Sure (raise p f) v fun _ v' =>
      v' = v.set p { v.slot p with flags := insert f (v.slot p).flags } := by
  apply sure_modifyProc
  intro r hr
  change v.set p ⟨insert f r.mpFlags ∩ vitalFlags, r.mpEndpoint, r.mpName, _⟩ = _
  rw [Finset.insert_inter_of_mem hf, ← hr.flags, ← hr.endpoint, ← hr.name]

theorem sure_lower {fs : Finset Flag} :
    Sure (lower p fs) v fun _ v' =>
      v' = v.set p { v.slot p with flags := (v.slot p).flags \ fs } := by
  apply sure_modifyProc
  intro r hr
  change v.set p ⟨(r.mpFlags \ fs) ∩ vitalFlags, r.mpEndpoint, r.mpName, _⟩ = _
  rw [Finset.sdiff_inter_right_comm, ← hr.flags, ← hr.endpoint, ← hr.name]

theorem sure_record {e : Event} : Sure (record e) v fun _ v' => v' = v.push e := by
  intro s hs
  change PmState.view _ = _
  rw [← hs]
  rfl

theorem sure_setVfs {request : Option Message} :
    Sure (setVfs p request) v fun _ v' => v' = v.set p { v.slot p with vfs := request } := by
  intro s hs
  change PmState.view _ = _
  rw [← hs]
  apply View.ext
  · funext q
    rcases eq_or_ne q p with rfl | hq
    · simp [PmState.view, View.set]
    · simp [PmState.view, View.set, hq]
  · rfl
  · rfl

/-! ## §2 Notices and requests -/

/-- `tell_vfs` -/
theorem sure_tellVfs {m : Message} :
    Sure (tellVfs p m) v fun _ v' => v' = v.set p ((v.slot p).requested m) := by
  apply Sure.proc
  intro r _
  apply Sure.unless
  intro _
  apply (quiet_require _ _).andThen
  intro _
  apply Ensures.bind sure_setVfs
  intro _ v' hv'
  subst hv'
  apply (sure_raise (by decide)).mono
  intro _ v' hv'
  subst hv'
  simp [Entry.requested]

/-- The loop of `tell_cv` misses nobody. -/
theorem Sure.scanCv {f : Option Slot → Program β} {Φ : β → View → Prop}
    (h : ∀ found, (found = none → ∀ q, ¬(v.slot q).IsCv) → Sure (f found) v Φ) :
    Sure (scan IsCv >>= f) v Φ := by
  intro s hs
  -- whoever is named `cv` in the view is so in the table, where the scan has looked
  apply h _ _ s hs
  intro hnone q hq
  have hfind := List.find?_eq_none.mp hnone q (List.mem_finRange q)
  have hshow := s.view_shows q
  rw [hs] at hshow
  exact hfind (decide_eq_true (hshow.isCv.mpr hq))

/-- `tell_cv` -/
theorem sure_tellCv {m : Message} {signal : ℤ} :
    Sure (tellCv p m signal) v fun _ v' =>
      ∃ ev, Good.Notice v (m.withSignal signal) ev ∧ v' = v.push ev := by
  apply Sure.scanCv
  intro found hnone
  cases found with
  -- nobody is named `cv`, and the notice is lost
  | none =>
    apply sure_record.mono
    intro _ v' hv'
    subst hv'
    exact ⟨_, ⟨none, rfl, fun _ => hnone rfl⟩, rfl⟩
  | some rmp =>
    apply Sure.proc
    intro r _
    apply (quiet_require _ _).andThen
    intro _
    apply sure_record.mono
    intro _ v' hv'
    subst hv'
    exact ⟨_, ⟨some r.mpEndpoint, rfl, nofun⟩, rfl⟩

/-! ## §3 Signals -/

/-- `unpause` of a live process. -/
theorem sure_unpause (h : Good X n k v) (hl : (v.slot p).Live) :
    Sure (unpause p) v fun _ v' => Good X n k v' ∧ (v'.slot p).Live := by
  apply Sure.proc
  intro r hr
  refine Ensures.ite (fun _ => .pure ⟨h, hl⟩) fun _ => ?_
  apply Ensures.ite
  · intro _
    apply (quiet_require _ _).andThen
    intro _
    exact (quiet_raise p (by decide)).keeps (I := fun v => Good X n k v ∧ (v.slot p).Live) ⟨h, hl⟩
  · intro _
    -- stopped, or the call is delayed and nothing is said
    apply (quiet_delayStop p).andThen
    intro stopped
    apply Ensures.when _ fun _ => ⟨h, hl⟩
    intro _
    have hm : (unpauseMessage r).PM_PROC = (v.slot p).endpoint := hr.endpoint.symm
    have hends : ¬(unpauseMessage r).Ends := by simp [Message.Ends, unpauseMessage]
    apply Ensures.bind sure_tellVfs
    intro _ v' hv'
    subst hv'
    -- VFS has been asked, and the process is still alive when `cv` is told
    have h₁ := h.requested hl hm hends
    have hl₁ : ((v.set p ((v.slot p).requested (unpauseMessage r))).slot p).Live := by
      rw [View.set_slot_self]
      exact (Entry.requested_live _).mpr hl
    apply Ensures.bind sure_tellCv
    intro _ _ hpost
    obtain ⟨ev, hev, rfl⟩ := hpost
    apply (quiet_vmNotifySigWrapper _).keeps (I := fun v => Good X n k v ∧ (v.slot p).Live)
    refine ⟨h₁.push_eintr hl₁ ?_ rfl hev, hl₁⟩
    rw [View.set_slot_self]
    exact hm

/-- `exit_proc` keeps the invariant while at most `n` processes live. -/
def KeepsGood (n : ℕ) (exitProc : Slot → ℤ → Bool → Program Unit) : Prop :=
  ∀ (X : Set Slot) (k : ℕ) (v : View) (p : Slot) (exitStatus : ℤ) (dumpCore : Bool),
    Good X n k v → (v.slot p).Live → Sure (exitProc p exitStatus dumpCore) v fun _ => Good X n k

section Sending

variable {exitProc : Slot → ℤ → Bool → Program Unit} (hexit : KeepsGood n exitProc)

include hexit

theorem sure_sigProcExit (h : Good X n k v) (hl : (v.slot p).Live) (signo : ℤ) :
    Sure (sigProcExit exitProc p signo) v fun _ => Good X n k := by
  refine Silent.andThen (quiet_modifyProc p fun _ => ⟨rfl, rfl, rfl⟩) fun _ => ?_
  apply Ensures.ite
  · intro _
    apply (quiet_proc p).andThen
    intro r
    apply Silent.andThen (.when (.bind (quiet_ask _) fun _ => .pure ()))
    intro _
    exact hexit X k v p 0 true h hl
  · intro _
    exact hexit X k v p 0 false h hl

theorem sure_sigSystem (h : Good X n k v) (hl : (v.slot p).Live) (signo : ℤ) (ksig : Bool) :
    Sure (sigSystem exitProc p signo ksig) v fun _ => Good X n k := by
  apply (quiet_proc p).andThen
  intro r
  refine Ensures.ite (fun _ => .pure h) fun _ => ?_
  apply Ensures.ite
  · intro _
    exact (quiet_ask _).andThen fun _ => .pure h
  · intro _
    apply Silent.andThen (.when (.bind (quiet_ask _) fun _ => .pure ()))
    intro _
    apply Ensures.ite
    · intro _
      exact (quiet_ask _).andThen fun _ => .pure h
    · intro _
      exact sure_sigProcExit hexit h hl signo

omit hexit in
theorem sure_sigUnpause (h : Good X n k v) (hl : (v.slot p).Live) :
    Sure (sigUnpause p) v fun _ v' => Good X n k v' ∧ (v'.slot p).Live := by
  apply (quiet_proc p).andThen
  intro r
  apply Ensures.bind (.when (fun _ => sure_unpause h hl) fun _ => ⟨h, hl⟩)
  intro _ v' hv'
  apply (quiet_proc p).andThen
  intro r
  exact .pure hv'

theorem sure_sigCaught (h : Good X n k v) (hl : (v.slot p).Live) (signo : ℤ) (ksig : Bool) :
    Sure (sigCaught exitProc p signo ksig) v fun _ => Good X n k := by
  apply Ensures.bind (sure_sigUnpause h hl)
  intro unpaused v' hpost
  obtain ⟨h', hl'⟩ := hpost
  apply Ensures.ite
  · intro _
    exact (quiet_addPending p signo ksig).keeps h'
  · intro _
    apply (quiet_sigSend p signo).andThen
    intro sent
    exact .when (fun _ => sure_sigProcExit hexit h' hl' signo) fun _ => h'

theorem sure_sigUser (h : Good X n k v) (hl : (v.slot p).Live) (signo : ℤ) (ksig : Bool) :
    Sure (sigUser exitProc p signo ksig) v fun _ => Good X n k := by
  have hpend := (quiet_addPending p signo ksig).keeps h
  apply (quiet_proc p).andThen
  intro r
  refine Ensures.ite (fun _ => .pure h) fun _ => ?_
  refine Ensures.ite (fun _ => hpend) fun _ => ?_
  refine Ensures.ite (fun _ => hpend) fun _ => ?_
  refine Ensures.ite (fun _ => sure_sigCaught hexit h hl signo ksig) fun _ => ?_
  refine Ensures.ite (fun _ => .pure h) fun _ => ?_
  exact sure_sigProcExit hexit h hl signo

/-- `sig_proc`, which panics for a process that is not alive. -/
theorem sure_sigProc (h : Good X n k v) (signo : ℤ) (trace ksig : Bool) :
    Sure (sigProc exitProc p signo trace ksig) v fun _ => Good X n k := by
  apply Sure.proc
  intro r hr
  -- the first test settles it: whoever gets past it is alive
  refine Ensures.ite (fun _ => sure_panic) fun hlive => ?_
  have hl : (v.slot p).Live := hr.live.mp (not_not.mp hlive)
  apply Ensures.ite
  · intro _
    refine Silent.andThen (quiet_modifyProc p fun _ => ⟨rfl, rfl, rfl⟩) fun _ => ?_
    exact Silent.keeps (.when (quiet_elsewhere _)) h
  · intro _
    refine Ensures.ite (fun _ => (quiet_sigDeferred p signo ksig).keeps h) fun _ => ?_
    refine Ensures.ite (fun _ => sure_sigSystem hexit h hl signo ksig) fun _ => ?_
    exact sure_sigUser hexit h hl signo ksig

theorem sure_checkSigLoop (procId signo : ℤ) (ksig : Bool) (slots : List Slot) (count : ℕ)
    (errorCode : ℤ) (h : Good X n k v) :
    Sure (checkSigLoop exitProc procId signo ksig slots count errorCode) v fun _ => Good X n k := by
  -- the list of slots is what the loop goes down; the view moves with each signal
  induction slots generalizing v count errorCode with
  | nil => exact .pure h
  | cons rmp rest ih =>
    apply quiet_mp.andThen
    intro who
    apply (quiet_proc who).andThen
    intro caller
    apply (quiet_proc rmp).andThen
    intro r
    refine Ensures.ite (fun _ => ih count errorCode h) fun _ => ?_
    refine Ensures.ite (fun _ => ih count _ h) fun _ => ?_
    refine Ensures.ite (fun _ => ih (count + 1) errorCode h) fun _ => ?_
    apply Ensures.bind (sure_sigProc hexit h signo true ksig)
    intro _ v' h'
    exact .ite (fun _ => .pure h') fun _ => ih (count + 1) errorCode h'

theorem sure_checkSig (procId signo : ℤ) (ksig : Bool) (h : Good X n k v) :
    Sure (checkSig exitProc procId signo ksig) v fun _ => Good X n k := by
  refine Ensures.ite (fun _ => .pure h) fun _ => ?_
  refine Ensures.ite (fun _ => .pure h) fun _ => ?_
  apply Silent.andThen (.when (.bind (quiet_ask _) fun _ => .pure ()))
  intro _
  apply Ensures.bind (sure_checkSigLoop hexit procId signo ksig _ 0 _ h)
  intro _ v' h'
  apply quiet_mp.andThen
  intro who
  apply (quiet_proc who).andThen
  intro caller
  exact .ite (fun _ => .pure h') fun _ => .pure h'

theorem sure_checkPendingLoop (signos : List ℤ) (h : Good X n k v) :
    Sure (checkPendingLoop exitProc p signos) v fun _ => Good X n k := by
  -- a signal may have ended the process; `sig_proc` looks at that itself
  induction signos generalizing v with
  | nil => exact .pure h
  | cons i rest ih =>
    apply (quiet_proc p).andThen
    intro r
    apply Ensures.ite
    · intro _
      apply (quiet_delPending p i).andThen
      intro _
      apply Ensures.bind (sure_sigProc hexit h i false _)
      intro _ v' h'
      apply (quiet_proc p).andThen
      intro r
      exact .ite (fun _ => .pure h') fun _ => ih h'
    · intro _
      exact ih h

theorem sure_checkPending (h : Good X n k v) :
    Sure (checkPending exitProc p) v fun _ => Good X n k :=
  sure_checkPendingLoop hexit signals h

theorem sure_restartSigs (h : Good X n k v) (hl : (v.slot p).Live) :
    Sure (restartSigs exitProc p) v fun _ => Good X n k := by
  apply (quiet_proc p).andThen
  intro r
  refine Ensures.ite (fun _ => .pure h) fun _ => ?_
  refine Ensures.ite (fun _ => hexit X k v p _ false h hl) fun _ => ?_
  apply Ensures.when _ fun _ => h
  intro _
  apply Ensures.bind (sure_checkPending hexit h)
  intro _ v' h'
  apply (quiet_proc p).andThen
  intro r
  apply Silent.keeps (.when _) h'
  exact .bind (quiet_lower p (by decide)) fun _ => quiet_require _ _

end Sending

/-! ## §4 Between death and release -/

/-- The flags by which a dead process passes from its tracer to its parent. -/
def mournFlags : Finset Flag := {.ZOMBIE, .TRACE_ZOMBIE, .TOLD_PARENT}

omit [PmHeader] in
theorem sameCore_of_mourn {e : Entry} {flags : Finset Flag}
    (h : ∀ f, f ∉ mournFlags → (f ∈ flags ↔ f ∈ e.flags)) :
    Entry.SameCore { e with flags := flags } e :=
  ⟨h _ (by decide), h _ (by decide), h _ (by decide), rfl, rfl, rfl⟩

/-- A dying process stays so while these flags change. -/
theorem Good.mourn {flags : Finset Flag} (h : Good X n k v) (hd : (v.slot p).Dying)
    (hflags : ∀ f, f ∉ mournFlags → (f ∈ flags ↔ f ∈ (v.slot p).flags)) :
    Good X n k (v.set p { v.slot p with flags := flags }) ∧
      ((v.set p { v.slot p with flags := flags }).slot p).Dying := by
  have hsame := sameCore_of_mourn hflags
  refine ⟨h.set_sameCore hsame hd.2, ?_⟩
  rw [View.set_slot_self]
  exact hsame.dying.mpr hd

theorem sure_raise_mourn {f : Flag} (h : Good X n k v) (hd : (v.slot p).Dying)
    (hf : f ∈ mournFlags) (hvital : f ∈ vitalFlags) :
    Sure (raise p f) v fun _ v' => Good X n k v' ∧ (v'.slot p).Dying := by
  apply (sure_raise hvital).mono
  intro _ v' hv'
  subst hv'
  apply h.mourn hd
  intro g hg
  have hne : g ≠ f := fun heq => hg (heq ▸ hf)
  simp [hne]

theorem sure_lower_mourn {f : Flag} (h : Good X n k v) (hd : (v.slot p).Dying)
    (hf : f ∈ mournFlags) :
    Sure (lower p {f}) v fun _ v' => Good X n k v' ∧ (v'.slot p).Dying := by
  apply sure_lower.mono
  intro _ v' hv'
  subst hv'
  apply h.mourn hd
  intro g hg
  have hne : g ≠ f := fun heq => hg (heq ▸ hf)
  simp [hne]

/-- A dead process passes from one to the next. -/
theorem sure_pass_mourn {f g : Flag} (h : Good X n k v) (hd : (v.slot p).Dying)
    (hf : f ∈ mournFlags) (hg : g ∈ mournFlags) (hvital : g ∈ vitalFlags) :
    Sure (lower p {f} >>= fun _ => raise p g) v fun _ v' => Good X n k v' ∧ (v'.slot p).Dying := by
  apply Ensures.bind (sure_lower_mourn h hd hf)
  intro _ v' hpost
  obtain ⟨h', hd'⟩ := hpost
  exact sure_raise_mourn h' hd' hg hvital

/-- A process that a parent or a tracer can be told about is dead. -/
theorem Good.dying (h : Good X n k v) (hx : .EXITING ∈ (v.slot p).flags) : (v.slot p).Dying :=
  ⟨(h.sound p).exiting hx, hx⟩

/-- `tell_parent`, which panics for a child that is not a zombie. -/
theorem sure_tellParent (h : Good X n k v) :
    Sure (tellParent p) v fun _ v' => Good X n k v' ∧ (v'.slot p).Dying := by
  apply Sure.proc
  intro c hc
  apply Sure.unless
  intro _
  apply Sure.unless
  intro hz
  apply Sure.unless
  intro _
  -- only the dead are zombies
  have hd : (v.slot p).Dying := h.dying ((h.sound p).zombie (hc.zombie.mp (not_not.mp hz)))
  apply (quiet_answerWait _ c).andThen
  intro _
  exact sure_pass_mourn h hd (by decide) (by decide) (by decide)

/-- `tell_tracer`, which panics for a child that is not a zombie to its tracer. -/
theorem sure_tellTracer (h : Good X n k v) :
    Sure (tellTracer p) v fun _ v' => Good X n k v' ∧ (v'.slot p).Dying := by
  apply Sure.proc
  intro c hc
  apply Sure.unless
  intro _
  apply Sure.unless
  intro hz
  have hd : (v.slot p).Dying :=
    h.dying ((h.sound p).traceZombie (hc.traceZombie.mp (not_not.mp hz)))
  apply (quiet_answerWait _ c).andThen
  intro _
  exact sure_pass_mourn h hd (by decide) (by decide) (by decide)

/-- `cleanup` of a dead process that VFS is done with. -/
theorem sure_cleanup (h : Good X n k v) (hd : (v.slot p).Dying)
    (hidle : .VFS_CALL ∉ (v.slot p).flags) : Sure (cleanup p) v fun _ => Good X n k := by
  apply Sure.proc
  intro r hr
  apply Ensures.bind (Φ := fun _ v' => v' = v.set p (v.slot p).released)
  · -- VFS owes nothing: the slot is left empty
    apply sure_modifyProc
    intro r hr
    have hvfs := (h.sound p).idle hidle
    simp [Entry.released, hr.endpoint, hr.name, hvfs]
  · intro _ v' hv'
    subst hv'
    apply (quiet_countProcs _).andThen
    intro _
    apply sure_record.mono
    intro _ v' hv'
    subst hv'
    rw [← hr.endpoint]
    exact h.release hd

section Exiting

variable {exitProc : Slot → ℤ → Bool → Program Unit} (hexit : KeepsGood n exitProc)

include hexit

theorem sure_checkParent (h : Good X n k v) (tryCleanup : Bool) :
    Sure (checkParent exitProc p tryCleanup) v fun _ => Good X n k := by
  apply (quiet_proc p).andThen
  intro c
  apply (quiet_proc _).andThen
  intro parent
  refine Ensures.ite (fun _ => .pure h) fun _ => ?_
  apply Ensures.ite
  · intro _
    apply Ensures.bind (sure_tellParent h)
    intro _ v' hpost
    obtain ⟨h', hd'⟩ := hpost
    apply Sure.proc
    intro c hc
    apply Ensures.when _ fun _ => h'
    -- `cleanup` only if VFS is done; `tell_parent` has left `VFS_CALL` alone
    intro hidle
    exact sure_cleanup h' hd' fun hcall => hidle.2 (hc.vfsCall.mpr hcall)
  · intro _
    exact sure_sigProc hexit h SIGCHLD true false

theorem sure_zombify (h : Good X n k v) (hd : (v.slot p).Dying) :
    Sure (zombify exitProc p) v fun _ => Good X n k := by
  apply (quiet_proc p).andThen
  intro r
  apply Sure.unless
  intro _
  apply Ensures.ite
  · intro _
    -- a zombie to its tracer first, to its parent when that has been told
    apply Ensures.bind (sure_raise_mourn h hd (by decide) (by decide))
    intro _ v' hpost
    obtain ⟨h', -⟩ := hpost
    apply (quiet_proc _).andThen
    intro t
    apply Ensures.when _ fun _ => h'
    intro _
    apply Ensures.bind (sure_tellTracer h')
    intro _ v'' hpost
    obtain ⟨h'', -⟩ := hpost
    exact sure_checkParent hexit h'' false
  · intro _
    apply Ensures.bind (sure_raise_mourn h hd (by decide) (by decide))
    intro _ v' hpost
    obtain ⟨h', -⟩ := hpost
    exact sure_checkParent hexit h' false

theorem sure_tracerDied (h : Good X n k v) : Sure (tracerDied exitProc p) v fun _ => Good X n k := by
  refine Silent.andThen (quiet_modifyProc p fun _ => ⟨rfl, rfl, rfl⟩) fun _ => ?_
  apply (quiet_lower p (by decide)).andThen
  intro _
  apply Sure.proc
  intro c hc
  refine Ensures.ite (fun _ => sure_sigProc hexit h SIGKILL true false) fun hx => ?_
  apply Ensures.when _ fun _ => h
  intro _
  have hd : (v.slot p).Dying := h.dying (hc.exiting.mp (not_not.mp hx))
  apply Ensures.bind (sure_lower_mourn h hd (by decide))
  intro _ v' hpost
  obtain ⟨h', hd'⟩ := hpost
  apply Ensures.bind (sure_raise_mourn h' hd' (by decide) (by decide))
  intro _ v'' hpost
  obtain ⟨h'', -⟩ := hpost
  exact sure_checkParent hexit h'' true

theorem sure_disinherit (h : Good X n k v) (procNr : Slot) :
    Sure (disinherit exitProc procNr p) v fun _ => Good X n k := by
  apply (quiet_proc p).andThen
  intro r
  apply Ensures.when _ fun _ => h
  intro _
  apply Ensures.bind (.when (fun _ => sure_tracerDied hexit h) fun _ => h)
  intro _ v' h'
  apply (quiet_proc p).andThen
  intro r
  apply Ensures.when _ fun _ => h'
  intro _
  refine Silent.andThen (quiet_modifyProc p fun _ => ⟨rfl, rfl, rfl⟩) fun _ => ?_
  exact .when (fun _ => sure_checkParent hexit h' true) fun _ => h'

/-! ## §5 `exit_proc` -/

omit [PmHeader] hexit in
/-- What the mask of `exit_proc` leaves of the vital flags. -/
theorem doomed_flags (flags : Finset Flag) :
    insert .EXITING (flags ∩ {.IN_USE, .VFS_CALL, .PRIV_PROC, .TRACE_EXIT}) ∩ vitalFlags =
      insert .EXITING (flags ∩ vitalFlags ∩ {.IN_USE, .VFS_CALL}) := by
  ext f
  cases f <;> simp [vitalFlags]

omit hexit in
theorem sure_mark (exitStatus : ℤ) :
    Sure (modifyProc p fun r =>
      { r with
        mpFlags := insert .EXITING (r.mpFlags ∩ {.IN_USE, .VFS_CALL, .PRIV_PROC, .TRACE_EXIT})
        mpExitstatus := BitVec.ofInt 8 exitStatus }) v
      fun _ v' => v' = v.set p (v.slot p).marked := by
  apply sure_modifyProc
  intro r hr
  simp only [doomed_flags, ← hr.flags, ← hr.endpoint, ← hr.name]
  rfl

omit hexit in
/-- The reports and the mark: one process fewer is alive. -/
theorem sure_announceExit (h : Good X (n + 1) k v) (hl : (v.slot p).Live) (exitStatus : ℤ)
    (dumpCore : Bool) :
    Sure (announceExit p exitStatus dumpCore) v fun _ v' => Good X n k v' ∧ (v'.slot p).Dying := by
  apply Sure.proc
  intro r hr
  have hm : (exitMessage r dumpCore).PM_PROC = (v.slot p).endpoint := hr.endpoint.symm
  -- with a core dump or without: both requests end the process
  have hends : (exitMessage r dumpCore).Ends := by
    cases dumpCore with
    | false => exact .inl rfl
    | true => exact .inr ⟨rfl, rfl⟩
  apply Ensures.bind sure_tellVfs
  intro _ v' hv'
  subst hv'
  apply Ensures.bind sure_tellCv
  intro _ _ hpost
  obtain ⟨ev, hev, rfl⟩ := hpost
  apply Silent.andThen (.when (quiet_require _ _))
  intro _
  -- the notice went out while the process was still alive
  have hnotice : Good.Notice v ((exitMessage r dumpCore).withSignal CS_EXIT) ev := by
    obtain ⟨dest, rfl, hnone⟩ := hev
    refine ⟨dest, rfl, fun hdest q hq => hnone hdest q ?_⟩
    apply View.forall_set (P := fun q e => (v.slot q).IsCv → e.IsCv) _ (fun q _ => id) q hq
    intro hcv
    exact ⟨Finset.mem_insert_of_mem hcv.1, hcv.2⟩
  have hm' : ((exitMessage r dumpCore).withSignal CS_EXIT).PM_PROC = (v.slot p).endpoint := hm
  have hgood := h.bury hl hm hends hm' rfl hnotice
  apply (sure_mark exitStatus).mono
  intro _ v' hv'
  subst hv'
  -- request, notice and mark in the order of the source are the one step `bury`
  have hview : ((v.set p ((v.slot p).requested (exitMessage r dumpCore))).push ev).set p
      (((v.slot p).requested (exitMessage r dumpCore)).marked) =
      (v.set p ((v.slot p).doomed (exitMessage r dumpCore))).push ev := by
    rw [View.push_set, View.set_set]
    rfl
  rw [View.push_slot, View.set_slot_self, hview]
  refine ⟨hgood, ?_⟩
  rw [View.push_slot, View.set_slot_self]
  exact Entry.doomed_dying hl _

theorem sure_finishExit (h : Good X n k v) (hd : (v.slot p).Dying) (procgrp : ℤ)
    (dumpCore : Bool) : Sure (finishExit exitProc p procgrp dumpCore) v fun _ => Good X n k := by
  apply Ensures.bind (.when (fun _ => sure_zombify hexit h hd) fun _ => h)
  intro _ v₁ h₁
  -- the loop over all slots keeps the invariant since its body does
  apply Ensures.bind (.forM (fun q _ v hv => sure_disinherit hexit hv p) h₁)
  intro _ v₂ h₂
  apply Ensures.when _ fun _ => h₂
  intro _
  apply Ensures.bind (sure_checkSig hexit (-procgrp) SIGHUP false h₂)
  intro _ v₃ h₃
  exact .pure h₃

theorem keepsGood_exitProcBody : KeepsGood (n + 1) (exitProcBody exitProc) := by
  intro X k v p exitStatus dumpCore h hl
  apply (quiet_proc p).andThen
  intro r
  apply quiet_mp.andThen
  intro who
  apply (quiet_proc who).andThen
  intro caller
  apply (quiet_stopRunning p).andThen
  intro _
  -- INIT only stops running
  refine Ensures.ite (fun _ => .pure h) fun _ => ?_
  apply Sure.unless
  intro _
  apply Ensures.bind (sure_announceExit h hl exitStatus _)
  intro _ v' hpost
  obtain ⟨h', hd'⟩ := hpost
  apply (sure_finishExit hexit h' hd' _ _).mono
  intro _ v'' h''
  exact h''.mono (Nat.le_succ n)

end Exiting

/-- With no live process there is nothing to end; each exit ends one. -/
theorem keepsGood_exitProcDepth (n : ℕ) : KeepsGood n (exitProcDepth n) := by
  induction n with
  | zero =>
    intro X k v p exitStatus dumpCore h hl
    -- the process to be ended would be alive
    have hpos : 0 < v.living.card := Finset.card_pos.mpr ⟨p, View.mem_living.mpr hl⟩
    exact absurd h.few (by omega)
  | succ n ih => exact keepsGood_exitProcBody ih

theorem keepsGood_exitProc : KeepsGood NR_PROCS (exitProc : Slot → ℤ → Bool → Program Unit) :=
  keepsGood_exitProcDepth NR_PROCS

end MinixCv.Pm

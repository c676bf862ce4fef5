import MinixCv.Pm.Preservation

/-!
# Every Round Of The Main Loop Keeps The Invariant

The calls, the replies of VFS and the signals of the kernel, on top of `Preservation`.
Between two rounds no slot is singled out and any number of processes may be alive, which is
`Good ∅ NR_PROCS k`.
-/

namespace MinixCv.Pm

open MinixCv.Lib MinixCv.Server PmHeader

variable [PmHeader] {α β : Type} {X : Set Slot} {n k : ℕ} {v : View} {p : Slot}

/-! ## §1 Reading -/

/-- Reading the caller. -/
theorem Sure.mp {f : Slot → Program β} {Φ : β → View → Prop} (h : Sure (f v.mp) v Φ) :
    Sure (mp >>= f) v Φ := by
  intro s hs
  have hmp : v.mp = s.mp := by
    rw [← hs]
    rfl
  rw [hmp] at h
  exact h s hs

theorem sure_setMp : Sure (setMp p) v fun _ v' => v' = { v with mp := p } := by
  intro s hs
  change PmState.view _ = _
  rw [← hs]
  rfl

/-- An endpoint that `pm_isokendpt` accepts belongs to the process in its slot. -/
theorem sure_pmIsokendpt (endpoint : ℤ) :
    Sure (pmIsokendpt endpoint) v fun found v' => v' = v ∧
      (found = .ok none → ENDPOINT_P endpoint < 0) ∧
      ∀ p, found = .ok (some p) → .IN_USE ∈ (v.slot p).flags ∧
        (v.slot p).endpoint = endpoint ∧ ENDPOINT_P endpoint = p.val := by
  intro s hs
  unfold pmIsokendpt
  dsimp only
  -- out of range, another generation, not in use, accepted, a task
  split_ifs with h₁ h₂ h₃ h₄
  · exact ⟨hs, by simp, by simp⟩
  · exact ⟨hs, by simp, by simp⟩
  · refine ⟨hs, by simp, ?_⟩
    intro p hp
    have hp : (⟨(ENDPOINT_P endpoint).toNat, h₂.1⟩ : Slot) = p := by
      simpa only [Except.ok.injEq, Option.some.injEq] using hp
    have hshow := s.view_shows p
    rw [hs] at hshow
    rw [hp] at h₃ h₄
    refine ⟨hshow.inUse.mp h₄, ?_, ?_⟩
    · rw [hshow.endpoint]
      exact (not_not.mp h₃).symm
    · rw [← hp]
      simp [h₂.2]
  · exact ⟨hs, by simp, by simp⟩
  · refine ⟨hs, ?_, by simp⟩
    intro _
    omega

/-- The child's slot is not in use. -/
theorem sure_findChild (srv : Bool) :
    Sure (findChild srv) v fun child v' => v' = v ∧ .IN_USE ∉ (v.slot child).flags := by
  intro s hs
  unfold findChild
  -- whatever the loop has found, the test behind it decides
  generalize findChildLoop _ _ _ _ = found
  dsimp only
  have hshow := s.view_shows
  rw [hs] at hshow
  split_ifs with h₁ h₂ h₃ h₄
  · simp
  · simp
  · exact ⟨hs, fun hu => h₃ ((hshow _).inUse.mpr hu)⟩
  · exact ⟨hs, fun hu => h₃ ((hshow _).inUse.mpr hu)⟩
  · simp

/-! ## §2 The calls -/

section Calls

variable {exitProc : Slot → ℤ → Bool → Program Unit} (hexit : KeepsGood n exitProc)

include hexit

/-- `exit_restart` of a process that VFS is done with. -/
theorem sure_exitRestart (h : Good {p} n k v) (hd : (v.slot p).Dying) (dumpCore : Bool) :
    Sure (exitRestart exitProc p dumpCore) v fun _ => Good {p} n k := by
  apply (quiet_proc p).andThen
  intro r
  apply (quiet_ask _).andThen
  intro _
  refine Silent.andThen (quiet_modifyProc p fun _ => ⟨rfl, rfl, rfl⟩) fun _ => ?_
  apply Ensures.bind (.when (fun _ => sure_zombify hexit h hd) fun _ => h)
  intro _ v' h'
  apply Sure.proc
  intro r hr
  apply Silent.andThen (.when (quiet_require _ _))
  intro _
  apply (quiet_require _ _).andThen
  intro _
  refine Silent.andThen (.when (.bind (quiet_modifyProc _ fun _ => ⟨rfl, rfl, rfl⟩)
    fun _ => quiet_setreply _ _)) fun _ => ?_
  apply Ensures.when _ fun _ => h'
  intro htold
  have hd' : (v'.slot p).Dying := h'.dying ((h'.sound p).toldParent (hr.toldParent.mp htold))
  -- VFS was done with `p` before `zombify`, and it still is
  rcases h'.settled p rfl with hu | ⟨-, hidle⟩
  · exact absurd hd'.1 hu
  · exact sure_cleanup h' hd' hidle

theorem sure_waitpidLoop (who : Slot) (pidarg : ℤ) (slots : List Slot) (children : ℕ)
    (h : Good X n k v) :
    Sure (waitpidLoop exitProc who pidarg slots children) v fun _ => Good X n k := by
  -- the first three branches return; the others go on with the rest of the table
  induction slots generalizing v children with
  | nil => exact .pure h
  | cons rp rest ih =>
    apply (quiet_proc rp).andThen
    intro r
    refine Ensures.ite (fun _ => ih children h) fun _ => ?_
    apply Ensures.ite
    · intro _
      apply Ensures.bind (sure_tellTracer h)
      intro _ v₁ hpost
      obtain ⟨h₁, -⟩ := hpost
      apply Ensures.bind (sure_checkParent hexit h₁ true)
      intro _ v₂ h₂
      exact .pure h₂
    · intro _
      cases tracedSignal who r with
      | some i =>
        refine Silent.andThen (quiet_modifyProc rp fun _ => ⟨rfl, rfl, rfl⟩) fun _ => ?_
        refine Silent.andThen (quiet_modifyProc who fun _ => ⟨rfl, rfl, rfl⟩) fun _ => ?_
        exact .pure h
      | none =>
        refine Ensures.ite (fun _ => ?_) fun _ => ih (children + 1) h
        apply Ensures.bind (sure_tellParent h)
        intro _ v₁ hpost
        obtain ⟨h₁, hd₁⟩ := hpost
        apply Sure.proc
        intro r hr
        have hclean : .VFS_CALL ∉ r.mpFlags → Sure (cleanup rp) v₁ fun _ => Good X n k :=
          fun hidle => sure_cleanup h₁ hd₁ fun hcall => hidle (hr.vfsCall.mpr hcall)
        apply Ensures.bind (.when hclean fun _ => h₁)
        intro _ v₂ h₂
        exact .pure h₂

theorem sure_doWaitpid (pid : ℤ) (wnohang : Bool) (h : Good X n k v) :
    Sure (doWaitpid exitProc pid wnohang) v fun _ => Good X n k := by
  apply Sure.mp
  apply (quiet_proc _).andThen
  intro r
  apply Ensures.bind (sure_waitpidLoop hexit _ _ _ 0 h)
  intro found v' h'
  cases found with
  | inl result => exact .pure h'
  | inr children =>
    refine Ensures.ite (fun _ => ?_) fun _ => .pure h'
    refine Ensures.ite (fun _ => .pure h') fun _ => ?_
    apply (quiet_raise _ (by decide)).andThen
    intro _
    refine Silent.andThen (quiet_modifyProc _ fun _ => ⟨rfl, rfl, rfl⟩) fun _ => ?_
    exact .pure h'

theorem sure_doExit (h : Good X n k v) (hl : (v.slot v.mp).Live) (status : ℤ) :
    Sure (doExit exitProc status) v fun _ => Good X n k := by
  apply Sure.mp
  apply (quiet_proc _).andThen
  intro r
  apply Ensures.ite
  · intro _
    exact (quiet_ask _).andThen fun _ => .pure h
  · intro _
    apply Ensures.bind (hexit X k v v.mp status false h hl)
    intro _ v' h'
    exact .pure h'

theorem sure_doSigprocmask (how : SigHow) (set : Finset ℤ) (h : Good X n k v) :
    Sure (doSigprocmask exitProc how set) v fun _ => Good X n k := by
  apply Sure.mp
  refine Silent.andThen (quiet_modifyProc _ fun _ => ⟨rfl, rfl, rfl⟩) fun _ => ?_
  cases how with
  | SIG_BLOCK =>
    refine Silent.andThen (quiet_modifyProc _ fun _ => ⟨rfl, rfl, rfl⟩) fun _ => ?_
    exact .pure h
  | SIG_UNBLOCK =>
    refine Silent.andThen (quiet_modifyProc _ fun _ => ⟨rfl, rfl, rfl⟩) fun _ => ?_
    exact .bind (sure_checkPending hexit h) fun _ _ h' => .pure h'
  | SIG_SETMASK =>
    refine Silent.andThen (quiet_modifyProc _ fun _ => ⟨rfl, rfl, rfl⟩) fun _ => ?_
    exact .bind (sure_checkPending hexit h) fun _ _ h' => .pure h'
  | SIG_INQUIRE => exact .pure h
  | other => exact .pure h

theorem sure_doSigsuspend (set : Finset ℤ) (h : Good X n k v) :
    Sure (doSigsuspend exitProc set) v fun _ => Good X n k := by
  apply Sure.mp
  refine Silent.andThen (quiet_modifyProc _ fun _ => ⟨rfl, rfl, rfl⟩) fun _ => ?_
  apply (quiet_raise _ (by decide)).andThen
  intro _
  exact .bind (sure_checkPending hexit h) fun _ _ h' => .pure h'

theorem sure_doSigreturn (set : Finset ℤ) (h : Good X n k v) :
    Sure (doSigreturn exitProc set) v fun _ => Good X n k := by
  apply Sure.mp
  refine Silent.andThen (quiet_modifyProc _ fun _ => ⟨rfl, rfl, rfl⟩) fun _ => ?_
  apply (quiet_proc _).andThen
  intro r
  apply (quiet_ask _).andThen
  intro a
  exact .bind (sure_checkPending hexit h) fun _ _ h' => .pure h'

theorem sure_doSrvKill (pid sigNr : ℤ) (h : Good X n k v) :
    Sure (doSrvKill exitProc pid sigNr) v fun _ => Good X n k := by
  apply Sure.mp
  apply (quiet_proc _).andThen
  intro r
  exact .ite (fun _ => .pure h) fun _ => sure_checkSig hexit pid sigNr true h

omit hexit in
/-- The caller plays no part in the invariant. -/
theorem Good.withMp (h : Good X n k v) (who : Slot) : Good X n k { v with mp := who } :=
  ⟨h.sound, h.reported, h.orderly, h.attended, h.settled, h.few⟩

theorem sure_ksigDelayed (h : Good X n k v) : Sure (ksigDelayed exitProc p) v fun _ => Good X n k := by
  apply (quiet_lower p (by decide)).andThen
  intro _
  apply (quiet_proc p).andThen
  intro r
  refine Ensures.ite (fun _ => .pure h) fun _ => ?_
  apply Sure.unless
  intro _
  apply Ensures.bind (sure_checkPending hexit h)
  intro _ v' h'
  apply (quiet_proc p).andThen
  intro r
  apply Sure.unless
  intro _
  exact (quiet_ksigResult p).keeps h'

theorem sure_processKsig (procNrE signo : ℤ) (h : Good X n k v) :
    Sure (processKsig exitProc procNrE signo) v fun _ => Good X n k := by
  apply (quiet_pmIsokendpt procNrE).andThen
  intro found
  match found with
  | .error _ => exact .pure h
  | .ok none => exact .pure h
  | .ok (some rmp) =>
    apply (quiet_proc rmp).andThen
    intro r
    refine Ensures.ite (fun _ => .pure h) fun _ => ?_
    -- PM's own slot stands in as the sender; its group is not vital
    apply Ensures.bind sure_setMp
    intro _ v' hv'
    subst hv'
    refine Silent.andThen (quiet_modifyProc _ fun _ => ⟨rfl, rfl, rfl⟩) fun _ => ?_
    apply (quiet_ksigTarget rmp _ signo).andThen
    intro id
    apply Ensures.bind (sure_checkSig hexit id signo true (h.withMp pmSlot))
    intro _ v' h'
    apply (quiet_proc rmp).andThen
    intro r
    refine Ensures.ite (fun _ => sure_ksigDelayed hexit h') fun _ => ?_
    exact (quiet_ksigResult rmp).keeps h'

/-! ## §3 Forking -/

/-- A child is born alive with the name of its parent, and VFS is told. -/
theorem sure_bear (h : Good ∅ n k v) (hn : NR_PROCS ≤ n) {who child : Slot}
    {inherited : Finset Flag} {adapt : Mproc → Mproc} {request : Mproc → Mproc → Message}
    (hwho : .IN_USE ∈ (v.slot who).flags) (hchild : .IN_USE ∉ (v.slot child).flags)
    (hinherited : inherited ∩ vitalFlags = {.IN_USE}) (hadapt : ∀ c, SameVital (adapt c) c)
    (hrequest : ∀ c r, (request c r).PM_PROC = c.mpEndpoint ∧ ¬(request c r).Ends) :
    Sure (bear exitProc who child inherited adapt request) v fun _ => Good ∅ n k := by
  apply Sure.proc
  intro r hr
  apply (quiet_ask _).andThen
  intro g
  apply (quiet_countProcs 1).andThen
  intro _
  apply Ensures.bind (Φ := fun _ v' =>
    v' = v.set child ⟨{.IN_USE}, ENDPOINT g child, (v.slot who).name, none⟩)
  · apply sure_modifyProc
    intro _ _
    -- of the vital flags the child inherits `IN_USE` alone
    obtain ⟨hflags, hend, hname⟩ := hadapt (childOf who inherited (ENDPOINT g child) r)
    have hidle : (v.slot child).vfs = none :=
      (h.sound child).idle fun hcall => hchild ((h.sound child).vfsCall hcall)
    have hinUse : r.mpFlags ∩ inherited ∩ vitalFlags = {.IN_USE} := by
      rw [Finset.inter_assoc, hinherited]
      exact Finset.inter_singleton_of_mem (hr.inUse.mpr hwho)
    rw [hflags, hend, hname, hidle, hr.name]
    exact congrArg (fun flags => v.set child ⟨flags, _, _, none⟩) hinUse
  intro _ v' hv'
  subst hv'
  apply Ensures.bind sure_record
  intro _ v' hv'
  subst hv'
  -- from here on the child is in the log, and no longer changes its endpoint
  have hborn := h.birth hn hwho (ENDPOINT_P_ENDPOINT g child)
  apply quiet_getFreePid.andThen
  intro pid
  refine Silent.andThen (quiet_modifyProc child fun _ => ⟨rfl, rfl, rfl⟩) fun _ => ?_
  apply Sure.proc
  intro c hc
  obtain ⟨hproc, hends⟩ := hrequest c r
  have hlive : (((v.set child ⟨{.IN_USE}, ENDPOINT g child, (v.slot who).name, none⟩).push
      (.born child (ENDPOINT g child))).slot child).Live := by
    rw [View.push_slot, View.set_slot_self]
    simp [Entry.Live]
  apply Ensures.bind sure_tellVfs
  intro _ v' hv'
  subst hv'
  have hasked := hborn.requested hlive (hproc.trans hc.endpoint.symm) hends
  exact .when (fun _ => sure_sigProc hexit hasked SIGSTOP true false) fun _ => hasked

omit hexit in
theorem sure_forkWith {child : Slot → Slot → Program Unit} (srv : Bool) (h : Good ∅ n k v)
    (hchild : ∀ slot, .IN_USE ∉ (v.slot slot).flags →
      Sure (child v.mp slot) v fun _ => Good ∅ n k) :
    Sure (forkWith srv child) v fun _ => Good ∅ n k := by
  apply Sure.mp
  apply (quiet_proc _).andThen
  intro r
  apply (quiet_tableFull r).andThen
  intro full
  refine Ensures.ite (fun _ => .pure h) fun _ => ?_
  -- `n` counts the slots tried, and the slot that is left is free
  apply Ensures.bind (sure_findChild srv)
  intro slot _ hpost
  obtain ⟨rfl, hslot⟩ := hpost
  apply (quiet_ask _).andThen
  intro a
  refine Ensures.ite (fun _ => .pure h) fun _ => ?_
  exact .bind (hchild slot hslot) fun _ _ h' => .pure h'

theorem sure_doFork (h : Good ∅ n k v) (hn : NR_PROCS ≤ n) (hmp : .IN_USE ∈ (v.slot v.mp).flags) :
    Sure (doFork exitProc) v fun _ => Good ∅ n k := by
  apply Ensures.bind (sure_forkWith false h _)
  · intro found v' h'
    cases found with
    | inl e => exact .pure h'
    | inr child => exact .pure h'
  · intro slot hslot
    apply (quiet_proc _).andThen
    intro r
    apply Sure.unless
    intro _
    -- `DELAY_CALL` and `TAINTED` are inherited too, and are not vital
    apply sure_bear hexit h hn hmp hslot (by decide)
    · exact fun _ => ⟨rfl, rfl, rfl⟩
    · exact fun c r => ⟨rfl, by simp [Message.Ends, forkMessage]⟩

theorem sure_doSrvFork (h : Good ∅ n k v) (hn : NR_PROCS ≤ n)
    (hmp : .IN_USE ∈ (v.slot v.mp).flags) (uid gid : ℤ) :
    Sure (doSrvFork exitProc uid gid) v fun _ => Good ∅ n k := by
  apply Sure.mp
  apply (quiet_proc _).andThen
  intro r
  refine Ensures.ite (fun _ => .pure h) fun _ => ?_
  apply Ensures.bind (sure_forkWith true h _)
  · intro found v' h'
    cases found with
    | inl e => exact .pure h'
    | inr child =>
      apply (quiet_setreply child _).andThen
      intro _
      exact (quiet_proc child).andThen fun _ => .pure h'
  · intro slot hslot
    apply sure_bear hexit h hn hmp hslot (by decide)
    · exact fun _ => ⟨rfl, rfl, rfl⟩
    · exact fun c r => ⟨rfl, by simp [Message.Ends, srvForkMessage]⟩

end Calls

/-! ## §4 Handlers of other files -/

/-- The invariant between two rounds. -/
abbrev Fine (k : ℕ) (v : View) : Prop := Good ∅ NR_PROCS k v

theorem sure_act (act : Act) (h : Fine k v) : Sure act.run v fun _ => Fine k := by
  cases act with
  | assign => exact (quiet_elsewhere _).keeps h
  | exitProc rmp exitStatus dumpCore =>
    apply Sure.proc
    intro r hr
    apply Ensures.when _ fun _ => h
    intro hlive
    exact keepsGood_exitProc ∅ k v rmp exitStatus dumpCore h (hr.live.mp hlive)
  | sigProc rmp signo trace ksig => exact sure_sigProc keepsGood_exitProc h signo trace ksig
  | checkSig procId signo ksig =>
    exact .bind (sure_checkSig keepsGood_exitProc procId signo ksig h) fun _ _ h' => .pure h'
  | checkPending rmp => exact sure_checkPending keepsGood_exitProc h
  | tellVfs rmp m =>
    apply Sure.proc
    intro r hr
    apply Ensures.when _ fun _ => h
    intro hboth
    obtain ⟨hlive, hends, hm⟩ := hboth
    apply sure_tellVfs.mono
    intro _ v' hv'
    subst hv'
    exact h.requested (hr.live.mp hlive) (hm.trans hr.endpoint.symm) hends

theorem sure_acts (acts : List Act) (h : Fine k v) : Sure (acts.forM Act.run) v fun _ => Fine k :=
  .forM (fun act _ _ hv => sure_act act hv) h

/-! ## §5 Replies of VFS -/

theorem sure_takeReply : Sure (takeReply p) v fun _ v' => v' = v.set p (v.slot p).answered := by
  apply Ensures.bind sure_lower
  intro _ v' hv'
  subst hv'
  apply sure_setVfs.mono
  intro _ v' hv'
  subst hv'
  rw [View.set_set, View.set_slot_self]
  rfl

omit [PmHeader] in
theorem MType.reply_exit {t : MType} (h : t.reply = some .PM_EXIT_REPLY) : t = .PM_EXIT := by
  cases t <;> simp_all [MType.reply]

omit [PmHeader] in
theorem MType.reply_core {t : MType} (h : t.reply = some .PM_CORE_REPLY) : t = .PM_DUMPCORE := by
  cases t <;> simp_all [MType.reply]

/-- `PM_CORE_REPLY`: the process has been killed, or its tracer wanted the core. -/
theorem sure_coreReply {reply : VfsReply} {Φ : Unit → View → Prop}
    (hkilled : reply.PM_PROC = reply.PM_TRACED_PROC → Sure (exitRestart exitProc p true) v Φ)
    (htraced : reply.PM_PROC ≠ reply.PM_TRACED_PROC → Φ () v) : Sure (coreReply p reply) v Φ := by
  refine Silent.andThen (.when (quiet_modifyProc p fun _ => ⟨rfl, rfl, rfl⟩)) fun _ => ?_
  refine Ensures.ite hkilled fun hne => ?_
  apply (quiet_proc p).andThen
  intro r
  exact (quiet_setreply p _).keeps (htraced hne)

/-- The reply to the end of a process. -/
theorem sure_replySwitch_ends {reply : VfsReply} {m : Message} (execRestart : List Act)
    (h : Good {p} NR_PROCS k v) (hd : (v.slot p).Dying) (hans : reply.Answers m) (hends : m.Ends) :
    Sure (replySwitch p reply execRestart) v fun _ => Fine k := by
  have hrestart : ∀ dumpCore, Sure (exitRestart exitProc p dumpCore) v fun _ => Fine k := by
    intro dumpCore
    apply (sure_exitRestart keepsGood_exitProc h hd dumpCore).mono
    intro _ v' h'
    exact h'.of_subset (Set.empty_subset _)
  obtain ⟨hreply, hproc, htraced⟩ := hans
  unfold replySwitch
  -- the type of the request decides the type of the reply
  rcases hends with hty | ⟨hty, heq⟩
  · have hcall : reply.callNr = .PM_EXIT_REPLY := by simpa [hty, MType.reply] using hreply.symm
    rw [hcall]
    exact hrestart false
  · have hcall : reply.callNr = .PM_CORE_REPLY := by simpa [hty, MType.reply] using hreply.symm
    rw [hcall]
    apply sure_coreReply (fun _ => hrestart true)
    intro hne
    rw [hproc, htraced] at hne
    exact absurd heq hne

theorem sure_forkReply (h : Fine k v) (hl : (v.slot p).Live) :
    Sure (forkReply p) v fun _ => Fine k := by
  apply (quiet_startScheduling p).andThen
  intro a
  apply Ensures.ite
  · intro _
    refine Silent.andThen (quiet_modifyProc p fun _ => ⟨rfl, rfl, rfl⟩) fun _ => ?_
    -- the child could not be scheduled, and ends before it has begun
    apply Ensures.bind (keepsGood_exitProc ∅ k v p (-1) false h hl)
    intro _ v' h'
    apply (quiet_proc p).andThen
    intro r
    exact (quiet_setreply _ _).keeps h'
  · intro _
    apply (quiet_setreply p _).andThen
    intro _
    apply (quiet_proc p).andThen
    intro r
    exact (quiet_setreply _ _).keeps h

/-- The reply to a request for a live process. -/
theorem sure_replySwitch_live {reply : VfsReply} {m : Message} (execRestart : List Act)
    (h : Fine k v) (hl : (v.slot p).Live) (hans : reply.Answers m) (hends : ¬m.Ends) :
    Sure (replySwitch p reply execRestart) v fun _ => Fine k := by
  obtain ⟨hreply, hproc, htraced⟩ := hans
  unfold replySwitch
  cases hcall : reply.callNr with
  | PM_SETUID_REPLY => exact (quiet_setreply p _).keeps h
  | PM_SETGID_REPLY => exact (quiet_setreply p _).keeps h
  | PM_SETGROUPS_REPLY => exact (quiet_setreply p _).keeps h
  | PM_SETSID_REPLY => exact (quiet_proc p).andThen fun _ => (quiet_setreply p _).keeps h
  | PM_EXEC_REPLY => exact sure_acts execRestart h
  | PM_EXIT_REPLY =>
    rw [hcall] at hreply
    exact absurd (.inl (MType.reply_exit hreply)) hends
  | PM_CORE_REPLY =>
    rw [hcall] at hreply
    -- a core dump for the tracer: the process lives on
    refine sure_coreReply (fun heq => ?_) fun _ => h
    rw [hproc, htraced] at heq
    exact absurd (.inr ⟨MType.reply_core hreply, heq⟩) hends
  | PM_FORK_REPLY => exact sure_forkReply h hl
  | PM_SRV_FORK_REPLY => exact .pure h
  | PM_UNPAUSE_REPLY => exact (quiet_raise p (by decide)).keeps h
  | PM_REBOOT_REPLY => exact sure_panic

/-- The slot with an open request is the one its answer names. -/
theorem Good.slot_of_request (h : Good X n k v) {q : Slot} {m : Message}
    (hq : (v.slot q).vfs = some m) (hp : ENDPOINT_P m.PM_PROC = p.val) : q = p := by
  have hcall : .VFS_CALL ∈ (v.slot q).flags := by
    by_contra hidle
    rw [(h.sound q).idle hidle] at hq
    exact nomatch hq
  have hend := (h.sound q).endpoint ((h.sound q).vfsCall hcall)
  rw [← ((h.sound q).request m hq).1, hp] at hend
  exact Fin.ext (by exact_mod_cast hend.symm)

/-- `handle_vfs_reply` for an answer to an open request. -/
theorem sure_handleVfsReply {reply : VfsReply} (execRestart : List Act) (h : Fine k v)
    (hvfs : reply.callNr = .PM_REBOOT_REPLY ∨
      ∃ q m, (v.slot q).vfs = some m ∧ reply.Answers m) :
    Sure (handleVfsReply reply execRestart) v fun _ => Fine k := by
  refine Ensures.ite (fun _ => (quiet_ask _).andThen fun _ => .pure h) fun hreboot => ?_
  obtain ⟨q, m, hq, hans⟩ := hvfs.resolve_left hreboot
  apply Ensures.bind (sure_pmIsokendpt reply.PM_PROC)
  intro found v' hpost
  obtain ⟨hv', -, hfound⟩ := hpost
  rw [hv']
  match found with
  | .error _ => exact sure_panic
  | .ok none => exact sure_panic
  | .ok (some p) =>
    obtain ⟨hinUse, -, hslot⟩ := hfound p rfl
    rw [hans.2.1] at hslot
    -- the answer names the slot whose request is open
    obtain rfl := h.slot_of_request hq hslot
    obtain ⟨-, hends⟩ := (h.sound q).request m hq
    apply (quiet_proc q).andThen
    intro r
    apply Sure.unless
    intro _
    apply Ensures.bind sure_takeReply
    intro _ v' hv'
    subst hv'
    apply Sure.unless
    intro _
    have hswitch : Sure (replySwitch q reply execRestart) (v.set q (v.slot q).answered)
        fun _ => Fine k := by
      -- the request tells which half of the invariant the process is in
      by_cases hm : m.Ends
      · have hd : (v.slot q).Dying := ⟨hinUse, hends.mp hm⟩
        apply sure_replySwitch_ends execRestart (h.answered_settles hd) _ hans hm
        rw [View.set_slot_self]
        simpa [Entry.Dying, Entry.answered] using hd
      · have hl : (v.slot q).Live := ⟨hinUse, fun hx => hm (hends.mpr hx)⟩
        apply sure_replySwitch_live execRestart h.answered _ hans hm
        rw [View.set_slot_self]
        exact Entry.answered_live.mpr hl
    apply Ensures.bind hswitch
    intro _ v' h'
    apply Sure.proc
    intro r hr
    apply Ensures.when _ fun _ => h'
    intro hlive
    exact sure_restartSigs keepsGood_exitProc h' (hr.live.mp hlive)

/-! ## §6 Rounds -/

/-- A call of the process `mp`. -/
theorem sure_call (c : Call) {s : PmState} {source : ℤ} (h : Fine k v)
    (hl : (v.slot v.mp).Live) (hsource : (v.slot v.mp).endpoint = source)
    (hvfs : ∀ q, (v.slot q).vfs = s.vfs q) (hc : c.Honest s source) :
    Sure c.run v fun _ => Fine k := by
  have hexit := keepsGood_exitProc
  cases c with
  | fork => exact sure_doFork hexit h le_rfl hl.1
  | srvFork uid gid => exact sure_doSrvFork hexit h le_rfl hl.1 uid gid
  | exit status => exact sure_doExit hexit h hl status
  | waitpid pid wnohang => exact sure_doWaitpid hexit pid wnohang h
  | kill pid sigNr => exact sure_checkSig hexit pid sigNr false h
  | srvKill pid sigNr => exact sure_doSrvKill hexit pid sigNr h
  | pause => exact quiet_doPause.keeps h
  | sigaction sigNr osa nsa sigRet => exact (quiet_doSigaction sigNr osa nsa sigRet).keeps h
  | sigpending => exact quiet_doSigpending.keeps h
  | sigprocmask how set => exact sure_doSigprocmask hexit how set h
  | sigsuspend set => exact sure_doSigsuspend hexit set h
  | sigreturn set => exact sure_doSigreturn hexit set h
  | vfsReply reply execRestart =>
    apply Sure.mp
    apply Sure.proc
    intro r hr
    -- only VFS itself is believed
    refine Ensures.ite (fun hfrom => ?_) fun _ => .pure h
    rw [← hr.endpoint, hsource] at hfrom
    have hans : reply.callNr = .PM_REBOOT_REPLY ∨
        ∃ q m, (v.slot q).vfs = some m ∧ reply.Answers m := by
      simpa only [hvfs] using hc hfrom
    exact .bind (sure_handleVfsReply execRestart h hans) fun _ _ h' => .pure h'
  | other acts result => exact .bind (sure_acts acts h) fun _ _ h' => .pure h'

/-- The caller whose message is not dropped is alive. -/
theorem sure_receive (source : ℤ) (h : Fine k v) :
    Sure (receive source) v fun caller v' => Fine k v' ∧ v'.slot = v.slot ∧
      (0 ≤ ENDPOINT_P source → caller.2 = false →
        (v'.slot v'.mp).Live ∧ (v'.slot v'.mp).endpoint = source) := by
  apply Ensures.bind (sure_pmIsokendpt source)
  intro found v' hpost
  obtain ⟨hv', htask, hproc⟩ := hpost
  rw [hv']
  match found with
  | .error _ => exact sure_panic
  | .ok who =>
    apply Ensures.bind sure_setMp
    intro _ v' hv'
    subst hv'
    apply Sure.proc
    intro r hr
    apply Ensures.pure
    refine ⟨h.withMp _, rfl, ?_⟩
    intro hnonneg hdropped
    cases who with
    -- tasks have negative numbers, and do not call
    | none => exact absurd (htask rfl) (by omega)
    | some p =>
      obtain ⟨hinUse, hend, -⟩ := hproc p rfl
      have hx : .EXITING ∉ r.mpFlags := by simpa using hdropped
      exact ⟨⟨hinUse, fun hmem => hx (hr.exiting.mpr hmem)⟩, hend⟩

/-- One round, whatever PM receives. -/
theorem sure_round (i : Input) {s : PmState} (h : Fine (lost s.log) s.view) (hi : i.Honest s) :
    Sure i.run s.view fun _ => Fine (lost s.log) := by
  cases i with
  | call source c =>
    apply Ensures.bind (sure_receive source h)
    intro caller v' hpost
    obtain ⟨h', hslot, hlive⟩ := hpost
    apply Ensures.when _ fun _ => h'
    intro hkept
    -- the message was not dropped, so the caller is alive
    obtain ⟨hl, hsource⟩ := hlive hi.1 (by simpa using hkept)
    have hvfs : ∀ q, (v'.slot q).vfs = s.vfs q := by
      intro q
      rw [hslot]
      rfl
    apply Ensures.bind (sure_call c h' hl hsource hvfs hi.2)
    intro result v'' h''
    apply (quiet_replyTo caller.1 result).andThen
    intro _
    exact quiet_sendreply.keeps h''
  | notify source acts =>
    apply Ensures.bind (sure_receive source h)
    intro caller v' hpost
    obtain ⟨h', -, -⟩ := hpost
    apply Ensures.when _ fun _ => h'
    intro _
    apply Ensures.bind (sure_acts acts h')
    intro _ v'' h''
    exact quiet_sendreply.keeps h''
  | ksig target signo =>
    apply Ensures.bind (sure_processKsig keepsGood_exitProc target signo h)
    intro _ v' h'
    exact quiet_sendreply.keeps h'
  | rename rmp name =>
    -- a new name may be `cv`; the round begins with nothing lost
    unfold Input.run
    apply sure_modifyProc
    intro r hr
    rw [← hr.flags, ← hr.endpoint]
    exact h.renamed name rfl

end MinixCv.Pm

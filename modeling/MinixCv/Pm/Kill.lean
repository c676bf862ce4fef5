import MinixCv.Pm.Table

/-!
# Nobody Survives `SIGKILL`

A process that is sent `SIGKILL` by `kill` is dead at the end of the round, whatever it
ignores, blocks or catches and whoever traces it, unless VFS is working for it: then the
signal is pending, and `restart_sigs` looks at it when VFS answers.
-/

namespace MinixCv.Pm

open MinixCv.Lib MinixCv.Server PmHeader

variable [PmHeader] {α β : Type} {X : Set Slot} {n k : ℕ} {s s' : PmState} {p q : Slot}

/-! ## §1 Dead for good -/

/-- Nobody comes back to life. -/
theorem Declines.live (h : Declines s s') (hl : (s'.mproc q).Live) : (s.mproc q).Live :=
  ⟨h.inUse q hl.1, fun hx => hl.2 (h.exiting q hl.1 hx)⟩

/-- In front of another program one that unfolds and that the invariant does not see. -/
theorem leads_quiet {m : Program α} {f : α → Program β} {Φ : β → PmState → Prop} (hm : Tidy m)
    (hquiet : Quiet m) (hf : ∀ a s₁, Unfolds s s₁ → s₁.view = s.view → Leads (f a) s₁ Φ) :
    Leads (m >>= f) s Φ := by
  apply Leads.bind ((hm s).and (.of_ensures (hquiet s.view)))
  intro a s₁ hpost
  exact hf a s₁ hpost.1 hpost.2

section Exiting

variable {exitProc : Slot → ℤ → Bool → Program Unit} (hexit : KeepsGood n exitProc)
  (hacts : ExitActs n exitProc)

include hexit hacts

/-- `exit_proc` ends every process but INIT. -/
theorem dead_exitProcBody (htame : Tame s.outside) (h : Good X (n + 1) k s.view)
    (hl : (s.mproc p).Live) (hinit : (s.mproc p).mpEndpoint ≠ INIT_PROC_NR.val) (exitStatus : ℤ)
    (dumpCore : Bool) :
    Leads (exitProcBody exitProc p exitStatus dumpCore) s fun _ s' => ¬(s'.mproc p).Live := by
  apply leads_proc
  apply leads_mp
  apply leads_proc
  apply leads_quiet (tidy_stopRunning p) (quiet_stopRunning p)
  intro _ s₁ hrun hs₁
  have hend : (s₁.mproc p).mpEndpoint = (s.mproc p).mpEndpoint := by
    rw [← (s₁.view_shows p).endpoint, hs₁]
    exact (s.view_shows p).endpoint
  rw [← hs₁] at h
  rw [← live_of_view hs₁] at hl
  refine Leads.ite (fun heq => absurd heq hinit) fun _ => ?_
  apply Leads.bind (Φ := fun _ s₂ => s₂ = s₁)
  · exact .when (fun _ => .throw) fun _ => rfl
  rintro _ _ rfl
  rw [← hend] at hinit
  apply Leads.bind ((leads_announceExit hl hinit exitStatus (mayDump (s.mproc p) dumpCore)).and
    (.of_ensures (sure_announceExit h ((PmState.view_shows _ p).live.mp hl) exitStatus
      (mayDump (s.mproc p) dumpCore))))
  rintro _ s₂ ⟨⟨t, ht, hmark⟩, h₂, hd₂⟩
  apply (leads_finishExit hexit hacts h₂ hd₂ _ _).mono
  rintro _ s₃ ⟨hs₃, -⟩ hl₃
  -- it bears the mark, and nobody takes that away while the slot is in use
  have houtside : s₂.outside = s.outside := by
    obtain ⟨_, heq⟩ := hmark.eq
    rw [heq, ← hrun.outside_eq, ← ht.outside_eq]
    rfl
  rw [← houtside] at htame
  have hl₂ := (hs₃.declines htame).live hl₃
  exact hl₂.2 ((s₂.view_shows p).exiting.mpr hd₂.2)

end Exiting

theorem dead_exitProcDepth (hn : 0 < n) (htame : Tame s.outside) (h : Good X n k s.view)
    (hl : (s.mproc p).Live) (hinit : (s.mproc p).mpEndpoint ≠ INIT_PROC_NR.val) (exitStatus : ℤ)
    (dumpCore : Bool) :
    Leads (exitProcDepth n p exitStatus dumpCore) s fun _ s' => ¬(s'.mproc p).Live := by
  cases n with
  | zero => omega
  | succ n =>
    exact dead_exitProcBody (keepsGood_exitProcDepth n) (exitActs_exitProcDepth n) htame h hl hinit
      exitStatus dumpCore

theorem dead_exitProc (htame : Tame s.outside) (h : Fine k s.view) (hl : (s.mproc p).Live)
    (hinit : (s.mproc p).mpEndpoint ≠ INIT_PROC_NR.val) (exitStatus : ℤ) (dumpCore : Bool) :
    Leads (exitProc p exitStatus dumpCore) s fun _ s' => ¬(s'.mproc p).Live :=
  -- INIT has a slot, so the depth is not zero
  dead_exitProcDepth (INIT_PROC_NR : Slot).pos htame h hl hinit exitStatus dumpCore

theorem dead_sigProcExit (htame : Tame s.outside) (h : Fine k s.view) (hl : (s.mproc p).Live)
    (hinit : (s.mproc p).mpEndpoint ≠ INIT_PROC_NR.val) (signo : ℤ) :
    Leads (sigProcExit exitProc p signo) s fun _ s' => ¬(s'.mproc p).Live := by
  have hend : ∀ {t : PmState}, t.view = s.view →
      (t.mproc p).mpEndpoint ≠ INIT_PROC_NR.val := by
    intro t ht
    rw [← (t.view_shows p).endpoint, ht, (s.view_shows p).endpoint]
    exact hinit
  -- the core dump and the stack trace make no difference to the process
  have hdead : ∀ {t : PmState} (dumpCore : Bool), Unfolds s t → t.view = s.view →
      Leads (exitProc p 0 dumpCore) t fun _ s' => ¬(s'.mproc p).Live := by
    intro t dumpCore hrun ht
    rw [← hrun.outside_eq] at htame
    rw [← ht] at h
    exact dead_exitProc htame h ((live_of_view ht).mpr hl) (hend ht) 0 dumpCore
  refine leads_quiet (tidy_modifyProc p fun _ => .of_eq rfl rfl rfl rfl rfl rfl rfl rfl)
    (quiet_modifyProc p fun _ => ⟨rfl, rfl, rfl⟩) fun _ s₁ hrun₁ hs₁ => ?_
  apply Leads.ite
  · intro _
    apply leads_proc
    apply leads_quiet (.when fun _ => .bind (tidy_ask _) fun _ => .pure ())
      (.when (.bind (quiet_ask _) fun _ => .pure ()))
    intro _ s₂ hrun₂ hs₂
    exact hdead true (hrun₁.trans hrun₂) (hs₂.trans hs₁)
  · intro _
    exact hdead false hrun₁ hs₁

/-! ## §2 `SIGKILL` -/

/-- What the code relies on about the number `SIGKILL`. -/
structure KillSignal : Prop where
  pos : 0 < (SIGKILL : ℤ)
  lt : (SIGKILL : ℤ) < NSIG
  notIgnored : SIGKILL ∉ ignSset

/-- VFS works for the process, and the signal waits for its answer. -/
def Postponed (r : Mproc) : Prop :=
  .VFS_CALL ∈ r.mpFlags ∧ .PM_SIG_PENDING ∈ r.mpFlags ∧ SIGKILL ∈ r.mpSigpending

theorem postponed_sigDeferred (hcall : .VFS_CALL ∈ (s.mproc p).mpFlags) (ksig : Bool) :
    Leads (sigDeferred p SIGKILL ksig) s fun _ s' => Postponed (s'.mproc p) := by
  apply leads_setProc
  apply leads_proc
  apply Leads.when
  · intro _
    apply Leads.bind (leads_require _ _)
    rintro _ _ rfl
    constructor
    intro _ s' hm
    cases hm
    simp [Postponed, PmState.setProc, hcall]
  · intro hpending
    simp only [PmState.setProc, Function.update_self, not_not] at hpending
    simp [Postponed, PmState.setProc, hcall, hpending]

/-- A killable process of a user that gets `SIGKILL`. -/
theorem dead_sigUser (hsig : KillSignal) (htame : Tame s.outside) (h : Fine k s.view)
    (hl : (s.mproc p).Live) (hinit : (s.mproc p).mpEndpoint ≠ INIT_PROC_NR.val)
    (hkill : Killable (s.mproc p)) (ksig : Bool) :
    Leads (sigUser exitProc p SIGKILL ksig) s fun _ s' => ¬(s'.mproc p).Live := by
  apply leads_proc
  -- not ignored, not blocked, not kept for the debugger, not caught, not ignored by default
  refine Leads.ite (fun h => absurd h.2 hkill.mpIgnore) fun _ => ?_
  refine Leads.ite (fun h => absurd h.2 hkill.mpSigmask) fun _ => ?_
  refine Leads.ite (fun h => absurd rfl h.2) fun _ => ?_
  refine Leads.ite (fun h => absurd h.2 hkill.mpCatch) fun _ => ?_
  refine Leads.ite (fun h => absurd h.2 hsig.notIgnored) fun _ => ?_
  exact dead_sigProcExit htame h hl hinit SIGKILL

theorem leads_sigProc_kill (hsig : KillSignal) (htame : Tame s.outside) (h : Fine k s.view)
    (hl : (s.mproc p).Live) (huser : .PRIV_PROC ∉ (s.mproc p).mpFlags)
    (hinit : (s.mproc p).mpEndpoint ≠ INIT_PROC_NR.val) (hkill : Killable (s.mproc p))
    (trace ksig : Bool) :
    Leads (sigProc exitProc p SIGKILL trace ksig) s fun _ s' =>
      ¬(s'.mproc p).Live ∨ .VFS_CALL ∈ (s.mproc p).mpFlags ∧ Postponed (s'.mproc p) := by
  apply leads_proc
  refine Leads.ite (fun hdead => absurd hl hdead) fun _ => ?_
  refine Leads.ite (fun htrace => absurd rfl htrace.2.2) fun _ => ?_
  apply Leads.ite
  · intro hcall
    exact (postponed_sigDeferred hcall ksig).mono fun _ _ hpost => .inr ⟨hcall, hpost⟩
  · intro _
    refine Leads.ite (fun hpriv => absurd hpriv huser) fun _ => ?_
    exact (dead_sigUser hsig htame h hl hinit hkill ksig).mono fun _ _ hdead => .inl hdead

/-- `check_sig` for one process id: the others are passed over, and the one is signalled. -/
theorem leads_checkSigLoop_kill {procId signo : ℤ} {ksig : Bool} {Φ : PmState → Prop}
    (hpos : 0 < procId)
    (hothers : ∀ r, r ≠ q → .IN_USE ∈ (s.mproc r).mpFlags → (s.mproc r).mpPid ≠ procId)
    (hselected : ¬NotSelected (s.mproc s.mp) (s.mproc q) procId signo)
    (hpermitted : ¬NotPermitted (s.mproc s.mp) (s.mproc q) signo ksig) (hsigno : signo ≠ 0)
    (hl : (s.mproc q).Live)
    (hsend : Leads (sigProc exitProc q signo true ksig) s fun _ s' => Φ s') (l : List Slot)
    (hmem : q ∈ l) (count : ℕ) (errorCode : ℤ) :
    Leads (checkSigLoop exitProc procId signo ksig l count errorCode) s fun _ s' => Φ s' := by
  induction l with
  | nil => exact absurd hmem List.not_mem_nil
  | cons r l ih =>
    apply leads_mp
    apply leads_proc
    apply leads_proc
    rcases eq_or_ne r q with rfl | hne
    · refine Leads.ite (fun h => absurd h hselected) fun _ => ?_
      refine Leads.ite (fun h => absurd h hpermitted) fun _ => ?_
      refine Leads.ite (fun h => ?_) fun _ => ?_
      · rcases h with h | h
        · exact absurd h hsigno
        · exact absurd h hl.2
      · apply Leads.bind hsend
        intro _ s' hs'
        exact Leads.ite (fun _ => .pure hs') fun h => absurd hpos h
    · refine Leads.ite (fun _ => ih ?_) fun h => absurd ?_ h
      · exact (List.mem_cons.mp hmem).resolve_left hne.symm
      · by_cases hu : .IN_USE ∈ (s.mproc r).mpFlags
        · exact .inr (.inl ⟨hpos, (hothers r hne hu).symm⟩)
        · exact .inl hu

/-! ## §3 The round -/

/-- The replies touch neither the pending signals nor any flag but `REPLY`. -/
def Replies (s s' : PmState) : Prop :=
  ∀ q, (s'.mproc q).mpSigpending = (s.mproc q).mpSigpending ∧
    ∀ f, f ≠ .REPLY → (f ∈ (s'.mproc q).mpFlags ↔ f ∈ (s.mproc q).mpFlags)

instance : Std.Refl Replies := ⟨fun _ _ => ⟨rfl, fun _ _ => Iff.rfl⟩⟩

instance : IsTrans PmState Replies :=
  ⟨fun _ _ _ h h' q => ⟨(h' q).1.trans (h q).1, fun f hf => ((h' q).2 f hf).trans ((h q).2 f hf)⟩⟩

theorem replies_modifyProc (p : Slot) {f : Mproc → Mproc}
    (hpending : ∀ r, (f r).mpSigpending = r.mpSigpending)
    (hflags : ∀ r g, g ≠ .REPLY → (g ∈ (f r).mpFlags ↔ g ∈ r.mpFlags)) :
    Within Replies (modifyProc p f) := by
  intro s
  constructor
  intro _ s' hm q
  cases hm
  rcases eq_or_ne q p with rfl | hq
  · simp only [Function.update_self]
    exact ⟨hpending _, hflags _⟩
  · simp only [Function.update_of_ne hq]
    exact ⟨trivial, fun _ _ => trivial⟩

theorem replies_setreply (p : Slot) (result : ℤ) : Within Replies (setreply p result) := by
  apply Within.bind
  · exact replies_modifyProc p (fun _ => rfl) fun _ _ _ => Iff.rfl
  · intro _
    refine replies_modifyProc p (fun _ => rfl) fun r g hg => ?_
    simp [hg]

theorem replies_replyTo (who : Option Slot) (result : ℤ) : Within Replies (replyTo who result) := by
  apply Within.when
  intro _
  cases who with
  | none => exact .throw
  | some p => exact replies_setreply p result

theorem replies_sendreply : Within Replies sendreply := by
  apply Within.forM
  intro p s
  apply leads_proc
  apply Within.when
  intro _
  apply Within.bind
  · intro s
    exact ⟨fun _ _ hm => by cases hm; exact fun _ => ⟨rfl, fun _ _ => Iff.rfl⟩⟩
  · intro _
    refine replies_modifyProc p (fun _ => rfl) fun r g hg => ?_
    simp [hg]

theorem Replies.postponed (h : Replies s s') (hs : Postponed (s.mproc q)) :
    Postponed (s'.mproc q) := by
  obtain ⟨hcall, hflag, hpending⟩ := hs
  refine ⟨((h q).2 _ (by decide)).mpr hcall, ((h q).2 _ (by decide)).mpr hflag, ?_⟩
  rw [(h q).1]
  exact hpending

/-- The caller is the process with that endpoint. -/
theorem leads_receive {who : Slot} (h : Fine k s.view) (hwho : (s.mproc who).Live) :
    Leads (receive (s.mproc who).mpEndpoint) s fun caller s' =>
      caller = (some who, false) ∧ s' = { s with mp := who } := by
  have hslot := (h.sound who).endpoint ((s.view_shows who).inUse.mp hwho.1)
  rw [(s.view_shows who).endpoint] at hslot
  have hlt : (ENDPOINT_P (s.mproc who).mpEndpoint).toNat < NR_PROCS ∧
      0 ≤ ENDPOINT_P (s.mproc who).mpEndpoint := by
    rw [hslot]
    exact ⟨by simp, by omega⟩
  have hfound : pmIsokendpt (s.mproc who).mpEndpoint s = .ok (.ok (some who), s) := by
    have heq : (⟨(ENDPOINT_P (s.mproc who).mpEndpoint).toNat, hlt.1⟩ : Slot) = who :=
      Fin.ext (by simp [hslot])
    have hwholt := who.isLt
    unfold pmIsokendpt
    dsimp only
    rw [if_neg (by omega), dif_pos hlt, heq, if_neg (not_not.mpr rfl), if_neg (not_not.mpr hwho.1)]
  constructor
  intro caller s' hrun
  unfold receive at hrun
  rw [bind_apply, hfound] at hrun
  cases hrun
  exact ⟨by simp [hwho.2], rfl⟩

/-- `kill(pid, SIGKILL)` for a process that the caller may signal. -/
theorem leads_checkSig_kill (hsig : KillSignal) (htame : Tame s.outside) (h : Fine k s.view)
    (hord : Ordered ∅ s) (hq : (s.mproc q).Live) (huser : .PRIV_PROC ∉ (s.mproc q).mpFlags)
    (hinit : q ≠ INIT_PROC_NR) (hvm : (s.mproc q).mpEndpoint ≠ VM_PROC_NR)
    (hmay : ¬NotPermitted (s.mproc s.mp) (s.mproc q) SIGKILL false) :
    Leads (checkSig exitProc (s.mproc q).mpPid SIGKILL false) s fun _ s' =>
      ¬(s'.mproc q).Live ∨ .VFS_CALL ∈ (s.mproc q).mpFlags ∧ Postponed (s'.mproc q) := by
  have hpid : INIT_PID < (s.mproc q).mpPid := hord.pidPos q hinit hq.1
  have hone : (0 : ℤ) < INIT_PID := by decide
  have hend : (s.mproc q).mpEndpoint ≠ INIT_PROC_NR.val := by
    intro heq
    -- an endpoint belongs to one slot
    have hslot := (h.sound q).endpoint ((s.view_shows q).inUse.mp hq.1)
    have hslot' := (h.sound INIT_PROC_NR).endpoint
      ((s.view_shows INIT_PROC_NR).inUse.mp hord.initLive.1)
    rw [(s.view_shows q).endpoint, heq] at hslot
    rw [(s.view_shows INIT_PROC_NR).endpoint, hord.initEndpoint, hslot] at hslot'
    exact hinit (Fin.ext (by exact_mod_cast hslot'))
  have hselected : ¬NotSelected (s.mproc s.mp) (s.mproc q) (s.mproc q).mpPid SIGKILL := by
    rintro (hfree | ⟨-, hne⟩ | ⟨hzero, -⟩ | ⟨hall, -⟩ | ⟨hgroup, -⟩ | ⟨hall, -⟩ | heq)
    · exact hfree hq.1
    · exact hne rfl
    · omega
    · omega
    · omega
    · omega
    · exact hvm heq
  have hothers : ∀ r, r ≠ q → .IN_USE ∈ (s.mproc r).mpFlags → (s.mproc r).mpPid ≠ (s.mproc q).mpPid :=
    fun r hne hu heq => hne (hord.pidInj r q hu hq.1 heq)
  have hloop := leads_checkSigLoop_kill (hone.trans hpid) hothers hselected hmay hsig.pos.ne' hq
    (leads_sigProc_kill hsig htame h hq huser hend (hord.killable q hq.1) true false)
    (List.finRange NR_PROCS).reverse (by simp) 0 ESRCH
  have hpos := hsig.pos
  have hlt := hsig.lt
  refine Leads.ite (fun hrange => by omega) fun _ => ?_
  refine Leads.ite (fun hinit => by omega) fun _ => ?_
  apply Leads.bind (Φ := fun _ s' => s' = s)
  · exact .when (fun hall => by omega) fun _ => rfl
  rintro _ _ rfl
  apply Leads.bind hloop
  intro found s' hs'
  apply leads_mp
  apply leads_proc
  exact Leads.ite (fun _ => .pure hs') fun _ => .pure hs'

/-- **Nobody survives `SIGKILL`.**  If the other files leave the processes what they are, then
after every run of PM from its start a `kill` with `SIGKILL` and the process id of a live
process of a user, by a process that may signal it, leaves it dead, unless VFS was working
for it: then the signal is pending, and so marked that it is looked at when VFS answers. -/
theorem kill_ends {s₀ : PmState} {is : List Input}
    {outside : ℕ → OtherFunction → (Slot → Mproc) → Slot → Mproc} (hsig : KillSignal)
    (hstart : Started outside s₀) (htame : Tame outside) (hrun : Run Step s₀ is s) {who : Slot}
    (hwho : (s.mproc who).Live) (hq : (s.mproc q).Live) (huser : .PRIV_PROC ∉ (s.mproc q).mpFlags)
    (hinit : q ≠ INIT_PROC_NR) (hvm : (s.mproc q).mpEndpoint ≠ VM_PROC_NR)
    (hmay : ¬NotPermitted (s.mproc who) (s.mproc q) SIGKILL false)
    (hstep : Step s (.call (s.mproc who).mpEndpoint (.kill (s.mproc q).mpPid SIGKILL)) s') :
    ¬(s'.mproc q).Live ∨ .VFS_CALL ∈ (s.mproc q).mpFlags ∧ Postponed (s'.mproc q) := by
  obtain ⟨hord, houtside⟩ := run_ordered hstart htame hrun
  have hfine : Fine (lost s.log) s.view := run_fine hrun hstart.booted.fine.rebase
  rw [← houtside] at htame
  obtain ⟨-, hround⟩ := hstep
  apply Leads.result (m := (Input.call (s.mproc who).mpEndpoint _).run)
    (Φ := fun _ s' => ¬(s'.mproc q).Live ∨ .VFS_CALL ∈ (s.mproc q).mpFlags ∧ Postponed (s'.mproc q))
    _ () s' hround
  apply Leads.bind (leads_receive hfine hwho)
  rintro _ _ ⟨rfl, rfl⟩
  apply Leads.when _ fun hdropped => absurd rfl hdropped
  intro _
  -- the caller is `mp` now, and the table is the same
  have hord' : Ordered ∅ { s with mp := who } :=
    hord.of_kept (fun _ => .refl _) rfl
  have hsent := leads_checkSig_kill (s := { s with mp := who }) hsig htame (hfine.withMp who) hord'
    hq huser hinit hvm hmay
  have hacts := acts_checkSig keepsGood_exitProc exitActs_exitProc (s.mproc q).mpPid SIGKILL false
    (s := { s with mp := who }) (hfine.withMp who)
  apply Leads.bind (hsent.and hacts)
  rintro result s₁ ⟨hs₁, hrun₁⟩
  have htidy : Tidy (replyTo (some who) result >>= fun _ => sendreply) :=
    .bind (tidy_replyTo _ result) fun _ => tidy_sendreply
  have hreplies : Within Replies (replyTo (some who) result >>= fun _ => sendreply) :=
    .bind (replies_replyTo _ result) fun _ => replies_sendreply
  apply ((htidy s₁).and (hreplies s₁)).mono
  rintro _ s₂ ⟨hrun₂, hkept⟩
  rcases hs₁ with hdead | ⟨hcall, hpost⟩
  · left
    intro hl
    have htame₁ : Tame s₁.outside := by
      rw [hrun₁.outside_eq]
      exact htame
    exact hdead ((hrun₂.declines htame₁).live hl)
  · exact .inr ⟨hcall, hkept.postponed hpost⟩

end MinixCv.Pm

namespace MinixCv.Pm

open MinixCv.Lib MinixCv.Server

section Example

local instance killedTable : PmHeader := PmHeader.sixteen

/-- INIT may signal the process in slot 4, whose id is 8, and PM handles the `kill`. -/
def readyToKill (s : PmState) : Bool :=
  (s.mproc 10).Live ∧ (s.mproc 10).mpEndpoint = 10 ∧ (s.mproc 4).Live ∧ (s.mproc 4).mpPid = 8 ∧
    .PRIV_PROC ∉ (s.mproc 4).mpFlags ∧ (s.mproc 4).mpEndpoint ≠ 8 ∧
    ¬NotPermitted (s.mproc 10) (s.mproc 4) 9 false ∧ .VFS_CALL ∉ (s.mproc 4).mpFlags ∧
    (after (Input.call 10 (.kill 8 9)).run s).isSome

theorem kill_ends_orphan : ∃ s₀ s s', Started (fun _ _ table => table) s₀ ∧
    Run Step s₀ orphanInputs s ∧ (s.mproc 4).Live ∧ Step s (.call 10 (.kill 8 9)) s' ∧
    ¬(s'.mproc 4).Live := by
  have hend : ((cvStart.bind (attend orphanInputs)).map readyToKill) = some true := by
    decide +kernel
  obtain ⟨s, hs, hready⟩ := Option.map_eq_some_iff.mp hend
  obtain ⟨s₀, hs₀, hattend⟩ := Option.bind_eq_some_iff.mp hs
  have hstart : Started (fun _ _ table => table) s₀ :=
    started_of_after (by decide) (by decide) (by decide) (by decide) hs₀
  have hrun := (run_of_attend hattend).mono fun _ _ _ h => h.2.1
  obtain ⟨hinit, hend, hlive, hpid, huser, hvm, hmay, hidle, hafter⟩ := of_decide_eq_true hready
  obtain ⟨s', hs'⟩ := Option.isSome_iff_exists.mp hafter
  have hstep : Step s (.call 10 (.kill 8 9)) s' := ⟨⟨by decide, trivial⟩, run_eq_of_after hs'⟩
  have hsame : Step s (.call (s.mproc 10).mpEndpoint (.kill (s.mproc 4).mpPid PmHeader.SIGKILL)) s' := by
    rw [hend, hpid]
    exact hstep
  have hdead := kill_ends ⟨by decide, by decide, by decide⟩ hstart tame_idle hrun hinit hlive huser
    (by decide) hvm hmay hsame
  exact ⟨s₀, s, s', hstart, hrun, hlive, hstep, hdead.resolve_right fun h => hidle h.1⟩

end Example

end MinixCv.Pm

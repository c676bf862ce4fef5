import MinixCv.Pm.LifeCycle
import MinixCv.Pm.UnfoldExits

/-!
# Rounds Of The Main Loop Unfold

One round of PM unfolds, or a process is born in it, before and behind which it unfolds.

- `Birth`: what the two forks do to the table
- `Round`: what a round does
- `step_round`: every round of the main loop is one
-/

namespace MinixCv.Pm

open MinixCv.Lib MinixCv.Server PmHeader

variable [PmHeader] {α β : Type} {X : Set Slot} {n k : ℕ} {s : PmState} {p : Slot}

/-! ## §1 Calls without births -/

theorem not_mem_maskable (set : Finset ℤ) : SIGKILL ∉ maskable set := by
  simp [maskable]

/-- `KILL` can't be masked. -/
theorem kept_mask {r : Mproc} {mask mask2 : Finset ℤ}
    (hmask : SIGKILL ∉ r.mpSigmask → SIGKILL ∉ mask) :
    Kept r { r with mpSigmask := mask, mpSigmask2 := mask2 } :=
  ⟨Iff.rfl, Iff.rfl, rfl, rfl, rfl,
    fun h => ⟨h.mpIgnore, h.mpCatch, hmask h.mpSigmask, h.saMask⟩⟩

section Calls

variable {exitProc : Slot → ℤ → Bool → Program Unit} (hexit : KeepsGood n exitProc)
  (hacts : ExitActs n exitProc)

include hexit hacts

theorem acts_exitRestart (h : Good {p} n k s.view) (hd : (s.view.slot p).Dying)
    (dumpCore : Bool) : Acts (exitRestart exitProc p dumpCore) s := by
  apply leads_proc
  apply Acts.quiet (tidy_ask _) (quiet_ask _)
  intro _ s₁ hs₁
  rw [← hs₁] at h hd
  refine Acts.quiet (tidy_modifyProc p fun _ => .of_eq rfl rfl rfl rfl rfl rfl rfl rfl)
    (quiet_modifyProc p fun _ => ⟨rfl, rfl, rfl⟩) fun _ s₂ hs₂ => ?_
  rw [← hs₂] at h hd
  apply Acts.bind (Acts.when fun _ => acts_zombify hacts h hd)
    (.when (fun _ => sure_zombify hexit h hd) fun _ => h)
  intro _ s₃ h₃
  apply leads_proc
  apply Acts.quiet (.when fun _ => tidy_require _ _) (.when (quiet_require _ _))
  intro _ s₄ hs₄
  apply Acts.quiet (tidy_require _ _) (quiet_require _ _)
  intro _ s₅ hs₅
  refine Acts.quiet
    (.when fun _ => .bind (tidy_modifyProc _ fun _ => .of_eq rfl rfl rfl rfl rfl rfl rfl rfl)
      fun _ => tidy_setreply _ _)
    (.when (.bind (quiet_modifyProc _ fun _ => ⟨rfl, rfl, rfl⟩) fun _ => quiet_setreply _ _))
    fun _ s₆ hs₆ => ?_
  have hsame : s₆.view = s₃.view := hs₆.trans (hs₅.trans hs₄)
  apply Acts.when
  intro htold
  -- who has told its parent is dead
  have hd₃ := h₃.dying ((h₃.sound p).toldParent ((s₃.view_shows p).toldParent.mp htold))
  rw [← hsame] at hd₃
  exact acts_cleanup hd₃

theorem acts_waitpidLoop (who : Slot) (pidarg : ℤ) (slots : List Slot) (children : ℕ)
    (h : Good X n k s.view) : Acts (waitpidLoop exitProc who pidarg slots children) s := by
  induction slots generalizing children with
  | nil => exact Acts.pure
  | cons rp rest ih =>
    apply leads_proc
    refine Leads.ite (fun _ => ih children) fun _ => ?_
    apply Leads.ite
    · intro _
      apply Acts.bind (tidy_tellTracer rp s) (sure_tellTracer h)
      intro _ s₁ hpost
      apply Acts.bind (acts_checkParent hacts hpost.1 true) (sure_checkParent hexit hpost.1 true)
      intro _ s₂ _
      exact Acts.pure
    · intro _
      cases tracedSignal who (s.mproc rp) with
      | some i =>
        apply Acts.of_tidy
        refine Within.bind (tidy_modifyProc rp fun _ => .of_eq rfl rfl rfl rfl rfl rfl rfl rfl)
          fun _ => ?_
        refine Within.bind (tidy_modifyProc who fun _ => .of_eq rfl rfl rfl rfl rfl rfl rfl rfl)
          fun _ => ?_
        exact .pure _
      | none =>
        refine Leads.ite (fun _ => ?_) fun _ => ih (children + 1)
        apply Acts.bind (tidy_tellParent rp s) (sure_tellParent h)
        intro _ s₁ hpost
        apply leads_proc
        apply Leads.climb ((Acts.when fun _ => acts_cleanup hpost.2).mono fun _ _ hs => ⟨hs, trivial⟩)
        intro _ s₂ _ _
        exact Acts.pure

theorem acts_doWaitpid (pid : ℤ) (wnohang : Bool) (h : Good X n k s.view) :
    Acts (doWaitpid exitProc pid wnohang) s := by
  apply leads_mp
  apply leads_proc
  apply Acts.bind (acts_waitpidLoop hexit hacts _ _ _ 0 h) (sure_waitpidLoop hexit _ _ _ 0 h)
  intro found s₁ _
  cases found with
  | inl result => exact Acts.pure
  | inr children =>
    refine Leads.ite (fun _ => ?_) fun _ => Acts.pure
    refine Leads.ite (fun _ => Acts.pure) fun _ => ?_
    apply Acts.of_tidy
    apply Within.bind (tidy_raise _ (by decide) (by decide))
    intro _
    exact .bind (tidy_modifyProc _ fun _ => .of_eq rfl rfl rfl rfl rfl rfl rfl rfl) fun _ => .pure _

omit hexit in
theorem acts_doExit (h : Good X n k s.view) (hl : (s.mproc s.mp).Live) (status : ℤ) :
    Acts (doExit exitProc status) s := by
  apply leads_mp
  apply leads_proc
  apply Leads.ite
  · intro _
    exact Acts.of_tidy (.bind (tidy_ask _) fun _ => .pure _)
  · intro _
    apply Leads.climb ((hacts X k s s.mp status false h hl).mono fun _ _ hs => ⟨hs, trivial⟩)
    intro _ s' _ _
    exact Acts.pure

omit hexit hacts in
/-- An assignment that the invariant does not see. -/
theorem acts_masked {f : Mproc → Mproc} (hkept : ∀ r, Kept r (f r)) (hvital : ∀ r, SameVital (f r) r)
    {g : Unit → Program β} (h : Good X n k s.view)
    (hg : ∀ s', Good X n k s'.view → Acts (g ()) s') : Acts (modifyProc p f >>= g) s := by
  apply Acts.quiet (tidy_modifyProc p hkept) (quiet_modifyProc p hvital)
  intro _ s' hs'
  rw [← hs'] at h
  exact hg s' h

theorem acts_pendingThen (a : α) (h : Good X n k s.view) :
    Acts (checkPending exitProc p >>= fun _ => pure a) s := by
  apply Acts.bind (acts_checkPending hexit hacts h) (sure_checkPending hexit h)
  intro _ s' _
  exact Acts.pure

theorem acts_doSigprocmask (how : SigHow) (set : Finset ℤ) (h : Good X n k s.view) :
    Acts (doSigprocmask exitProc how set) s := by
  apply leads_mp
  refine acts_masked ?_ ?_ h fun s₁ h₁ => ?_
  · exact fun _ => .of_eq rfl rfl rfl rfl rfl rfl rfl rfl
  · exact fun _ => ⟨rfl, rfl, rfl⟩
  cases how with
  | SIG_BLOCK =>
    apply acts_masked _ _ h₁
    · exact fun s₂ _ => Acts.pure
    · intro r
      apply kept_mask
      intro hr
      simp [hr, not_mem_maskable]
    · exact fun _ => ⟨rfl, rfl, rfl⟩
  | SIG_UNBLOCK =>
    apply acts_masked _ _ h₁
    · exact fun s₂ h₂ => acts_pendingThen hexit hacts _ h₂
    · intro r
      apply kept_mask
      intro hr
      simp [hr]
    · exact fun _ => ⟨rfl, rfl, rfl⟩
  | SIG_SETMASK =>
    apply acts_masked _ _ h₁
    · exact fun s₂ h₂ => acts_pendingThen hexit hacts _ h₂
    · exact fun r => kept_mask fun _ => not_mem_maskable set
    · exact fun _ => ⟨rfl, rfl, rfl⟩
  | SIG_INQUIRE => exact Acts.pure
  | other => exact Acts.pure

theorem acts_doSigsuspend (set : Finset ℤ) (h : Good X n k s.view) :
    Acts (doSigsuspend exitProc set) s := by
  apply leads_mp
  refine acts_masked ?_ ?_ h fun s₁ h₁ => ?_
  · exact fun r => kept_mask fun _ => not_mem_maskable set
  · exact fun _ => ⟨rfl, rfl, rfl⟩
  apply Acts.quiet (tidy_raise _ (by decide) (by decide)) (quiet_raise _ (by decide))
  intro _ s₂ hs₂
  rw [← hs₂] at h₁
  exact acts_pendingThen hexit hacts _ h₁

theorem acts_doSigreturn (set : Finset ℤ) (h : Good X n k s.view) :
    Acts (doSigreturn exitProc set) s := by
  apply leads_mp
  refine acts_masked ?_ ?_ h fun s₁ h₁ => ?_
  · exact fun r => kept_mask fun _ => not_mem_maskable set
  · exact fun _ => ⟨rfl, rfl, rfl⟩
  apply leads_proc
  apply Acts.quiet (tidy_ask _) (quiet_ask _)
  intro a s₂ hs₂
  rw [← hs₂] at h₁
  exact acts_pendingThen hexit hacts a h₁

theorem acts_doSrvKill (pid sigNr : ℤ) (h : Good X n k s.view) :
    Acts (doSrvKill exitProc pid sigNr) s := by
  apply leads_mp
  apply leads_proc
  exact Leads.ite (fun _ => Acts.pure) fun _ => acts_checkSig hexit hacts pid sigNr true h

theorem acts_ksigDelayed (h : Good X n k s.view) : Acts (ksigDelayed exitProc p) s := by
  apply Acts.quiet (tidy_lower p (by decide) (by decide)) (quiet_lower p (by decide))
  intro _ s₁ hs₁
  rw [← hs₁] at h
  apply leads_proc
  refine Leads.ite (fun _ => Acts.pure) fun _ => ?_
  apply Acts.unless
  intro _
  apply Acts.bind (acts_checkPending hexit hacts h) (sure_checkPending hexit h)
  intro _ s₂ _
  apply leads_proc
  apply Acts.unless
  intro _
  exact tidy_ksigResult p s₂

theorem acts_processKsig (procNrE signo : ℤ) (h : Good X n k s.view) :
    Acts (processKsig exitProc procNrE signo) s := by
  apply Acts.quiet (tidy_pmIsokendpt procNrE) (quiet_pmIsokendpt procNrE)
  intro found s₁ hs₁
  rw [← hs₁] at h
  match found with
  | .error _ => exact Acts.pure
  | .ok none => exact Acts.pure
  | .ok (some rmp) =>
    apply leads_proc
    refine Leads.ite (fun _ => Acts.pure) fun _ => ?_
    apply Acts.bind (tidy_setMp _ s₁) sure_setMp
    intro _ s₂ hs₂
    have h₂ : Good X n k s₂.view := by
      rw [hs₂]
      exact h.withMp pmSlot
    refine Acts.quiet (tidy_modifyProc _ fun _ => .of_eq rfl rfl rfl rfl rfl rfl rfl rfl)
      (quiet_modifyProc _ fun _ => ⟨rfl, rfl, rfl⟩) fun _ s₃ hs₃ => ?_
    rw [← hs₃] at h₂
    apply Acts.quiet (tidy_ksigTarget rmp _ signo) (quiet_ksigTarget rmp _ signo)
    intro id s₄ hs₄
    rw [← hs₄] at h₂
    apply Acts.bind (acts_checkSig hexit hacts id signo true h₂) (sure_checkSig hexit id signo true h₂)
    intro _ s₅ h₅
    apply leads_proc
    refine Leads.ite (fun _ => acts_ksigDelayed hexit hacts h₅) fun _ => ?_
    exact tidy_ksigResult rmp s₅

end Calls

/-! ## §2 Births -/

/-- A live process has a child in a slot that was free, with a process id that nobody has. -/
structure Birth (s s' : PmState) (who child : Slot) (c : Mproc) : Prop where
  parent : (s.mproc who).Live
  free : .IN_USE ∉ (s.mproc child).mpFlags
  mproc : s'.mproc = Function.update s.mproc child c
  live : c.Live
  mpParent : c.mpParent = who
  mpPid : ∀ q, q ≠ child → (s.mproc q).mpPid ≠ c.mpPid
  nextPid : INIT_PID ≤ s.nextPid → INIT_PID < c.mpPid ∧ INIT_PID < s'.nextPid
  killable : Killable (s.mproc who) → Killable c
  procsInUse : s'.procsInUse = s.procsInUse + 1
  outside : s'.outside = s.outside
  log : s'.log = .born child c.mpEndpoint :: s.log

/-- What may happen in one round. -/
inductive Round : PmState → PmState → Prop where
  | unfold {s t : PmState} : Unfolds s t → Round s t
  | birth {s t u v : PmState} {who child : Slot} {c : Mproc} :
      Unfolds s t → Birth t u who child c → Unfolds u v → Round s v

namespace Round

variable {t u : PmState}

theorem after (h : Unfolds s t) (h' : Round t u) : Round s u := by
  cases h' with
  | unfold h' => exact .unfold (h.trans h')
  | birth h₁ hbirth h₂ => exact .birth (h.trans h₁) hbirth h₂

theorem before (h : Round s t) (h' : Unfolds t u) : Round s u := by
  cases h with
  | unfold h => exact .unfold (h.trans h')
  | birth h₁ hbirth h₂ => exact .birth h₁ hbirth (h₂.trans h')

end Round

/-- `get_free_pid` returns a number that is nobody's id and nobody's group. -/
theorem leads_getFreePid :
    Leads getFreePid s fun pid s' => s' = { s with nextPid := pid } ∧
      (∀ i, (s.mproc i).mpPid ≠ pid) ∧ (INIT_PID ≤ s.nextPid → INIT_PID < pid) := by
  unfold getFreePid
  -- the rounds of the loop differ in `next_pid` only
  have hloop : ∀ m (t : PmState), t = { s with nextPid := t.nextPid } →
      (INIT_PID ≤ s.nextPid → INIT_PID ≤ t.nextPid) →
      Leads (getFreePidLoop m) t fun pid s' => s' = { s with nextPid := pid } ∧
        (∀ i, (s.mproc i).mpPid ≠ pid) ∧ (INIT_PID ≤ s.nextPid → INIT_PID < pid) := by
    intro m
    induction m with
    | zero => exact fun t _ _ => .throw
    | succ m ih =>
      intro t ht hpid
      constructor
      intro pid s' hrun
      unfold getFreePidLoop at hrun
      dsimp only at hrun
      -- the candidate is above `INIT_PID`, whether the numbers have come round or not
      have hnext : INIT_PID ≤ s.nextPid →
          INIT_PID < if t.nextPid < NR_PIDS then t.nextPid + 1 else INIT_PID + 1 := by
        intro hle
        have hle' := hpid hle
        split <;> omega
      generalize (if t.nextPid < (NR_PIDS : ℤ) then t.nextPid + 1 else INIT_PID + 1) = next
        at hrun hnext
      split at hrun
      · refine (ih { t with nextPid := next } ?_ fun hle => (hnext hle).le).result pid s' hrun
        rw [ht]
      · rename_i hfresh
        cases hrun
        refine ⟨by rw [ht], fun i heq => hfresh ⟨i, .inl ?_⟩, hnext⟩
        have hmproc : t.mproc = s.mproc := by rw [ht]
        rw [hmproc]
        exact heq
  exact hloop _ s rfl id

/-- The entry of a child is alive, and belongs to its parent. -/
theorem childOf_live {who : Slot} {inherited : Finset Flag} {r : Mproc} {childEp : ℤ}
    (hr : .IN_USE ∈ r.mpFlags) (hinherited : inherited ∩ vitalFlags = {.IN_USE}) :
    (childOf who inherited childEp r).Live := by
  have hvital : ∀ f, f ∈ vitalFlags → (f ∈ inherited ↔ f = .IN_USE) := by
    intro f hf
    rw [← Finset.mem_singleton, ← hinherited, Finset.mem_inter]
    exact (and_iff_left hf).symm
  have hinUse : .IN_USE ∈ inherited := (hvital .IN_USE (by decide)).mpr rfl
  have hexiting : .EXITING ∉ inherited := by
    rw [hvital .EXITING (by decide)]
    decide
  exact ⟨Finset.mem_inter.mpr ⟨hr, hinUse⟩, fun hx => hexiting (Finset.mem_inter.mp hx).2⟩

section Forking

variable {exitProc : Slot → ℤ → Bool → Program Unit} (hacts : ExitActs n exitProc)

include hacts

/-- The two forks from `vm_fork` on. -/
theorem leads_bear (h : Good ∅ n k s.view) (hn : NR_PROCS ≤ n) {who child : Slot}
    {inherited : Finset Flag} {adapt : Mproc → Mproc} {request : Mproc → Mproc → Message}
    (hwho : (s.mproc who).Live) (hchild : .IN_USE ∉ (s.mproc child).mpFlags)
    (hinherited : inherited ∩ vitalFlags = {.IN_USE}) (hadapt : ∀ c, Kept c (adapt c))
    (hvital : ∀ c, SameVital (adapt c) c)
    (hrequest : ∀ c r, (request c r).PM_PROC = c.mpEndpoint ∧ ¬(request c r).Ends) :
    Leads (bear exitProc who child inherited adapt request) s fun _ s' => Round s s' := by
  apply leads_proc
  apply Leads.bind (Φ := fun _ s₁ => s₁ = { s with asked := s.asked + 1 })
  · exact ⟨fun _ _ hm => by cases hm; rfl⟩
  rintro g _ rfl
  apply Leads.bind (Φ := fun _ s₁ =>
    s₁ = { s with asked := s.asked + 1, procsInUse := s.procsInUse + 1 })
  · exact ⟨fun _ _ hm => by cases hm; rfl⟩
  rintro _ _ rfl
  apply leads_setProc
  -- the entry of the child, but for its process id
  generalize hc₀ : adapt (childOf who inherited (ENDPOINT g child) (s.mproc who)) = c₀
  have hkept : Kept (childOf who inherited (ENDPOINT g child) (s.mproc who)) c₀ := hc₀ ▸ hadapt _
  apply Leads.bind (Φ := fun _ s₁ =>
    s₁ = { s with
      mproc := Function.update s.mproc child c₀
      asked := s.asked + 1
      procsInUse := s.procsInUse + 1
      log := .born child (ENDPOINT g child) :: s.log })
  · exact ⟨fun _ _ hm => by cases hm; rfl⟩
  rintro _ _ rfl
  apply Leads.bind leads_getFreePid
  rintro pid _ ⟨rfl, hfresh, hpid⟩
  apply leads_setProc
  generalize hs' : PmState.setProc _ child _ = s'
  have hbirth : Birth s s' who child { c₀ with mpPid := pid } := by
    subst hs'
    refine ⟨hwho, hchild, ?_, ?_, ?_, ?_, ?_, ?_, rfl, rfl, ?_⟩
    · simp [PmState.setProc]
    · exact hkept.live.mpr (childOf_live hwho.1 hinherited)
    · exact hkept.mpParent
    · intro q hq
      simpa [hq] using hfresh q
    · intro hle
      exact ⟨hpid hle, hpid hle⟩
    · intro hr
      have hc := hkept.killable ⟨hr.mpIgnore, hr.mpCatch, hr.mpSigmask, hr.saMask⟩
      exact ⟨hc.mpIgnore, hc.mpCatch, hc.mpSigmask, hc.saMask⟩
    · exact congrArg (fun ep => .born child ep :: s.log) hkept.mpEndpoint.symm
  have hview : s'.view = (s.view.set child
      ⟨{.IN_USE}, ENDPOINT g child, (s.view.slot who).name, none⟩).push
        (.born child (ENDPOINT g child)) := by
    obtain ⟨hflags, hend, hname⟩ := hvital (childOf who inherited (ENDPOINT g child) (s.mproc who))
    rw [hc₀] at hflags hend hname
    have hidle : s.vfs child = none := (h.sound child).idle fun hcall =>
      hchild ((s.view_shows child).inUse.mpr ((h.sound child).vfsCall hcall))
    have hinUse : (s.mproc who).mpFlags ∩ inherited ∩ vitalFlags = {.IN_USE} := by
      rw [Finset.inter_assoc, hinherited]
      exact Finset.inter_singleton_of_mem hwho.1
    subst hs'
    apply View.ext
    · funext q
      rcases eq_or_ne q child with rfl | hq
      · simp only [PmState.view, PmState.setProc, View.push_slot, View.set, Function.update_self,
          hflags, hend, hname, hidle]
        exact congrArg (fun flags => (⟨flags, _, _, none⟩ : Entry)) hinUse
      · simp [PmState.view, PmState.setProc, View.set, hq]
    · rfl
    · rfl
  -- the child is in the log, and PM goes on with it as with any other process
  have hborn := h.birth hn ((s.view_shows who).inUse.mp hwho.1) (ENDPOINT_P_ENDPOINT g child)
  rw [← hview] at hborn
  have hlive : (s'.mproc child).Live := by
    rw [hbirth.mproc, Function.update_self]
    exact hbirth.live
  apply Leads.mono (Φ := fun _ s'' => Unfolds s' s'')
  · apply leads_proc
    obtain ⟨hproc, hends⟩ := hrequest (s'.mproc child) (s.mproc who)
    apply Acts.bind (tidy_tellVfs child _ s') sure_tellVfs
    intro _ s₁ hs₁
    have hasked := hborn.requested ((s'.view_shows child).live.mp hlive) hproc hends
    rw [← hs₁] at hasked
    exact Acts.when fun _ => acts_sigProc hacts hasked SIGSTOP true false
  · intro _ s'' hrest
    exact .birth (.refl s) hbirth hrest

omit hacts in
theorem tidy_findChild (srv : Bool) : Tidy (findChild srv) := by
  apply tidy_of_calm
  intro s
  constructor
  intro slot s' hm
  unfold findChild at hm
  generalize findChildLoop _ _ _ _ = found at hm
  dsimp only at hm
  split_ifs at hm
  · cases hm
    exact calm_of_eq rfl rfl rfl rfl List.suffix_rfl
  · cases hm
    exact calm_of_eq rfl rfl rfl rfl List.suffix_rfl

omit hacts in
theorem leads_forkWith {child : Slot → Slot → Program Unit} (srv : Bool)
    (hchild : ∀ slot s', s'.view = s.view → .IN_USE ∉ (s.view.slot slot).flags →
      Leads (child s.mp slot) s' fun _ s'' => Round s' s'') :
    Leads (forkWith srv child) s fun _ s' => Round s s' := by
  apply leads_mp
  apply leads_proc
  apply Leads.bind ((tidy_tableFull _ s).and (.of_ensures (quiet_tableFull _ s.view)))
  rintro full s₁ ⟨h₁, hs₁⟩
  refine Leads.ite (fun _ => .pure (.unfold h₁)) fun _ => ?_
  apply Leads.bind ((tidy_findChild srv s₁).and (.of_ensures (sure_findChild srv)))
  rintro slot s₂ ⟨h₂, hs₂, hslot⟩
  apply Leads.bind ((tidy_ask _ s₂).and (.of_ensures (quiet_ask _ s₂.view)))
  rintro a s₃ ⟨h₃, hs₃⟩
  have hrun : Unfolds s s₃ := (h₁.trans h₂).trans h₃
  refine Leads.ite (fun _ => .pure (.unfold hrun)) fun _ => ?_
  rw [hs₁] at hslot hs₂
  apply Leads.bind (hchild slot s₃ (hs₃.trans hs₂) hslot)
  intro _ s₄ h₄
  exact .pure (h₄.after hrun)

theorem leads_doFork (h : Good ∅ n k s.view) (hn : NR_PROCS ≤ n) (hmp : (s.mproc s.mp).Live) :
    Leads (doFork exitProc) s fun _ s' => Round s s' := by
  apply Leads.bind (leads_forkWith false _)
  · intro found s' h'
    cases found with
    | inl e => exact .pure h'
    | inr child => exact .pure h'
  · intro slot s' hview hslot
    rw [← hview] at h hslot
    apply leads_proc
    apply Leads.bind (Φ := fun _ s'' => s'' = s')
    · exact .when (fun _ => .throw) fun _ => rfl
    rintro _ _ rfl
    apply leads_bear hacts h hn ((live_of_view hview).mpr hmp) _ (by decide)
    · exact fun c => .of_eq rfl rfl rfl rfl rfl rfl rfl rfl
    · exact fun _ => ⟨rfl, rfl, rfl⟩
    · exact fun c r => ⟨rfl, by simp [Message.Ends, forkMessage]⟩
    · exact fun hu => hslot ((PmState.view_shows _ slot).inUse.mp hu)

theorem leads_doSrvFork (h : Good ∅ n k s.view) (hn : NR_PROCS ≤ n) (hmp : (s.mproc s.mp).Live)
    (uid gid : ℤ) : Leads (doSrvFork exitProc uid gid) s fun _ s' => Round s s' := by
  apply leads_mp
  apply leads_proc
  refine Leads.ite (fun _ => .pure (.unfold (.refl s))) fun _ => ?_
  apply Leads.bind (leads_forkWith true _)
  · intro found s' h'
    cases found with
    | inl e => exact .pure h'
    | inr child =>
      have hreply : Tidy (setreply child OK >>= fun _ => proc child >>= fun c => pure c.mpPid) :=
        .bind (tidy_setreply child _) fun _ => .bind (tidy_proc child) fun c => .pure _
      exact (hreply s').mono fun _ _ hrest => h'.before hrest
  · intro slot s' hview hslot
    rw [← hview] at h hslot
    apply leads_bear hacts h hn ((live_of_view hview).mpr hmp) _ (by decide)
    · exact fun c => .of_eq rfl rfl rfl rfl rfl rfl rfl rfl
    · exact fun _ => ⟨rfl, rfl, rfl⟩
    · exact fun c r => ⟨rfl, by simp [Message.Ends, srvForkMessage]⟩
    · exact fun hu => hslot ((PmState.view_shows _ slot).inUse.mp hu)

end Forking

/-! ## §3 Handlers of other files, and replies of VFS -/

theorem acts_act (act : Act) (h : Fine k s.view) : Acts act.run s := by
  cases act with
  | assign => exact Acts.of_tidy (tidy_elsewhere _)
  | exitProc rmp exitStatus dumpCore =>
    apply leads_proc
    apply Acts.when
    intro hlive
    exact exitActs_exitProc ∅ k s rmp exitStatus dumpCore h hlive
  | sigProc rmp signo trace ksig => exact acts_sigProc exitActs_exitProc h signo trace ksig
  | checkSig procId signo ksig =>
    apply Acts.bind (acts_checkSig keepsGood_exitProc exitActs_exitProc procId signo ksig h)
      (sure_checkSig keepsGood_exitProc procId signo ksig h)
    intro _ s' _
    exact Acts.pure
  | checkPending rmp => exact acts_checkPending keepsGood_exitProc exitActs_exitProc h
  | tellVfs rmp m =>
    apply leads_proc
    apply Acts.when
    intro _
    exact Acts.of_tidy (tidy_tellVfs rmp m)

theorem acts_acts (acts : List Act) (h : Fine k s.view) : Acts (acts.forM Act.run) s := by
  induction acts generalizing s with
  | nil => exact Acts.pure
  | cons act acts ih =>
    apply Acts.bind (acts_act act h) (sure_act act h)
    intro _ s' h'
    exact ih h'

theorem acts_coreReply {reply : VfsReply}
    (hkilled : reply.PM_PROC = reply.PM_TRACED_PROC →
      ∀ s', s'.view = s.view → Acts (exitRestart exitProc p true) s') :
    Acts (coreReply p reply) s := by
  refine Acts.quiet
    (.when fun _ => tidy_modifyProc p fun _ => .of_eq rfl rfl rfl rfl rfl rfl rfl rfl)
    (.when (quiet_modifyProc p fun _ => ⟨rfl, rfl, rfl⟩)) fun _ s₁ hs₁ => ?_
  refine Leads.ite (fun heq => hkilled heq s₁ hs₁) fun _ => ?_
  apply leads_proc
  exact Acts.of_tidy (tidy_setreply p _)

/-- The reply to the end of a process. -/
theorem acts_replySwitch_ends {reply : VfsReply} {m : Message} (execRestart : List Act)
    (h : Good {p} NR_PROCS k s.view) (hd : (s.view.slot p).Dying) (hans : reply.Answers m)
    (hends : m.Ends) : Acts (replySwitch p reply execRestart) s := by
  obtain ⟨hreply, -, -⟩ := hans
  unfold replySwitch
  rcases hends with hty | ⟨hty, -⟩
  · have hcall : reply.callNr = .PM_EXIT_REPLY := by simpa [hty, MType.reply] using hreply.symm
    rw [hcall]
    exact acts_exitRestart keepsGood_exitProc exitActs_exitProc h hd false
  · have hcall : reply.callNr = .PM_CORE_REPLY := by simpa [hty, MType.reply] using hreply.symm
    rw [hcall]
    apply acts_coreReply
    intro _ s' hs'
    rw [← hs'] at h hd
    exact acts_exitRestart keepsGood_exitProc exitActs_exitProc h hd true

theorem acts_forkReply (h : Fine k s.view) (hl : (s.mproc p).Live) : Acts (forkReply p) s := by
  apply Acts.quiet (tidy_startScheduling p) (quiet_startScheduling p)
  intro a s₁ hs₁
  apply Leads.ite
  · intro _
    refine Acts.quiet (tidy_modifyProc p fun _ => .of_eq rfl rfl rfl rfl rfl rfl rfl rfl)
      (quiet_modifyProc p fun _ => ⟨rfl, rfl, rfl⟩) fun _ s₂ hs₂ => ?_
    have hview : s₂.view = s.view := hs₂.trans hs₁
    rw [← hview] at h
    have hl₂ : (s₂.mproc p).Live := (live_of_view hview).mpr hl
    apply Acts.bind (exitActs_exitProc ∅ k s₂ p (-1) false h hl₂)
      (keepsGood_exitProc ∅ k s₂.view p (-1) false h ((s₂.view_shows p).live.mp hl₂))
    intro _ s₃ _
    apply leads_proc
    exact Acts.of_tidy (tidy_setreply _ _)
  · intro _
    apply Acts.quiet (tidy_setreply p _) (quiet_setreply p _)
    intro _ s₂ _
    apply leads_proc
    exact Acts.of_tidy (tidy_setreply _ _)

/-- The reply to a request for a live process. -/
theorem acts_replySwitch_live {reply : VfsReply} {m : Message} (execRestart : List Act)
    (h : Fine k s.view) (hl : (s.mproc p).Live) (hans : reply.Answers m) (hends : ¬m.Ends) :
    Acts (replySwitch p reply execRestart) s := by
  obtain ⟨hreply, hproc, htraced⟩ := hans
  unfold replySwitch
  cases hcall : reply.callNr with
  | PM_SETUID_REPLY => exact Acts.of_tidy (tidy_setreply p _)
  | PM_SETGID_REPLY => exact Acts.of_tidy (tidy_setreply p _)
  | PM_SETGROUPS_REPLY => exact Acts.of_tidy (tidy_setreply p _)
  | PM_SETSID_REPLY =>
    apply leads_proc
    exact Acts.of_tidy (tidy_setreply p _)
  | PM_EXEC_REPLY => exact acts_acts execRestart h
  | PM_EXIT_REPLY =>
    rw [hcall] at hreply
    exact absurd (.inl (MType.reply_exit hreply)) hends
  | PM_CORE_REPLY =>
    rw [hcall] at hreply
    apply acts_coreReply
    intro heq
    rw [hproc, htraced] at heq
    exact absurd (.inr ⟨MType.reply_core hreply, heq⟩) hends
  | PM_FORK_REPLY => exact acts_forkReply h hl
  | PM_SRV_FORK_REPLY => exact Acts.pure
  | PM_UNPAUSE_REPLY => exact Acts.of_tidy (tidy_raise p (by decide) (by decide))
  | PM_REBOOT_REPLY => exact .throw

theorem acts_handleVfsReply {reply : VfsReply} (execRestart : List Act) (h : Fine k s.view)
    (hvfs : reply.callNr = .PM_REBOOT_REPLY ∨
      ∃ q m, (s.view.slot q).vfs = some m ∧ reply.Answers m) :
    Acts (handleVfsReply reply execRestart) s := by
  refine Leads.ite (fun _ => ?_) fun hreboot => ?_
  · exact Acts.quiet (tidy_ask _) (quiet_ask _) fun _ _ _ => Acts.pure
  obtain ⟨q, m, hq, hans⟩ := hvfs.resolve_left hreboot
  apply Acts.bind (tidy_pmIsokendpt reply.PM_PROC s) (sure_pmIsokendpt reply.PM_PROC)
  intro found s₁ hpost
  obtain ⟨hs₁, -, hfound⟩ := hpost
  rw [← hs₁] at h hq hfound
  match found with
  | .error _ => exact .throw
  | .ok none => exact .throw
  | .ok (some p) =>
    obtain ⟨hinUse, -, hslot⟩ := hfound p rfl
    rw [hans.2.1] at hslot
    obtain rfl := h.slot_of_request hq hslot
    obtain ⟨-, hends⟩ := (h.sound q).request m hq
    apply leads_proc
    apply Acts.unless
    intro _
    apply Acts.bind (tidy_takeReply q s₁) sure_takeReply
    intro _ s₂ hs₂
    apply Acts.unless
    intro _
    -- the request tells which half of the invariant the process is in
    have hswitch : Acts (replySwitch q reply execRestart) s₂ ∧
        Sure (replySwitch q reply execRestart) s₂.view fun _ => Fine k := by
      by_cases hm : m.Ends
      · have hd : (s₁.view.slot q).Dying := ⟨hinUse, hends.mp hm⟩
        have h₂ := h.answered_settles hd
        have hd₂ : (s₂.view.slot q).Dying := by
          rw [hs₂, View.set_slot_self]
          simpa [Entry.Dying, Entry.answered] using hd
        rw [← hs₂] at h₂
        exact ⟨acts_replySwitch_ends execRestart h₂ hd₂ hans hm,
          sure_replySwitch_ends execRestart h₂ hd₂ hans hm⟩
      · have hl : (s₁.view.slot q).Live := ⟨hinUse, fun hx => hm (hends.mpr hx)⟩
        have h₂ := h.answered (p := q)
        have hl₂ : (s₂.view.slot q).Live := by
          rw [hs₂, View.set_slot_self]
          exact Entry.answered_live.mpr hl
        rw [← hs₂] at h₂
        exact ⟨acts_replySwitch_live execRestart h₂ ((s₂.view_shows q).live.mpr hl₂) hans hm,
          sure_replySwitch_live execRestart h₂ hl₂ hans hm⟩
    apply Acts.bind hswitch.1 hswitch.2
    intro _ s₃ h₃
    apply leads_proc
    apply Acts.when
    intro hlive
    exact acts_restartSigs keepsGood_exitProc exitActs_exitProc h₃ hlive

/-! ## §4 Rounds -/

/-- A call of the live process `mp`. -/
theorem leads_call (c : Call) {s₀ : PmState} {source : ℤ} (h : Fine k s.view)
    (hl : (s.mproc s.mp).Live) (hsource : (s.mproc s.mp).mpEndpoint = source)
    (hvfs : s.vfs = s₀.vfs) (hc : c.Honest s₀ source) : Leads c.run s fun _ s' => Round s s' := by
  have hexit : KeepsGood NR_PROCS (exitProc : Slot → ℤ → Bool → Program Unit) := keepsGood_exitProc
  have hacts : ExitActs NR_PROCS (exitProc : Slot → ℤ → Bool → Program Unit) := exitActs_exitProc
  have hunfold : ∀ {m : Program ℤ}, Acts m s → Leads m s fun _ s' => Round s s' :=
    fun hm => hm.mono fun _ _ h => .unfold h
  cases c with
  | fork => exact leads_doFork hacts h le_rfl hl
  | srvFork uid gid => exact leads_doSrvFork hacts h le_rfl hl uid gid
  | exit status => exact hunfold (acts_doExit hacts h hl status)
  | waitpid pid wnohang => exact hunfold (acts_doWaitpid hexit hacts pid wnohang h)
  | kill pid sigNr => exact hunfold (acts_checkSig hexit hacts pid sigNr false h)
  | srvKill pid sigNr => exact hunfold (acts_doSrvKill hexit hacts pid sigNr h)
  | pause => exact hunfold (Acts.of_tidy tidy_doPause)
  | sigaction sigNr osa nsa sigRet =>
    exact hunfold (Acts.of_tidy (tidy_doSigaction sigNr osa nsa sigRet))
  | sigpending => exact hunfold (Acts.of_tidy tidy_doSigpending)
  | sigprocmask how set => exact hunfold (acts_doSigprocmask hexit hacts how set h)
  | sigsuspend set => exact hunfold (acts_doSigsuspend hexit hacts set h)
  | sigreturn set => exact hunfold (acts_doSigreturn hexit hacts set h)
  | vfsReply reply execRestart =>
    apply hunfold
    apply leads_mp
    apply leads_proc
    refine Leads.ite (fun hfrom => ?_) fun _ => Acts.pure
    have hans : reply.callNr = .PM_REBOOT_REPLY ∨
        ∃ q m, (s.view.slot q).vfs = some m ∧ reply.Answers m := by
      have hq : ∀ q, (s.view.slot q).vfs = s₀.vfs q := fun q => congrFun hvfs q
      simpa only [hq] using hc (hsource.symm.trans hfrom)
    apply Acts.bind (acts_handleVfsReply execRestart h hans)
      (sure_handleVfsReply execRestart h hans)
    intro _ s' _
    exact Acts.pure
  | other acts result =>
    apply hunfold
    apply Acts.bind (acts_acts acts h) (sure_acts acts h)
    intro _ s' _
    exact Acts.pure

theorem leads_round (i : Input) (h : Fine (lost s.log) s.view) (hi : i.Honest s) :
    Leads i.run s fun _ s' => Round s s' := by
  cases i with
  | call source c =>
    apply Leads.bind ((tidy_receive source s).and (.of_ensures (sure_receive source h)))
    rintro caller s₁ ⟨h₁, hfine, hslot, hlive⟩
    apply Leads.when _ fun _ => .unfold h₁
    intro hkept
    obtain ⟨hl, hsource⟩ := hlive hi.1 (by simpa using hkept)
    have hvfs : s₁.vfs = s.vfs := by
      funext q
      exact congrArg Entry.vfs (congrFun hslot q)
    apply Leads.bind
      (leads_call c hfine ((s₁.view_shows _).live.mpr hl) hsource hvfs hi.2)
    intro result s₂ h₂
    have hrest : Tidy (replyTo caller.1 result >>= fun _ => sendreply) :=
      .bind (tidy_replyTo caller.1 result) fun _ => tidy_sendreply
    exact (hrest s₂).mono fun _ _ h₃ => (h₂.before h₃).after h₁
  | notify source acts =>
    apply Leads.mono (Φ := fun _ s' => Unfolds s s') _ fun _ _ h => .unfold h
    apply Acts.bind (tidy_receive source s) (sure_receive source h)
    intro caller s₁ hpost
    obtain ⟨hfine, -, -⟩ := hpost
    apply Acts.when
    intro _
    apply Acts.bind (acts_acts acts hfine) (sure_acts acts hfine)
    intro _ s₂ _
    exact Acts.of_tidy tidy_sendreply
  | ksig target signo =>
    apply Leads.mono (Φ := fun _ s' => Unfolds s s') _ fun _ _ h => .unfold h
    apply Acts.bind (acts_processKsig keepsGood_exitProc exitActs_exitProc target signo h)
      (sure_processKsig keepsGood_exitProc target signo h)
    intro _ s₁ _
    exact Acts.of_tidy tidy_sendreply
  | rename rmp name =>
    apply Leads.mono (Φ := fun _ s' => Unfolds s s') _ fun _ _ h => .unfold h
    unfold Input.run
    exact leads_modifyProc (.of_eq rfl rfl rfl rfl rfl rfl rfl rfl)

/-- Every round of the main loop unfolds, or has a birth in it. -/
theorem step_round {s' : PmState} {i : Input} (h : Fine (lost s.log) s.view) (hstep : Step s i s') :
    Round s s' :=
  (leads_round i h hstep.1).result () s' hstep.2

end MinixCv.Pm

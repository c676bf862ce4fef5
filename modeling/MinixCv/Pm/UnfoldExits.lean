import MinixCv.Pm.Preservation
import MinixCv.Pm.Unfolding

/-!
# Signals And Exits Unfold

The functions of `signal.c` and `forkexit.c` that may end a process, in the order of
`Preservation` and on top of it: where an entry is released or marked, the invariant says
which stage of its life it is in.
-/

namespace MinixCv.Pm

open MinixCv.Lib MinixCv.Server PmHeader

variable [PmHeader] {α β : Type} {X : Set Slot} {n k : ℕ} {s : PmState} {p : Slot}

/-! ## §1 Rules -/

/-- Reading an entry. -/
theorem leads_proc {f : Mproc → Program β} {Φ : β → PmState → Prop}
    (h : Leads (f (s.mproc p)) s Φ) : Leads (proc p >>= f) s Φ :=
  ⟨fun b s' hrun => h.result b s' hrun⟩

/-- Reading the caller. -/
theorem leads_mp {f : Slot → Program β} {Φ : β → PmState → Prop} (h : Leads (f s.mp) s Φ) :
    Leads (mp >>= f) s Φ :=
  ⟨fun b s' hrun => h.result b s' hrun⟩

/-- An assignment to an entry. -/
theorem leads_setProc {g : Mproc → Mproc} {f : Unit → Program β} {Φ : β → PmState → Prop}
    (h : Leads (f ()) (s.setProc p (g (s.mproc p))) Φ) : Leads (modifyProc p g >>= f) s Φ :=
  ⟨fun b s' hrun => h.result b s' hrun⟩

/-- From `s` on the program unfolds. -/
abbrev Acts (m : Program α) (s : PmState) : Prop := Leads m s fun _ s' => Unfolds s s'

namespace Acts

variable {m : Program α} {f : α → Program β}

/-- The invariant says where the first program has led. -/
protected theorem bind {Φ : α → View → Prop} (hm : Acts m s) (hview : Sure m s.view Φ)
    (hf : ∀ a s', Φ a s'.view → Acts (f a) s') : Acts (m >>= f) s :=
  Leads.climb (hm.and (.of_ensures hview)) fun a s' _ h => hf a s' h

/-- In front of another program one that the invariant does not see. -/
theorem quiet (hm : Tidy m) (hquiet : Quiet m) (hf : ∀ a s', s'.view = s.view → Acts (f a) s') :
    Acts (m >>= f) s :=
  Acts.bind (hm s) (hquiet s.view) hf

theorem of_tidy (h : Tidy m) : Acts m s := h s

protected theorem when {c : Prop} [Decidable c] {m : Program Unit} (h : c → Acts m s) :
    Acts (when c m) s :=
  Leads.when h fun _ => .refl s

protected theorem pure {a : α} : Acts (Pure.pure a) s := Leads.pure (.refl s)

end Acts

/-- Behind a test that panics, the test is known to have failed. -/
theorem Acts.unless {c : Prop} [Decidable c] {format : String} {f : Unit → Program β}
    (h : ¬c → Acts (f ()) s) : Acts (when c (panic format) >>= f) s := by
  apply Leads.bind (Φ := fun _ s' => s' = s ∧ ¬c)
  · exact .when (fun _ => .throw) fun hc => ⟨rfl, hc⟩
  · intro _ _ hpost
    obtain ⟨rfl, hc⟩ := hpost
    exact h hc

/-! ## §2 A caught signal -/

/-- Nobody catches other signals than before. -/
def SameCatch (s s' : PmState) : Prop := ∀ q, (s'.mproc q).mpCatch = (s.mproc q).mpCatch

instance : Std.Refl SameCatch := ⟨fun _ _ => rfl⟩

instance : IsTrans PmState SameCatch := ⟨fun _ _ _ h h' q => (h' q).trans (h q)⟩

theorem within_same_catch {m : Program α} (h : ∀ s, Leads m s fun _ s' => s'.mproc = s.mproc) :
    Within SameCatch m :=
  fun s => (h s).mono fun _ _ hs q => by rw [hs]

theorem same_catch_ask (call : KernelCall) : Within SameCatch (ask call) :=
  within_same_catch fun _ => ⟨fun _ _ hm => by cases hm; rfl⟩

theorem same_catch_scan (p : Mproc → Prop) [DecidablePred p] : Within SameCatch (scan p) :=
  within_same_catch fun _ => ⟨fun _ _ hm => by cases hm; rfl⟩

theorem same_catch_proc (p : Slot) : Within SameCatch (proc p) :=
  within_same_catch fun _ => ⟨fun _ _ hm => by cases hm; rfl⟩

theorem same_catch_record (e : Event) : Within SameCatch (record e) :=
  within_same_catch fun _ => ⟨fun _ _ hm => by cases hm; rfl⟩

theorem same_catch_setVfs (p : Slot) (m : Option Message) : Within SameCatch (setVfs p m) :=
  within_same_catch fun _ => ⟨fun _ _ hm => by cases hm; rfl⟩

theorem same_catch_require (call : KernelCall) (format : String) :
    Within SameCatch (require call format) :=
  .bind (same_catch_ask call) fun _ => .when fun _ => .throw

theorem same_catch_raise (p : Slot) (f : Flag) : Within SameCatch (raise p f) := by
  intro s
  constructor
  intro _ s' hm q
  cases hm
  rcases eq_or_ne q p with rfl | hq
  · simp
  · simp [hq]

theorem same_catch_delayStop (p : Slot) : Within SameCatch (delayStop p) := by
  apply Within.bind (same_catch_proc p)
  intro r
  apply Within.ite (.pure true)
  apply Within.bind (same_catch_ask _)
  intro a
  apply Within.ite
  · exact .bind (same_catch_raise p _) fun _ => .pure false
  · apply Within.bind (.when fun _ => .throw)
    intro _
    exact .bind (same_catch_raise p _) fun _ => .pure true

theorem same_catch_tellVfs (p : Slot) (m : Message) : Within SameCatch (tellVfs p m) := by
  apply Within.bind (same_catch_proc p)
  intro r
  apply Within.bind (.when fun _ => .throw)
  intro _
  apply Within.bind (same_catch_require _ _)
  intro _
  exact .bind (same_catch_setVfs p _) fun _ => same_catch_raise p _

theorem same_catch_tellCv (p : Slot) (m : Message) (signal : ℤ) :
    Within SameCatch (tellCv p m signal) := by
  apply Within.bind (same_catch_scan _)
  intro found
  cases found with
  | none => exact same_catch_record _
  | some rmp =>
    apply Within.bind (same_catch_proc rmp)
    intro r
    exact .bind (same_catch_require _ _) fun _ => same_catch_record _

theorem same_catch_vmNotifySigWrapper (ep : ℤ) : Within SameCatch (vmNotifySigWrapper ep) := by
  apply Within.bind (same_catch_scan _)
  intro found
  cases found with
  | none => exact .pure ()
  | some rmp =>
    exact .bind (same_catch_proc rmp) fun r => .bind (same_catch_ask _) fun _ => .pure ()

theorem same_catch_unpause (p : Slot) : Within SameCatch (unpause p) := by
  apply Within.bind (same_catch_proc p)
  intro r
  apply Within.ite (.pure ())
  apply Within.ite
  · exact .bind (same_catch_require _ _) fun _ => same_catch_raise p _
  · apply Within.bind (same_catch_delayStop p)
    intro stopped
    apply Within.when
    intro _
    apply Within.bind (same_catch_tellVfs p _)
    intro _
    exact .bind (same_catch_tellCv p _ _) fun _ => same_catch_vmNotifySigWrapper _

theorem same_catch_sigUnpause (p : Slot) : Within SameCatch (sigUnpause p) := by
  apply Within.bind (same_catch_proc p)
  intro r
  apply Within.bind (.when fun _ => same_catch_unpause p)
  intro _
  exact .bind (same_catch_proc p) fun _ => .pure _

/-- A killable process does not catch `SIGKILL`, and no handler blocks it. -/
theorem kept_prepareHandler {signo : ℤ} {r : Mproc} (hcatch : signo ∈ r.mpCatch) :
    Kept r (prepareHandler signo r) := by
  refine ⟨Iff.rfl, Iff.rfl, rfl, rfl, rfl, fun h => ?_⟩
  have hsig : SIGKILL ≠ signo := fun heq => h.mpCatch (heq ▸ hcatch)
  have hmask : SIGKILL ∉ r.mpSigmask ∪ (r.mpSigact signo).saMask := by
    rw [Finset.mem_union, not_or]
    exact ⟨h.mpSigmask, h.saMask signo⟩
  refine ⟨h.mpIgnore, ?_, ?_, fun m => ?_⟩
  · simp only [prepareHandler]
    split
    · simp [h.mpCatch]
    · exact h.mpCatch
  · simp only [prepareHandler]
    split
    · exact fun hmem => hmask (Finset.mem_of_mem_erase hmem)
    · rw [Finset.mem_insert, not_or]
      exact ⟨hsig, hmask⟩
  · simp only [prepareHandler]
    split
    · rcases eq_or_ne m signo with rfl | hm
      · simpa using h.saMask m
      · simpa [hm] using h.saMask m
    · exact h.saMask m

theorem acts_sigSend {signo : ℤ} (hcatch : signo ∈ (s.mproc p).mpCatch) :
    Acts (sigSend p signo) s := by
  apply leads_proc
  apply Acts.unless
  intro _
  apply Leads.climb ((leads_modifyProc (kept_prepareHandler hcatch)).mono fun _ _ h => ⟨h, trivial⟩)
  intro _ s' _ _
  apply Within.bind (tidy_ask _)
  intro a
  apply Within.ite (.pure false)
  apply Within.bind (tidy_unless _)
  intro _
  exact .bind (tidy_interruptCall p) fun _ => .pure true

/-! ## §3 Signals -/

/-- `exit_proc` unfolds while at most `n` processes live. -/
def ExitActs (n : ℕ) (exitProc : Slot → ℤ → Bool → Program Unit) : Prop :=
  ∀ (X : Set Slot) (k : ℕ) (s : PmState) (p : Slot) (exitStatus : ℤ) (dumpCore : Bool),
    Good X n k s.view → (s.mproc p).Live → Acts (exitProc p exitStatus dumpCore) s

/-- The view tells whether a process lives. -/
theorem live_of_view {s s' : PmState} (hview : s'.view = s.view) :
    (s'.mproc p).Live ↔ (s.mproc p).Live := by
  rw [(s'.view_shows p).live, (s.view_shows p).live, hview]

section Sending

variable {exitProc : Slot → ℤ → Bool → Program Unit} (hexit : KeepsGood n exitProc)
  (hacts : ExitActs n exitProc)

include hacts

theorem acts_sigProcExit (h : Good X n k s.view) (hl : (s.mproc p).Live) (signo : ℤ) :
    Acts (sigProcExit exitProc p signo) s := by
  refine Acts.quiet (tidy_modifyProc p fun _ => .of_eq rfl rfl rfl rfl rfl rfl rfl rfl)
    (quiet_modifyProc p fun _ => ⟨rfl, rfl, rfl⟩) fun _ s₁ hs₁ => ?_
  rw [← hs₁] at h
  rw [← live_of_view hs₁] at hl
  apply Leads.ite
  · intro _
    apply leads_proc
    apply Acts.quiet (.when fun _ => .bind (tidy_ask _) fun _ => .pure ())
      (.when (.bind (quiet_ask _) fun _ => .pure ()))
    intro _ s₂ hs₂
    rw [← hs₂] at h
    rw [← live_of_view hs₂] at hl
    exact hacts X k s₂ p 0 true h hl
  · intro _
    exact hacts X k s₁ p 0 false h hl

theorem acts_sigSystem (h : Good X n k s.view) (hl : (s.mproc p).Live) (signo : ℤ) (ksig : Bool) :
    Acts (sigSystem exitProc p signo ksig) s := by
  apply leads_proc
  refine Leads.ite (fun _ => Acts.pure) fun _ => ?_
  apply Leads.ite
  · intro _
    exact Acts.of_tidy (.bind (tidy_ask _) fun _ => .pure ())
  · intro _
    apply Acts.quiet (.when fun _ => .bind (tidy_ask _) fun _ => .pure ())
      (.when (.bind (quiet_ask _) fun _ => .pure ()))
    intro _ s₁ hs₁
    rw [← hs₁] at h
    rw [← live_of_view hs₁] at hl
    apply Leads.ite
    · intro _
      exact Acts.of_tidy (.bind (tidy_ask _) fun _ => .pure ())
    · intro _
      exact acts_sigProcExit hacts h hl signo

theorem acts_sigCaught (h : Good X n k s.view) (hl : (s.mproc p).Live) {signo : ℤ}
    (hcatch : signo ∈ (s.mproc p).mpCatch) (ksig : Bool) :
    Acts (sigCaught exitProc p signo ksig) s := by
  have hl' := (s.view_shows p).live.mp hl
  have hunpause := (tidy_sigUnpause p s).and ((same_catch_sigUnpause p s).and
    (.of_ensures (sure_sigUnpause h hl')))
  -- the signal is still caught when the process has been unpaused
  apply Leads.climb hunpause
  intro unpaused s₁ _ hpost
  obtain ⟨hsame, h₁, hl₁⟩ := hpost
  rw [← hsame p] at hcatch
  rw [← (s₁.view_shows p).live] at hl₁
  apply Leads.ite
  · intro _
    exact tidy_addPending p signo ksig s₁
  · intro _
    apply Acts.bind (acts_sigSend hcatch) (quiet_sigSend p signo s₁.view)
    intro sent s₂ hs₂
    rw [← hs₂] at h₁
    rw [← live_of_view hs₂] at hl₁
    apply Acts.when
    intro _
    exact acts_sigProcExit hacts h₁ hl₁ signo

theorem acts_sigUser (h : Good X n k s.view) (hl : (s.mproc p).Live) (signo : ℤ) (ksig : Bool) :
    Acts (sigUser exitProc p signo ksig) s := by
  have hpend := tidy_addPending p signo ksig s
  apply leads_proc
  refine Leads.ite (fun _ => Acts.pure) fun _ => ?_
  refine Leads.ite (fun _ => hpend) fun _ => ?_
  refine Leads.ite (fun _ => hpend) fun _ => ?_
  refine Leads.ite (fun hcatch => acts_sigCaught hacts h hl hcatch.2 ksig) fun _ => ?_
  refine Leads.ite (fun _ => Acts.pure) fun _ => ?_
  exact acts_sigProcExit hacts h hl signo

theorem acts_sigProc (h : Good X n k s.view) (signo : ℤ) (trace ksig : Bool) :
    Acts (sigProc exitProc p signo trace ksig) s := by
  apply leads_proc
  refine Leads.ite (fun _ => .throw) fun hlive => ?_
  have hl : (s.mproc p).Live := not_not.mp hlive
  apply Leads.ite
  · intro _
    apply Acts.of_tidy
    refine Within.bind (tidy_modifyProc p fun _ => .of_eq rfl rfl rfl rfl rfl rfl rfl rfl) fun _ => ?_
    exact .when fun _ => tidy_elsewhere _
  · intro _
    refine Leads.ite (fun _ => tidy_sigDeferred p signo ksig s) fun _ => ?_
    refine Leads.ite (fun _ => acts_sigSystem hacts h hl signo ksig) fun _ => ?_
    exact acts_sigUser hacts h hl signo ksig

include hexit

theorem acts_checkSigLoop (procId signo : ℤ) (ksig : Bool) (slots : List Slot) (count : ℕ)
    (errorCode : ℤ) (h : Good X n k s.view) :
    Acts (checkSigLoop exitProc procId signo ksig slots count errorCode) s := by
  induction slots generalizing s count errorCode with
  | nil => exact Acts.pure
  | cons rmp rest ih =>
    apply leads_mp
    apply leads_proc
    apply leads_proc
    refine Leads.ite (fun _ => ih count errorCode h) fun _ => ?_
    refine Leads.ite (fun _ => ih count _ h) fun _ => ?_
    refine Leads.ite (fun _ => ih (count + 1) errorCode h) fun _ => ?_
    apply Acts.bind (acts_sigProc hacts h signo true ksig) (sure_sigProc hexit h signo true ksig)
    intro _ s' h'
    exact Leads.ite (fun _ => Acts.pure) fun _ => ih (count + 1) errorCode h'

theorem acts_checkSig (procId signo : ℤ) (ksig : Bool) (h : Good X n k s.view) :
    Acts (checkSig exitProc procId signo ksig) s := by
  refine Leads.ite (fun _ => Acts.pure) fun _ => ?_
  refine Leads.ite (fun _ => Acts.pure) fun _ => ?_
  apply Acts.quiet (.when fun _ => .bind (tidy_ask _) fun _ => .pure ())
    (.when (.bind (quiet_ask _) fun _ => .pure ()))
  intro _ s₁ hs₁
  rw [← hs₁] at h
  apply Acts.bind (acts_checkSigLoop hexit hacts procId signo ksig _ 0 _ h)
    (sure_checkSigLoop hexit procId signo ksig _ 0 _ h)
  intro _ s₂ _
  apply leads_mp
  apply leads_proc
  exact Leads.ite (fun _ => Acts.pure) fun _ => Acts.pure

theorem acts_checkPendingLoop (signos : List ℤ) (h : Good X n k s.view) :
    Acts (checkPendingLoop exitProc p signos) s := by
  induction signos generalizing s with
  | nil => exact Acts.pure
  | cons i rest ih =>
    apply leads_proc
    apply Leads.ite
    · intro _
      apply Acts.quiet (tidy_delPending p i) (quiet_delPending p i)
      intro _ s₁ hs₁
      rw [← hs₁] at h
      apply Acts.bind (acts_sigProc hacts h i false _) (sure_sigProc hexit h i false _)
      intro _ s₂ h₂
      apply leads_proc
      exact Leads.ite (fun _ => Acts.pure) fun _ => ih h₂
    · intro _
      exact ih h

theorem acts_checkPending (h : Good X n k s.view) : Acts (checkPending exitProc p) s :=
  acts_checkPendingLoop hexit hacts signals h

theorem acts_restartSigs (h : Good X n k s.view) (hl : (s.mproc p).Live) :
    Acts (restartSigs exitProc p) s := by
  apply leads_proc
  refine Leads.ite (fun _ => Acts.pure) fun _ => ?_
  refine Leads.ite (fun _ => hacts X k s p _ false h hl) fun _ => ?_
  apply Acts.when
  intro _
  apply Acts.bind (acts_checkPending hexit hacts h) (sure_checkPending hexit h)
  intro _ s' _
  apply leads_proc
  apply Acts.when
  intro _
  exact Acts.of_tidy (.bind (tidy_lower p (by decide) (by decide)) fun _ => tidy_require _ _)

end Sending

/-! ## §4 Between death and release -/

/-- A dead process is released. -/
theorem acts_cleanup (hd : (s.view.slot p).Dying) : Acts (cleanup p) s := by
  obtain ⟨hinUse, hexiting⟩ := hd
  rw [← (s.view_shows p).inUse] at hinUse
  rw [← (s.view_shows p).exiting] at hexiting
  constructor
  intro _ s' hrun
  cases hrun
  -- the log has one entry more, which is none of the table's business
  refine .change (.single (.release s p hinUse hexiting)) (.calm (calm_of_eq rfl ?_ rfl rfl ?_))
  · exact Int.sub_eq_add_neg.symm
  · exact List.suffix_cons _ _

section Exiting

variable {exitProc : Slot → ℤ → Bool → Program Unit} (hexit : KeepsGood n exitProc)
  (hacts : ExitActs n exitProc)

include hacts

theorem acts_checkParent (h : Good X n k s.view) (tryCleanup : Bool) :
    Acts (checkParent exitProc p tryCleanup) s := by
  apply leads_proc
  apply leads_proc
  refine Leads.ite (fun _ => Acts.pure) fun _ => ?_
  apply Leads.ite
  · intro _
    apply Acts.bind (tidy_tellParent p s) (sure_tellParent h)
    intro _ s₁ hpost
    apply leads_proc
    apply Acts.when
    intro _
    exact acts_cleanup hpost.2
  · intro _
    exact acts_sigProc hacts h SIGCHLD true false

theorem acts_zombify (h : Good X n k s.view) (hd : (s.view.slot p).Dying) :
    Acts (zombify exitProc p) s := by
  apply leads_proc
  apply Acts.unless
  intro _
  apply Leads.ite
  · intro _
    apply Acts.bind (tidy_raise p (by decide) (by decide) s)
      (sure_raise_mourn h hd (by decide) (by decide))
    intro _ s₁ hpost
    obtain ⟨h₁, -⟩ := hpost
    apply leads_proc
    apply Acts.when
    intro _
    apply Acts.bind (tidy_tellTracer p s₁) (sure_tellTracer h₁)
    intro _ s₂ hpost
    exact acts_checkParent hacts hpost.1 false
  · intro _
    apply Acts.bind (tidy_raise p (by decide) (by decide) s)
      (sure_raise_mourn h hd (by decide) (by decide))
    intro _ s₁ hpost
    exact acts_checkParent hacts hpost.1 false

theorem acts_tracerDied (h : Good X n k s.view) : Acts (tracerDied exitProc p) s := by
  refine Acts.quiet (tidy_modifyProc p fun _ => .of_eq rfl rfl rfl rfl rfl rfl rfl rfl)
    (quiet_modifyProc p fun _ => ⟨rfl, rfl, rfl⟩) fun _ s₁ hs₁ => ?_
  rw [← hs₁] at h
  apply Acts.quiet (tidy_lower p (by decide) (by decide)) (quiet_lower p (by decide))
  intro _ s₂ hs₂
  rw [← hs₂] at h
  apply leads_proc
  refine Leads.ite (fun _ => acts_sigProc hacts h SIGKILL true false) fun hx => ?_
  apply Acts.when
  intro _
  have hd : (s₂.view.slot p).Dying :=
    h.dying ((s₂.view_shows p).exiting.mp (not_not.mp hx))
  apply Acts.bind (tidy_lower p (by decide) (by decide) s₂) (sure_lower_mourn h hd (by decide))
  intro _ s₃ hpost
  obtain ⟨h₃, hd₃⟩ := hpost
  apply Acts.bind (tidy_raise p (by decide) (by decide) s₃)
    (sure_raise_mourn h₃ hd₃ (by decide) (by decide))
  intro _ s₄ hpost
  exact acts_checkParent hacts hpost.1 true

include hexit

/-- One round of the loop of `exit_proc`: afterwards `procNr` is not the parent of `p`. -/
theorem leads_disinherit (h : Good X n k s.view) (procNr : Slot) :
    Leads (disinherit exitProc procNr p) s fun _ s' => Unfolds s s' ∧
      (Tame s.outside → procNr ≠ INIT_PROC_NR → .IN_USE ∈ (s'.mproc p).mpFlags →
        (s'.mproc p).mpParent ≠ procNr) := by
  apply leads_proc
  refine Leads.when (fun hinUse => ?_) fun hfree => ⟨.refl _, fun _ _ hu => absurd hu hfree⟩
  have hdied : Leads (when ((s.mproc p).mpTracer = procNr) (tracerDied exitProc p)) s
      fun _ s' => Unfolds s s' ∧ Good X n k s'.view :=
    .when (fun _ => (acts_tracerDied hacts h).and (.of_ensures (sure_tracerDied hexit h)))
      fun _ => ⟨.refl s, h⟩
  apply Leads.bind hdied
  intro _ s₁ hpost
  obtain ⟨hs₁, h₁⟩ := hpost
  apply leads_proc
  refine Leads.when (fun _ => ?_) fun hother => ⟨hs₁, fun _ _ _ => hother⟩
  -- the child is adopted, and nothing that follows gives it another parent
  apply leads_setProc
  obtain ⟨s₂, hs₂⟩ : ∃ s₂, s₂ = s₁.setProc p { s₁.mproc p with mpParent := INIT_PROC_NR } :=
    ⟨_, rfl⟩
  rw [← hs₂]
  have hadopt : Unfolds s s₂ := .change hs₁ (hs₂ ▸ .adopt s₁ p)
  have hview : s₂.view = s₁.view := by
    rw [hs₂]
    exact quiet_modifyProc p (f := fun r => { r with mpParent := INIT_PROC_NR })
      (fun _ => ⟨rfl, rfl, rfl⟩) s₁.view s₁ rfl
  rw [← hview] at h₁
  have hrest : Acts (when (.ZOMBIE ∈ (s₁.mproc p).mpFlags) (checkParent exitProc p true)) s₂ :=
    .when fun _ => acts_checkParent hacts h₁ true
  apply hrest.mono
  intro _ s₃ hs₃
  refine ⟨hadopt.trans hs₃, fun htame hinit hu heq => hinit ?_⟩
  rw [← hadopt.outside_eq] at htame
  rcases (hs₃.declines htame).mpParent p hu with hsame | hadopted
  · rw [← heq, hsame, hs₂]
    simp [PmState.setProc]
  · rw [← heq, hadopted]

/-! ## §5 `exit_proc` -/

omit hexit hacts in
/-- Nobody who was not a child becomes one. -/
theorem Declines.noChild {s s' : PmState} {l : List Slot} (h : Declines s s')
    (hinit : p ≠ INIT_PROC_NR)
    (hs : ∀ q ∈ l, .IN_USE ∈ (s.mproc q).mpFlags → (s.mproc q).mpParent ≠ p) :
    ∀ q ∈ l, .IN_USE ∈ (s'.mproc q).mpFlags → (s'.mproc q).mpParent ≠ p := by
  intro q hq hu
  rcases h.mpParent q hu with hsame | hadopted
  · rw [hsame]
    exact hs q hq (h.inUse q hu)
  · rw [hadopted]
    exact Ne.symm hinit

/-- The loop over the children, and all that follows it. -/
theorem leads_finishExit (h : Good X n k s.view) (hd : (s.view.slot p).Dying) (procgrp : ℤ)
    (dumpCore : Bool) :
    Leads (finishExit exitProc p procgrp dumpCore) s fun _ s' => Unfolds s s' ∧
      (Tame s'.outside → p ≠ INIT_PROC_NR → NoChild p s') := by
  have hzombie : Leads (when (!dumpCore) (zombify exitProc p)) s
      fun _ s' => Unfolds s s' ∧ Good X n k s'.view :=
    .when (fun _ => (acts_zombify hacts h hd).and (.of_ensures (sure_zombify hexit h hd)))
      fun _ => ⟨.refl s, h⟩
  apply Leads.bind hzombie
  intro _ s₁ hpost
  obtain ⟨hs₁, h₁⟩ := hpost
  -- the slots that the loop has passed hold no child
  have hloop := Leads.forM (g := disinherit exitProc p) (l := List.finRange NR_PROCS) (s := s₁)
    (I := fun done s' => Unfolds s s' ∧ Good X n k s'.view ∧ (Tame s'.outside → p ≠ INIT_PROC_NR →
      ∀ q ∈ done, .IN_USE ∈ (s'.mproc q).mpFlags → (s'.mproc q).mpParent ≠ p)) ?_
    (⟨hs₁, h₁, by simp⟩ : _ ∧ _ ∧ (Tame s₁.outside → p ≠ INIT_PROC_NR → ∀ q ∈ [], _))
  · apply Leads.bind hloop
    intro _ s₂ hpost
    obtain ⟨hs₂, h₂, hchild⟩ := hpost
    -- a hangup for the group may end more processes, but gives nobody a parent
    have hhangup : Acts (when (procgrp ≠ 0) (do
        let _ ← checkSig exitProc (-procgrp) SIGHUP false
        pure ())) s₂ :=
      .when fun _ => Acts.bind (acts_checkSig hexit hacts _ _ _ h₂) (sure_checkSig hexit _ _ _ h₂)
        fun _ _ _ => Acts.pure
    apply hhangup.mono
    intro _ s₃ hs₃
    refine ⟨hs₂.trans hs₃, fun htame hinit q hu => ?_⟩
    rw [hs₃.outside_eq] at htame
    exact (hs₃.declines htame).noChild hinit (hchild htame hinit) q (by simp) hu
  · intro q _ done s' hpost
    obtain ⟨hs', h', hchild⟩ := hpost
    apply ((leads_disinherit hexit hacts h' p).and
      (.of_ensures (sure_disinherit hexit h' p))).mono
    intro _ s'' hpost
    obtain ⟨⟨hs'', hself⟩, h''⟩ := hpost
    refine ⟨hs'.trans hs'', h'', fun htame hinit r hr hu => ?_⟩
    rw [hs''.outside_eq] at htame
    rcases List.mem_cons.mp hr with rfl | hr
    · exact hself htame hinit hu
    · exact (hs''.declines htame).noChild hinit (hchild htame hinit) r hr hu

omit hexit hacts in
/-- The reports, and then the mark. -/
theorem leads_announceExit (hl : (s.mproc p).Live)
    (hinit : (s.mproc p).mpEndpoint ≠ INIT_PROC_NR.val) (exitStatus : ℤ) (dumpCore : Bool) :
    Leads (announceExit p exitStatus dumpCore) s fun _ u => ∃ t, Unfolds s t ∧ Marks p t u := by
  apply leads_proc
  apply Leads.bind ((tidy_tellVfs p _ s).and (.of_ensures sure_tellVfs))
  intro _ s₁ hpost
  obtain ⟨hs₁, hview₁⟩ := hpost
  apply Leads.bind ((tidy_tellCv p _ _ s₁).and (.of_ensures sure_tellCv))
  intro _ s₂ hpost
  obtain ⟨hs₂, ev, ⟨dest, hev, -⟩, hview₂⟩ := hpost
  have hpriv := Leads.and
    (Within.when (c := .PRIV_PROC ∈ (s.mproc p).mpFlags)
      (fun _ => tidy_require (.sys_clear (s.mproc p).mpEndpoint) "exit_proc: sys_clear failed: %d") s₂)
    (.of_ensures (Silent.when (c := .PRIV_PROC ∈ (s.mproc p).mpFlags)
      (quiet_require (.sys_clear (s.mproc p).mpEndpoint) "exit_proc: sys_clear failed: %d") s₂.view))
  apply Leads.bind hpriv
  intro _ s₃ hpost
  obtain ⟨hs₃, hview₃⟩ := hpost
  -- neither report has touched what the mark needs
  have hslot : s₃.view.slot p = (s.view.slot p).requested (exitMessage (s.mproc p) dumpCore) := by
    rw [hview₃, hview₂, hview₁, View.push_slot, View.set_slot_self]
  have hl₃ : (s₃.mproc p).Live := by
    rw [(s₃.view_shows p).live, hslot, Entry.requested_live, ← (s.view_shows p).live]
    exact hl
  have hend₃ : (s₃.mproc p).mpEndpoint = (s.mproc p).mpEndpoint := by
    rw [← (s₃.view_shows p).endpoint, hslot]
    exact (s.view_shows p).endpoint
  -- and the newest entry of the log is the report to `cv`
  have htold : ToldExit (s₃.mproc p).mpEndpoint s₃.log := by
    have hlog : s₃.log = ev :: s₁.log := by
      have hview := hview₃.trans hview₂
      exact congrArg View.log hview
    rw [hlog, hev]
    exact ⟨dest, _, List.mem_cons_self, rfl, hend₃.symm⟩
  constructor
  intro _ u hrun
  cases hrun
  exact ⟨s₃, (hs₁.trans hs₂).trans hs₃, hl₃, hend₃ ▸ hinit, htold, exitStatus, rfl⟩

theorem exitActs_exitProcBody : ExitActs (n + 1) (exitProcBody exitProc) := by
  intro X k s p exitStatus dumpCore h hl
  apply leads_proc
  apply leads_mp
  apply leads_proc
  apply Acts.quiet (tidy_stopRunning p) (quiet_stopRunning p)
  intro _ s₁ hs₁
  have hend : (s₁.mproc p).mpEndpoint = (s.mproc p).mpEndpoint := by
    rw [← (s₁.view_shows p).endpoint, hs₁]
    exact (s.view_shows p).endpoint
  rw [← hs₁] at h
  rw [← live_of_view hs₁] at hl
  refine Leads.ite (fun _ => Acts.pure) fun hinit => ?_
  apply Acts.unless
  intro _
  rw [← hend] at hinit
  have hannounce := (leads_announceExit hl hinit exitStatus (mayDump (s.mproc p) dumpCore)).and
    (.of_ensures (sure_announceExit h ((s₁.view_shows p).live.mp hl) exitStatus
      (mayDump (s.mproc p) dumpCore)))
  apply Leads.bind hannounce
  intro _ s₂ hpost
  obtain ⟨⟨t, ht, hmark⟩, h₂, hd₂⟩ := hpost
  apply (leads_finishExit hexit hacts h₂ hd₂ _ _).mono
  intro _ s₃ hpost
  exact .exit ht hmark hpost.1 hpost.2

end Exiting

theorem exitActs_exitProcDepth (n : ℕ) : ExitActs n (exitProcDepth n) := by
  induction n with
  | zero =>
    intro X k s p exitStatus dumpCore h hl
    exact .throw
  | succ n ih => exact exitActs_exitProcBody (keepsGood_exitProcDepth n) ih

theorem exitActs_exitProc : ExitActs NR_PROCS (exitProc : Slot → ℤ → Bool → Program Unit) :=
  exitActs_exitProcDepth NR_PROCS

end MinixCv.Pm

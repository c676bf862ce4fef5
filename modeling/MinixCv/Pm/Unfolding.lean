import MinixCv.Lib.Within
import MinixCv.Pm.Main

/-!
# What PM Does To Its Table

Whatever PM handles, it changes the table in few ways.  An entry keeps its owner (`Kept`), is
adopted by INIT, is released, or is written by a function of another file; and a process ends,
which brings about more of the same and leaves the process without children.

- `Change`, `Marks`: the ways the table changes
- `Unfolds`: what happens between two states, with the ends of processes nested as the calls
  of `exit_proc` are
- `tidy_…`: the functions that do nothing else
-/

namespace MinixCv.Pm

open MinixCv.Lib MinixCv.Server PmHeader

variable [PmHeader] {α : Type}

/-! ## §1 Entries -/

/-- `SIGKILL` is neither ignored nor caught nor blocked, and no handler blocks it. -/
structure Killable (r : Mproc) : Prop where
  mpIgnore : SIGKILL ∉ r.mpIgnore
  mpCatch : SIGKILL ∉ r.mpCatch
  mpSigmask : SIGKILL ∉ r.mpSigmask
  saMask : ∀ n, SIGKILL ∉ (r.mpSigact n).saMask

/-- The entry still belongs to the same process, at the same stage of its life. -/
structure Kept (r r' : Mproc) : Prop where
  inUse : .IN_USE ∈ r'.mpFlags ↔ .IN_USE ∈ r.mpFlags
  exiting : .EXITING ∈ r'.mpFlags ↔ .EXITING ∈ r.mpFlags
  mpEndpoint : r'.mpEndpoint = r.mpEndpoint
  mpPid : r'.mpPid = r.mpPid
  mpParent : r'.mpParent = r.mpParent
  killable : Killable r → Killable r'

/-- An entry that is not written keeps its owner, -/
theorem Kept.refl (r : Mproc) : Kept r r := ⟨Iff.rfl, Iff.rfl, rfl, rfl, rfl, id⟩

/-- and so does one that is written twice. -/
theorem Kept.trans {r r' r'' : Mproc} (h : Kept r r') (h' : Kept r' r'') : Kept r r'' where
  inUse := h'.inUse.trans h.inUse
  exiting := h'.exiting.trans h.exiting
  mpEndpoint := h'.mpEndpoint.trans h.mpEndpoint
  mpPid := h'.mpPid.trans h.mpPid
  mpParent := h'.mpParent.trans h.mpParent
  killable := fun hr => h'.killable (h.killable hr)

/-- Only other fields were assigned to. -/
theorem Kept.of_eq {r r' : Mproc} (hflags : r'.mpFlags = r.mpFlags)
    (hend : r'.mpEndpoint = r.mpEndpoint) (hpid : r'.mpPid = r.mpPid)
    (hparent : r'.mpParent = r.mpParent) (hignore : r'.mpIgnore = r.mpIgnore)
    (hcatch : r'.mpCatch = r.mpCatch) (hmask : r'.mpSigmask = r.mpSigmask)
    (hact : r'.mpSigact = r.mpSigact) : Kept r r' := by
  refine ⟨by rw [hflags], by rw [hflags], hend, hpid, hparent, fun h => ⟨?_, ?_, ?_, ?_⟩⟩
  · rw [hignore]
    exact h.mpIgnore
  · rw [hcatch]
    exact h.mpCatch
  · rw [hmask]
    exact h.mpSigmask
  · rw [hact]
    exact h.saMask

/-- Whether the owner lives does not change with it. -/
theorem Kept.live {r r' : Mproc} (h : Kept r r') : r'.Live ↔ r.Live := by
  unfold Mproc.Live
  rw [h.inUse, h.exiting]

/-! ## §2 Changes of the table -/

/-- The processes are the same, and so is what a new one would get. -/
structure Calm (s s' : PmState) : Prop where
  entry : ∀ p, Kept (s.mproc p) (s'.mproc p)
  procsInUse : s'.procsInUse = s.procsInUse
  nextPid : s'.nextPid = s.nextPid
  outside : s'.outside = s.outside
  log : s.log <:+ s'.log

/-- `mproc[p] = r` -/
def PmState.setProc (s : PmState) (p : Slot) (r : Mproc) : PmState :=
  { s with mproc := Function.update s.mproc p r }

/-- What `cleanup` leaves of an entry. -/
def Mproc.released (r : Mproc) : Mproc :=
  { r with mpPid := 0, mpFlags := ∅, mpChildUtime := 0, mpChildStime := 0 }

/-- What the mark of `exit_proc` leaves of an entry. -/
def Mproc.marked (exitStatus : ℤ) (r : Mproc) : Mproc :=
  { r with
    mpFlags := insert .EXITING (r.mpFlags ∩ {.IN_USE, .VFS_CALL, .PRIV_PROC, .TRACE_EXIT})
    mpExitstatus := BitVec.ofInt 8 exitStatus }

inductive Change : PmState → PmState → Prop where
  | calm {s s' : PmState} : Calm s s' → Change s s'
  /-- a function of another file -/
  | elsewhere (s : PmState) (f : OtherFunction) :
      Change s { s with
        mproc := fun i => (s.outside s.asked f s.mproc i).keeping (s.mproc i)
        asked := s.asked + 1 }
  /-- the children of a dead process get INIT as their parent -/
  | adopt (s : PmState) (p : Slot) :
      Change s (s.setProc p { s.mproc p with mpParent := INIT_PROC_NR })
  /-- `cleanup` of a dead process -/
  | release (s : PmState) (p : Slot) :
      .IN_USE ∈ (s.mproc p).mpFlags → .EXITING ∈ (s.mproc p).mpFlags →
      Change s { s.setProc p (s.mproc p).released with procsInUse := s.procsInUse - 1 }

/-- `cv` has been told, if there is one, that the process with this endpoint has ended. -/
def ToldExit (ep : ℤ) (log : List Event) : Prop :=
  ∃ dest m, .told dest m ∈ log ∧ m.mType = .signal CS_EXIT ∧ m.PM_PROC = ep

/-- The process in slot `p`, which is not INIT, ends. -/
structure Marks (p : Slot) (s s' : PmState) : Prop where
  live : (s.mproc p).Live
  notInit : (s.mproc p).mpEndpoint ≠ INIT_PROC_NR.val
  told : ToldExit (s.mproc p).mpEndpoint s.log
  eq : ∃ exitStatus, s' = s.setProc p ((s.mproc p).marked exitStatus)

/-- No process in use has `p` as its parent. -/
def NoChild (p : Slot) (s : PmState) : Prop :=
  ∀ q, .IN_USE ∈ (s.mproc q).mpFlags → (s.mproc q).mpParent ≠ p

/-- The functions of the other files leave the processes what they are. -/
def Tame (outside : ℕ → OtherFunction → (Slot → Mproc) → Slot → Mproc) : Prop :=
  ∀ n f t q, Kept (t q) ((outside n f t q).keeping (t q))

/-- From the first state to the second: changes, and ends of processes.  Where a process has
    ended, it has no children left. -/
inductive Unfolds : PmState → PmState → Prop where
  | refl (s : PmState) : Unfolds s s
  | change {s t u : PmState} : Unfolds s t → Change t u → Unfolds s u
  | exit {s t u v : PmState} {p : Slot} : Unfolds s t → Marks p t u → Unfolds u v →
      (Tame v.outside → p ≠ INIT_PROC_NR → NoChild p v) → Unfolds s v

namespace Unfolds

variable {s t u : PmState}

theorem trans (h : Unfolds s t) (h' : Unfolds t u) : Unfolds s u := by
  induction h' with
  | refl _ => exact h
  | change _ hchange ih => exact .change (ih h) hchange
  | exit _ hmark hrest hchild ih _ => exact .exit (ih h) hmark hrest hchild

theorem single (h : Change s t) : Unfolds s t := .change (.refl s) h

instance : Std.Refl (Unfolds : PmState → PmState → Prop) := ⟨.refl⟩

instance : IsTrans PmState Unfolds := ⟨fun _ _ _ => trans⟩

end Unfolds

/-- Nobody is born or brought back to life, and nobody gets another parent than INIT. -/
structure Declines (s s' : PmState) : Prop where
  inUse : ∀ q, .IN_USE ∈ (s'.mproc q).mpFlags → .IN_USE ∈ (s.mproc q).mpFlags
  exiting : ∀ q, .IN_USE ∈ (s'.mproc q).mpFlags → .EXITING ∈ (s.mproc q).mpFlags →
    .EXITING ∈ (s'.mproc q).mpFlags
  mpParent : ∀ q, .IN_USE ∈ (s'.mproc q).mpFlags →
    (s'.mproc q).mpParent = (s.mproc q).mpParent ∨ (s'.mproc q).mpParent = INIT_PROC_NR

namespace Declines

variable {s t u : PmState} {p : Slot}

theorem refl (s : PmState) : Declines s s := ⟨fun _ => id, fun _ _ => id, fun _ _ => .inl rfl⟩

theorem trans (h : Declines s t) (h' : Declines t u) : Declines s u where
  inUse q hq := h.inUse q (h'.inUse q hq)
  exiting q hq hx := h'.exiting q hq (h.exiting q (h'.inUse q hq) hx)
  mpParent q hq := by
    rcases h'.mpParent q hq with heq | hinit
    · rw [heq]
      exact h.mpParent q (h'.inUse q hq)
    · exact .inr hinit

theorem of_kept (h : ∀ q, Kept (s.mproc q) (t.mproc q)) : Declines s t where
  inUse q hq := (h q).inUse.mp hq
  exiting q _ hx := (h q).exiting.mpr hx
  mpParent q _ := .inl (h q).mpParent

/-- One entry has changed. -/
theorem of_setProc {r : Mproc} (hinUse : .IN_USE ∈ r.mpFlags → .IN_USE ∈ (s.mproc p).mpFlags)
    (hexiting : .IN_USE ∈ r.mpFlags → .EXITING ∈ (s.mproc p).mpFlags → .EXITING ∈ r.mpFlags)
    (hparent : .IN_USE ∈ r.mpFlags → r.mpParent = (s.mproc p).mpParent ∨ r.mpParent = INIT_PROC_NR) :
    Declines s (s.setProc p r) := by
  refine ⟨fun q => ?_, fun q => ?_, fun q => ?_⟩
  all_goals
    rcases eq_or_ne q p with rfl | hq
    · simp only [PmState.setProc, Function.update_self]
      assumption
    · simp only [PmState.setProc, Function.update_of_ne hq]
      first | exact id | exact fun _ => id | exact fun _ => .inl trivial

end Declines

namespace Unfolds

variable {s t : PmState}

/-- The functions of the other files are not exchanged on the way. -/
theorem outside_eq (h : Unfolds s t) : t.outside = s.outside := by
  induction h with
  | refl _ => rfl
  | change _ hchange ih =>
    rw [← ih]
    cases hchange with
    | calm hcalm => exact hcalm.outside
    | elsewhere f => rfl
    | adopt p => rfl
    | release p _ _ => rfl
  | exit _ hmark _ _ ih ih' =>
    obtain ⟨exitStatus, hu⟩ := hmark.eq
    rw [ih', hu, ← ih]
    rfl

/-- **Nobody is born on the way**: whatever ends are nested in it, an unfolding only lets the
table decline. -/
theorem declines (h : Unfolds s t) (htame : Tame s.outside) : Declines s t := by
  induction h with
  | refl s => exact .refl s
  | @change s t u hrun hchange ih =>
    apply (ih htame).trans
    rw [← hrun.outside_eq] at htame
    cases hchange with
    | calm hcalm => exact .of_kept hcalm.entry
    | elsewhere f => exact .of_kept fun q => htame _ f _ q
    | adopt p => exact .of_setProc id (fun _ => id) fun _ => .inr rfl
    | release p _ _ =>
      have hreleased : Declines t (t.setProc p (t.mproc p).released) := by
        apply Declines.of_setProc <;> simp [Mproc.released]
      exact ⟨hreleased.inUse, hreleased.exiting, hreleased.mpParent⟩
  | @exit s t u v p hrun hmark hrest _ ih ih' =>
    have houtside := hrun.outside_eq
    obtain ⟨exitStatus, rfl⟩ := hmark.eq
    have hmarked : Declines t (t.setProc p ((t.mproc p).marked exitStatus)) :=
      .of_setProc (fun _ => hmark.live.1) (fun _ _ => by simp [Mproc.marked]) fun _ => .inl rfl
    apply ((ih htame).trans hmarked).trans (ih' _)
    rw [← houtside] at htame
    exact htame

end Unfolds

/-- A function that only unfolds, wherever it is called. -/
abbrev Tidy (m : Program α) : Prop := Within Unfolds m

/-! ## §3 Tidy primitives -/

/-- A function that leaves every entry to its owner unfolds nothing. -/
theorem tidy_of_calm {m : Program α} (h : ∀ s, Leads m s fun _ s' => Calm s s') : Tidy m :=
  fun s => (h s).mono fun _ _ hcalm => .single (.calm hcalm)

/-- What has become of `asked`, `mp`, `vfs` and the slot to try next does not matter. -/
theorem calm_of_eq {s s' : PmState} (hmproc : s'.mproc = s.mproc)
    (hcount : s'.procsInUse = s.procsInUse) (hpid : s'.nextPid = s.nextPid)
    (houtside : s'.outside = s.outside) (hlog : s.log <:+ s'.log) : Calm s s' :=
  ⟨fun p => by rw [hmproc]; exact .refl _, hcount, hpid, houtside, hlog⟩

theorem tidy_proc (p : Slot) : Tidy (proc p) :=
  tidy_of_calm fun _ => ⟨fun _ _ hm => by cases hm; exact calm_of_eq rfl rfl rfl rfl List.suffix_rfl⟩

theorem tidy_mp : Tidy mp :=
  tidy_of_calm fun _ => ⟨fun _ _ hm => by cases hm; exact calm_of_eq rfl rfl rfl rfl List.suffix_rfl⟩

theorem tidy_setMp (p : Slot) : Tidy (setMp p) :=
  tidy_of_calm fun _ => ⟨fun _ _ hm => by cases hm; exact calm_of_eq rfl rfl rfl rfl List.suffix_rfl⟩

theorem tidy_ask (call : KernelCall) : Tidy (ask call) :=
  tidy_of_calm fun _ => ⟨fun _ _ hm => by cases hm; exact calm_of_eq rfl rfl rfl rfl List.suffix_rfl⟩

theorem tidy_scan (p : Mproc → Prop) [DecidablePred p] : Tidy (scan p) :=
  tidy_of_calm fun _ => ⟨fun _ _ hm => by cases hm; exact calm_of_eq rfl rfl rfl rfl List.suffix_rfl⟩

theorem tidy_record (e : Event) : Tidy (record e) :=
  tidy_of_calm fun _ => ⟨fun _ _ hm => by cases hm; exact calm_of_eq rfl rfl rfl rfl (List.suffix_cons e _)⟩

theorem tidy_setVfs (p : Slot) (request : Option Message) : Tidy (setVfs p request) :=
  tidy_of_calm fun _ => ⟨fun _ _ hm => by cases hm; exact calm_of_eq rfl rfl rfl rfl List.suffix_rfl⟩

theorem tidy_tableFull (r : Mproc) : Tidy (tableFull r) :=
  tidy_of_calm fun _ => ⟨fun _ _ hm => by cases hm; exact calm_of_eq rfl rfl rfl rfl List.suffix_rfl⟩

theorem tidy_panic (format : String) : Tidy (panic format : Program α) := .throw

/-- A kernel call whose failure panics. -/
theorem tidy_require (call : KernelCall) (format : String) : Tidy (require call format) :=
  .bind (tidy_ask call) fun _ => .when fun _ => tidy_panic format

/-- A call of a function of another file is a change of its own. -/
theorem tidy_elsewhere (f : OtherFunction) : Tidy (elsewhere f) := by
  intro s
  constructor
  intro _ s' hm
  cases hm
  exact .single (.elsewhere s f)

/-- One entry is assigned to, and stays what it is. -/
theorem leads_modifyProc {s : PmState} {p : Slot} {f : Mproc → Mproc}
    (hf : Kept (s.mproc p) (f (s.mproc p))) :
    Leads (modifyProc p f) s fun _ s' => Unfolds s s' := by
  constructor
  intro _ s' hm
  cases hm
  refine .single (.calm ⟨fun q => ?_, rfl, rfl, rfl, List.suffix_rfl⟩)
  rcases eq_or_ne q p with rfl | hq
  · simpa using hf
  · simpa [hq] using Kept.refl (s.mproc q)

/-- An assignment that keeps the owner of every entry. -/
theorem tidy_modifyProc (p : Slot) {f : Mproc → Mproc} (hf : ∀ r, Kept r (f r)) :
    Tidy (modifyProc p f) :=
  fun s => leads_modifyProc (hf (s.mproc p))

/-- Flags other than `IN_USE` and `EXITING` may be set, -/
theorem tidy_raise (p : Slot) {f : Flag} (hinUse : f ≠ .IN_USE) (hexiting : f ≠ .EXITING) :
    Tidy (raise p f) := by
  apply tidy_modifyProc
  intro r
  refine ⟨?_, ?_, rfl, rfl, rfl, fun h => ⟨h.mpIgnore, h.mpCatch, h.mpSigmask, h.saMask⟩⟩
  · simp [hinUse.symm]
  · simp [hexiting.symm]

/-- and cleared. -/
theorem tidy_lower (p : Slot) {fs : Finset Flag} (hinUse : .IN_USE ∉ fs) (hexiting : .EXITING ∉ fs) :
    Tidy (lower p fs) := by
  apply tidy_modifyProc
  intro r
  refine ⟨?_, ?_, rfl, rfl, rfl, fun h => ⟨h.mpIgnore, h.mpCatch, h.mpSigmask, h.saMask⟩⟩
  · simp [hinUse]
  · simp [hexiting]

/-- An endpoint is looked up without a change of the table. -/
theorem tidy_pmIsokendpt (endpoint : ℤ) : Tidy (pmIsokendpt endpoint) := by
  intro s
  constructor
  intro found s' hm
  -- whatever the answer is, nothing was written
  have hs : s' = s := by
    unfold pmIsokendpt at hm
    dsimp only at hm
    split_ifs at hm <;> cases hm <;> rfl
  rw [hs]
  exact .refl s

/-- A test that panics. -/
theorem tidy_unless {c : Prop} [Decidable c] (format : String) : Tidy (when c (panic format)) :=
  .when fun _ => tidy_panic format

/-! ## §4 Tidy functions -/

theorem tidy_setreply (p : Slot) (result : ℤ) : Tidy (setreply p result) :=
  .bind (tidy_modifyProc p fun _ => .of_eq rfl rfl rfl rfl rfl rfl rfl rfl)
    fun _ => tidy_raise p (by decide) (by decide)

theorem tidy_vmNotifySigWrapper (ep : ℤ) : Tidy (vmNotifySigWrapper ep) := by
  apply Within.bind (tidy_scan _)
  intro found
  cases found with
  | none => exact .pure ()
  | some rmp => exact .bind (tidy_proc rmp) fun r => .bind (tidy_ask _) fun _ => .pure ()

/-- A request to VFS is noted in the entry, and keeps its owner. -/
theorem tidy_tellVfs (p : Slot) (m : Message) : Tidy (tellVfs p m) := by
  apply Within.bind (tidy_proc p)
  intro r
  apply Within.bind (tidy_unless _)
  intro _
  apply Within.bind (tidy_require _ _)
  intro _
  exact .bind (tidy_setVfs p _) fun _ => tidy_raise p (by decide) (by decide)

/-- A notice to `cv` goes into the log alone. -/
theorem tidy_tellCv (p : Slot) (m : Message) (signal : ℤ) : Tidy (tellCv p m signal) := by
  apply Within.bind (tidy_scan _)
  intro found
  cases found with
  | none => exact tidy_record _
  | some rmp =>
    apply Within.bind (tidy_proc rmp)
    intro r
    exact .bind (tidy_require _ _) fun _ => tidy_record _

theorem tidy_addPending (p : Slot) (signo : ℤ) (ksig : Bool) : Tidy (addPending p signo ksig) :=
  tidy_modifyProc p fun _ => .of_eq rfl rfl rfl rfl rfl rfl rfl rfl

theorem tidy_delPending (p : Slot) (signo : ℤ) : Tidy (delPending p signo) :=
  tidy_modifyProc p fun _ => .of_eq rfl rfl rfl rfl rfl rfl rfl rfl

theorem tidy_delayStop (p : Slot) : Tidy (delayStop p) := by
  apply Within.bind (tidy_proc p)
  intro r
  apply Within.ite (.pure true)
  apply Within.bind (tidy_ask _)
  intro a
  apply Within.ite
  · exact .bind (tidy_raise p (by decide) (by decide)) fun _ => .pure false
  · apply Within.bind (tidy_unless _)
    intro _
    exact .bind (tidy_raise p (by decide) (by decide)) fun _ => .pure true

/-- A call is interrupted by notices to VFS and `cv`; its process lives on. -/
theorem tidy_unpause (p : Slot) : Tidy (unpause p) := by
  apply Within.bind (tidy_proc p)
  intro r
  apply Within.ite (.pure ())
  apply Within.ite
  · exact .bind (tidy_require _ _) fun _ => tidy_raise p (by decide) (by decide)
  · apply Within.bind (tidy_delayStop p)
    intro stopped
    apply Within.when
    intro _
    apply Within.bind (tidy_tellVfs p _)
    intro _
    exact .bind (tidy_tellCv p _ _) fun _ => tidy_vmNotifySigWrapper _

theorem tidy_sigUnpause (p : Slot) : Tidy (sigUnpause p) := by
  apply Within.bind (tidy_proc p)
  intro r
  apply Within.bind (.when fun _ => tidy_unpause p)
  intro _
  exact .bind (tidy_proc p) fun _ => .pure _

theorem tidy_interruptCall (p : Slot) : Tidy (interruptCall p) := by
  apply Within.bind (tidy_proc p)
  intro r
  apply Within.bind
  · apply Within.when
    intro _
    exact .bind (tidy_lower p (by decide) (by decide)) fun _ => tidy_setreply p _
  · intro _
    apply Within.bind (tidy_proc p)
    intro r
    apply Within.when
    intro _
    exact .bind (tidy_lower p (by decide) (by decide)) fun _ => tidy_require _ _

theorem tidy_sigDeferred (p : Slot) (signo : ℤ) (ksig : Bool) : Tidy (sigDeferred p signo ksig) := by
  apply Within.bind (tidy_addPending p signo ksig)
  intro _
  apply Within.bind (tidy_proc p)
  intro r
  apply Within.when
  intro _
  exact .bind (tidy_require _ _) fun _ => tidy_raise p (by decide) (by decide)

theorem tidy_answerWait (waiter : Slot) (child : Mproc) : Tidy (answerWait waiter child) := by
  refine Within.bind (tidy_modifyProc waiter fun _ => .of_eq rfl rfl rfl rfl rfl rfl rfl rfl)
    fun _ => ?_
  exact .bind (tidy_setreply waiter _) fun _ => tidy_lower waiter (by decide) (by decide)

/-- The parent is given the status of its child, -/
theorem tidy_tellParent (p : Slot) : Tidy (tellParent p) := by
  apply Within.bind (tidy_proc p)
  intro c
  apply Within.bind (tidy_unless _)
  intro _
  apply Within.bind (tidy_unless _)
  intro _
  apply Within.bind (tidy_unless _)
  intro _
  apply Within.bind (tidy_answerWait _ c)
  intro _
  exact .bind (tidy_lower p (by decide) (by decide)) fun _ => tidy_raise p (by decide) (by decide)

/-- and so is the tracer. -/
theorem tidy_tellTracer (p : Slot) : Tidy (tellTracer p) := by
  apply Within.bind (tidy_proc p)
  intro c
  apply Within.bind (tidy_unless _)
  intro _
  apply Within.bind (tidy_unless _)
  intro _
  apply Within.bind (tidy_answerWait _ c)
  intro _
  exact .bind (tidy_lower p (by decide) (by decide)) fun _ => tidy_raise p (by decide) (by decide)

theorem tidy_stopRunning (p : Slot) : Tidy (stopRunning p) := by
  apply Within.bind (tidy_proc p)
  intro r
  apply Within.bind (.when fun _ => tidy_elsewhere _)
  intro _
  apply Within.bind (tidy_require _ _)
  intro _
  apply Within.bind (tidy_ask _)
  intro user
  apply Within.bind (tidy_ask _)
  intro sys
  apply Within.bind (tidy_proc p)
  intro r
  refine Within.bind (tidy_modifyProc _ fun _ => .of_eq rfl rfl rfl rfl rfl rfl rfl rfl) fun _ => ?_
  apply Within.bind (tidy_require _ _)
  intro _
  exact .bind (tidy_require _ _) fun _ => tidy_vmNotifySigWrapper _

theorem tidy_ksigTarget (p : Slot) (procId signo : ℤ) : Tidy (ksigTarget p procId signo) :=
  .ite (.pure 0) (.bind (.when fun _ => tidy_elsewhere _) fun _ => .pure procId)

theorem tidy_ksigResult (p : Slot) : Tidy (ksigResult p) :=
  .bind (tidy_proc p) fun _ => .pure _

/-- A new action for a signal other than `SIGKILL` leaves the process killable. -/
theorem kept_installAction {sigNr : ℤ} (hsig : sigNr ≠ SIGKILL) (svec : Sigaction) (sigRet : ℤ)
    (r : Mproc) : Kept r (installAction sigNr svec sigRet r) := by
  refine ⟨Iff.rfl, Iff.rfl, rfl, rfl, rfl, fun h => ⟨?_, ?_, h.mpSigmask, fun n => ?_⟩⟩
  · simp only [installAction]
    split
    · simp [hsig.symm, h.mpIgnore]
    · simp [h.mpIgnore]
  · simp only [installAction]
    split
    · simp [hsig.symm, h.mpCatch]
    · simp [h.mpCatch]
  · simp only [installAction]
    rcases eq_or_ne n sigNr with rfl | hn
    · simp
    · simpa [hn] using h.saMask n

theorem tidy_doSigaction (sigNr : ℤ) (osa : Bool) (nsa : Option Sigaction) (sigRet : ℤ) :
    Tidy (doSigaction sigNr osa nsa sigRet) := by
  intro s
  -- `SIGKILL` is turned away at once
  refine Leads.ite (fun _ => .pure (.refl s)) fun hsig => ?_
  apply Within.ite (.pure _)
  apply Within.bind tidy_mp
  intro who
  apply Within.bind (tidy_proc who)
  intro r
  apply Within.bind (.ite (tidy_ask _) (.pure _) : Tidy (copyOldAction osa r))
  intro a
  apply Within.ite (.pure a)
  cases nsa with
  | none => exact .pure _
  | some svec =>
    apply Within.bind (tidy_ask _)
    intro a
    apply Within.ite (.pure a)
    exact .bind (tidy_modifyProc who (kept_installAction hsig svec sigRet)) fun _ => .pure _

theorem tidy_doSigpending : Tidy doSigpending := by
  apply Within.bind tidy_mp
  intro who
  exact .bind (tidy_modifyProc who fun _ => .of_eq rfl rfl rfl rfl rfl rfl rfl rfl) fun _ => .pure _

theorem tidy_doPause : Tidy doPause := by
  apply Within.bind tidy_mp
  intro who
  exact .bind (tidy_raise who (by decide) (by decide)) fun _ => .pure _

theorem tidy_sendreply : Tidy sendreply := by
  apply Within.forM
  intro p
  apply Within.bind (tidy_proc p)
  intro r
  apply Within.when
  intro _
  exact .bind (tidy_ask _) fun _ => tidy_lower p (by decide) (by decide)

theorem tidy_startScheduling (p : Slot) : Tidy (startScheduling p) := by
  apply Within.bind (tidy_proc p)
  intro r
  apply Within.ite
  · exact .bind (tidy_ask _) fun a => .bind (tidy_elsewhere _) fun _ => .pure a
  · exact .pure _

theorem tidy_replyTo (who : Option Slot) (result : ℤ) : Tidy (replyTo who result) := by
  apply Within.when
  intro _
  cases who with
  | none => exact tidy_panic _
  | some p => exact tidy_setreply p result

theorem tidy_takeReply (p : Slot) : Tidy (takeReply p) :=
  .bind (tidy_lower p (by decide) (by decide)) fun _ => tidy_setVfs p none

theorem tidy_receive (source : ℤ) : Tidy (receive source) := by
  apply Within.bind (tidy_pmIsokendpt source)
  intro found
  match found with
  | .error _ => exact tidy_panic _
  | .ok who =>
    apply Within.bind (tidy_setMp _)
    intro _
    exact .bind (tidy_proc _) fun _ => .pure _

end MinixCv.Pm

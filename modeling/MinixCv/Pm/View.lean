import MinixCv.Pm.Main

/-!
# What The Life Cycle Depends On

The vital flags, the endpoint, the name and the open request of every slot, the caller and
the log.
Most of PM is silent about them: it assigns to other fields, asks the kernel, or panics.
-/

namespace MinixCv.Pm

open MinixCv.Lib MinixCv.Server PmHeader

/-! ## §1 The view -/

/-- One slot, as far as the life cycle depends on it. -/
structure Entry where
  flags : Finset Flag
  endpoint : ℤ
  name : String
  vfs : Option Message

@[ext] structure View [PmHeader] where
  slot : Slot → Entry
  mp : Slot
  log : List Event

variable [PmHeader] {α β : Type}

def PmState.view (s : PmState) : View where
  slot p := ⟨(s.mproc p).mpFlags ∩ vitalFlags, (s.mproc p).mpEndpoint, (s.mproc p).mpName, s.vfs p⟩
  mp := s.mp
  log := s.log

namespace View

def set (v : View) (p : Slot) (e : Entry) : View := { v with slot := Function.update v.slot p e }

def push (v : View) (e : Event) : View := { v with log := e :: v.log }

@[simp] theorem push_slot (v : View) (e : Event) : (v.push e).slot = v.slot := rfl

@[simp] theorem set_slot_self (v : View) (p : Slot) (e : Entry) : (v.set p e).slot p = e := by
  simp [set]

/-- Setting one slot leaves the others as they are. -/
theorem set_slot_of_ne (v : View) {p q : Slot} (e : Entry) (h : q ≠ p) :
    (v.set p e).slot q = v.slot q := by
  simp [set, h]

/-- A property of every slot, after one was set. -/
theorem forall_set {v : View} {p : Slot} {e : Entry} {P : Slot → Entry → Prop} (he : P p e)
    (h : ∀ q, q ≠ p → P q (v.slot q)) (q : Slot) : P q ((v.set p e).slot q) := by
  rcases eq_or_ne q p with rfl | hq
  · rw [set_slot_self]
    exact he
  · rw [set_slot_of_ne v e hq]
    exact h q hq

@[simp] theorem set_self (v : View) (p : Slot) : v.set p (v.slot p) = v := by
  simp [set]

@[simp] theorem set_set (v : View) (p : Slot) (e e' : Entry) :
    (v.set p e).set p e' = v.set p e' := by
  simp [set]

/-- What is logged does not depend on the slots. -/
theorem push_set (v : View) (p : Slot) (e : Entry) (ev : Event) :
    (v.push ev).set p e = (v.set p e).push ev := rfl

end View

/-- `m` started at `v` ends in `Φ` unless it panics or hangs. -/
abbrev Sure (m : Program α) (v : View) (Φ : α → View → Prop) : Prop :=
  Ensures PmState.view (· ≠ Stop.fuel) m v Φ

/-- `m` leaves the view as it is. -/
abbrev Quiet (m : Program α) : Prop := Silent PmState.view (· ≠ Stop.fuel) m

/-- `r` is an entry of the table that looks like `e`. -/
structure Entry.Shows (e : Entry) (r : Mproc) : Prop where
  flags : e.flags = r.mpFlags ∩ vitalFlags
  endpoint : e.endpoint = r.mpEndpoint
  name : e.name = r.mpName

namespace Entry

def Live (e : Entry) : Prop := .IN_USE ∈ e.flags ∧ .EXITING ∉ e.flags

def Dying (e : Entry) : Prop := .IN_USE ∈ e.flags ∧ .EXITING ∈ e.flags

def IsCv (e : Entry) : Prop := .IN_USE ∈ e.flags ∧ e.name = "cv"

namespace Shows

variable {e : Entry} {r : Mproc}

/-- A vital flag can be read off the view. -/
theorem mem {f : Flag} (h : e.Shows r) (hf : f ∈ vitalFlags) : f ∈ r.mpFlags ↔ f ∈ e.flags := by
  rw [h.flags, Finset.mem_inter]
  exact (and_iff_left hf).symm

theorem inUse (h : e.Shows r) : .IN_USE ∈ r.mpFlags ↔ .IN_USE ∈ e.flags := h.mem (by decide)

theorem exiting (h : e.Shows r) : .EXITING ∈ r.mpFlags ↔ .EXITING ∈ e.flags := h.mem (by decide)

theorem zombie (h : e.Shows r) : .ZOMBIE ∈ r.mpFlags ↔ .ZOMBIE ∈ e.flags := h.mem (by decide)

theorem traceZombie (h : e.Shows r) : .TRACE_ZOMBIE ∈ r.mpFlags ↔ .TRACE_ZOMBIE ∈ e.flags :=
  h.mem (by decide)

theorem toldParent (h : e.Shows r) : .TOLD_PARENT ∈ r.mpFlags ↔ .TOLD_PARENT ∈ e.flags :=
  h.mem (by decide)

theorem vfsCall (h : e.Shows r) : .VFS_CALL ∈ r.mpFlags ↔ .VFS_CALL ∈ e.flags :=
  h.mem (by decide)

/-- Whether a process lives can be read off the view. -/
theorem live (h : e.Shows r) : r.Live ↔ e.Live := by
  unfold Mproc.Live Live
  rw [h.inUse, h.exiting]

/-- Whether a process is the server `cv` can be read off the view. -/
theorem isCv (h : e.Shows r) : Pm.IsCv r ↔ e.IsCv := by
  unfold Pm.IsCv IsCv
  rw [h.inUse, h.name]

end Shows

end Entry

/-- The view of a state shows its table. -/
theorem PmState.view_shows (s : PmState) (p : Slot) : (s.view.slot p).Shows (s.mproc p) :=
  ⟨rfl, rfl, rfl⟩

/-! ## §2 Silent primitives -/

/-- The two entries differ in what the view does not show. -/
def SameVital (r r' : Mproc) : Prop :=
  r.mpFlags ∩ vitalFlags = r'.mpFlags ∩ vitalFlags ∧ r.mpEndpoint = r'.mpEndpoint ∧
    r.mpName = r'.mpName

/-- The merge that undoes a foreign write restores what the view shows. -/
theorem SameVital.keeping (r old : Mproc) : SameVital (r.keeping old) old := by
  refine ⟨?_, rfl, rfl⟩
  change (r.mpFlags \ vitalFlags ∪ old.mpFlags ∩ vitalFlags) ∩ vitalFlags = _
  ext f
  simp only [Finset.mem_inter, Finset.mem_union, Finset.mem_sdiff]
  tauto

/-- What an assignment to one entry does to the view. -/
theorem view_modifyProc (s : PmState) (p : Slot) (r : Mproc) :
    ({ s with mproc := Function.update s.mproc p r } : PmState).view =
      s.view.set p ⟨r.mpFlags ∩ vitalFlags, r.mpEndpoint, r.mpName, (s.view.slot p).vfs⟩ := by
  apply View.ext
  · funext q
    rcases eq_or_ne q p with rfl | hq
    · simp [PmState.view, View.set]
    · simp [PmState.view, View.set, hq]
  · rfl
  · rfl

theorem quiet_proc (p : Slot) : Quiet (proc p) := fun _ _ hs => hs

theorem quiet_mp : Quiet mp := fun _ _ hs => hs

theorem quiet_ask (call : KernelCall) : Quiet (ask call) := fun _ _ hs => hs

theorem quiet_scan (p : Mproc → Prop) [DecidablePred p] : Quiet (scan p) := fun _ _ hs => hs

theorem quiet_countProcs (d : ℤ) : Quiet (countProcs d) := fun _ _ hs => hs

theorem quiet_tableFull (r : Mproc) : Quiet (tableFull r) := fun _ _ hs => hs

/-- A panic is not a step to another view. -/
theorem quiet_panic (format : String) : Quiet (panic format : Program α) :=
  Silent.throw (by simp)

/-- A kernel call whose failure panics. -/
theorem quiet_require (call : KernelCall) (format : String) : Quiet (require call format) :=
  .bind (quiet_ask call) fun _ => .when (quiet_panic format)

/-- A function of another file is silent: `keeping` undoes what it does to vital fields. -/
theorem quiet_elsewhere (f : OtherFunction) : Quiet (elsewhere f) := by
  intro v s hs
  change PmState.view _ = v
  rw [← hs]
  apply View.ext
  · funext p
    -- `elsewhere` puts the vital flags, the endpoint and the name back
    obtain ⟨hflags, hend, hname⟩ := SameVital.keeping (s.outside s.asked f s.mproc p) (s.mproc p)
    simp only [PmState.view, hflags, hend, hname]
  · rfl
  · rfl

/-- An assignment to fields that the view does not show. -/
theorem quiet_modifyProc (p : Slot) {f : Mproc → Mproc} (hf : ∀ r, SameVital (f r) r) :
    Quiet (modifyProc p f) := by
  intro v s hs
  change PmState.view { s with mproc := Function.update s.mproc p (f (s.mproc p)) } = v
  obtain ⟨hflags, hend, hname⟩ := hf (s.mproc p)
  rw [view_modifyProc, hflags, hend, hname, ← hs]
  exact s.view.set_self p

/-- Flags that are not vital may be set, -/
theorem quiet_raise (p : Slot) {f : Flag} (hf : f ∉ vitalFlags) : Quiet (raise p f) := by
  apply quiet_modifyProc
  intro r
  exact ⟨Finset.insert_inter_of_notMem hf, rfl, rfl⟩

/-- and cleared. -/
theorem quiet_lower (p : Slot) {fs : Finset Flag} (hfs : Disjoint fs vitalFlags) :
    Quiet (lower p fs) := by
  apply quiet_modifyProc
  intro r
  refine ⟨?_, rfl, rfl⟩
  change (r.mpFlags \ fs) ∩ vitalFlags = r.mpFlags ∩ vitalFlags
  ext f
  have hf : f ∈ vitalFlags → f ∉ fs := fun h => Finset.disjoint_right.mp hfs h
  simp only [Finset.mem_inter, Finset.mem_sdiff]
  tauto

theorem quiet_pmIsokendpt (endpoint : ℤ) : Quiet (pmIsokendpt endpoint) := by
  intro v s hs
  unfold pmIsokendpt
  dsimp only
  split_ifs <;> exact hs

/-- The search for a pid writes `next_pid` alone. -/
theorem quiet_getFreePid : Quiet getFreePid := by
  unfold getFreePid
  -- `next_pid` is not in the view, so the number of rounds does not matter
  generalize (NR_PIDS : ℕ) + 1 = k
  induction k with
  | zero => exact Silent.throw (by simp)
  | succ k ih =>
    intro v s hs
    unfold getFreePidLoop
    dsimp only
    split_ifs
    · exact ih v _ hs
    · exact hs
    · exact ih v _ hs
    · exact hs

/-! ## §3 Silent functions -/

/-- A reply is noted in fields that the view does not show. -/
theorem quiet_setreply (p : Slot) (result : ℤ) : Quiet (setreply p result) :=
  .bind (quiet_modifyProc p fun _ => ⟨rfl, rfl, rfl⟩) fun _ => quiet_raise p (by decide)

/-- VM is told of a signal by a kernel call. -/
theorem quiet_vmNotifySigWrapper (ep : ℤ) : Quiet (vmNotifySigWrapper ep) := by
  apply Silent.bind (quiet_scan _)
  intro found
  cases found with
  | none => exact .pure ()
  | some rmp => exact .bind (quiet_proc rmp) fun r => .bind (quiet_ask _) fun _ => .pure ()

theorem quiet_addPending (p : Slot) (signo : ℤ) (ksig : Bool) : Quiet (addPending p signo ksig) :=
  quiet_modifyProc p fun _ => ⟨rfl, rfl, rfl⟩

theorem quiet_delPending (p : Slot) (signo : ℤ) : Quiet (delPending p signo) :=
  quiet_modifyProc p fun _ => ⟨rfl, rfl, rfl⟩

/-- Stopping a process later sets flags that are not vital. -/
theorem quiet_delayStop (p : Slot) : Quiet (delayStop p) := by
  apply Silent.bind (quiet_proc p)
  intro r
  apply Silent.ite (.pure true)
  apply Silent.bind (quiet_ask _)
  intro a
  apply Silent.ite
  · exact .bind (quiet_raise p (by decide)) fun _ => .pure false
  · apply Silent.bind (.when (quiet_panic _))
    intro _
    exact .bind (quiet_raise p (by decide)) fun _ => .pure true

/-- Ending a wait or a pause clears flags that are not vital. -/
theorem quiet_interruptCall (p : Slot) : Quiet (interruptCall p) := by
  apply Silent.bind (quiet_proc p)
  intro r
  apply Silent.bind
  · apply Silent.when
    exact .bind (quiet_lower p (by decide)) fun _ => quiet_setreply p _
  · intro _
    apply Silent.bind (quiet_proc p)
    intro r
    apply Silent.when
    exact .bind (quiet_lower p (by decide)) fun _ => quiet_require _ _

/-- The frame of a handler is built without a change of the view. -/
theorem quiet_sigSend (p : Slot) (signo : ℤ) : Quiet (sigSend p signo) := by
  apply Silent.bind (quiet_proc p)
  intro r
  apply Silent.bind (.when (quiet_panic _))
  intro _
  refine Silent.bind (quiet_modifyProc p fun _ => ⟨rfl, rfl, rfl⟩) fun _ => ?_
  apply Silent.bind (quiet_ask _)
  intro a
  apply Silent.ite (.pure false)
  apply Silent.bind (.when (quiet_panic _))
  intro _
  exact .bind (quiet_interruptCall p) fun _ => .pure true

/-- A signal that is held back is noted in the pending sets. -/
theorem quiet_sigDeferred (p : Slot) (signo : ℤ) (ksig : Bool) :
    Quiet (sigDeferred p signo ksig) := by
  apply Silent.bind (quiet_addPending p signo ksig)
  intro _
  apply Silent.bind (quiet_proc p)
  intro r
  apply Silent.when
  exact .bind (quiet_require _ _) fun _ => quiet_raise p (by decide)

theorem quiet_answerWait (waiter : Slot) (child : Mproc) : Quiet (answerWait waiter child) := by
  refine Silent.bind (quiet_modifyProc waiter fun _ => ⟨rfl, rfl, rfl⟩) fun _ => ?_
  exact .bind (quiet_setreply waiter _) fun _ => quiet_lower waiter (by decide)

/-- Stopping a process that exits does not change its vital flags; `announce_exit` does. -/
theorem quiet_stopRunning (p : Slot) : Quiet (stopRunning p) := by
  apply Silent.bind (quiet_proc p)
  intro r
  apply Silent.bind (.when (quiet_elsewhere _))
  intro _
  apply Silent.bind (quiet_require _ _)
  intro _
  apply Silent.bind (quiet_ask _)
  intro user
  apply Silent.bind (quiet_ask _)
  intro sys
  apply Silent.bind (quiet_proc p)
  intro r
  refine Silent.bind (quiet_modifyProc _ fun _ => ⟨rfl, rfl, rfl⟩) fun _ => ?_
  apply Silent.bind (quiet_require _ _)
  intro _
  exact .bind (quiet_require _ _) fun _ => quiet_vmNotifySigWrapper _

theorem quiet_ksigTarget (p : Slot) (procId signo : ℤ) : Quiet (ksigTarget p procId signo) :=
  .ite (.pure 0) (.bind (.when (quiet_elsewhere _)) fun _ => .pure procId)

theorem quiet_ksigResult (p : Slot) : Quiet (ksigResult p) :=
  .bind (quiet_proc p) fun _ => .pure _

/-- A handler is installed without a change of the view. -/
theorem quiet_doSigaction (sigNr : ℤ) (osa : Bool) (nsa : Option Sigaction) (sigRet : ℤ) :
    Quiet (doSigaction sigNr osa nsa sigRet) := by
  apply Silent.ite (.pure _)
  apply Silent.ite (.pure _)
  apply Silent.bind quiet_mp
  intro who
  apply Silent.bind (quiet_proc who)
  intro r
  apply Silent.bind (.ite (quiet_ask _) (.pure _) : Quiet (copyOldAction osa r))
  intro a
  apply Silent.ite (.pure a)
  cases nsa with
  | none => exact .pure _
  | some svec =>
    apply Silent.bind (quiet_ask _)
    intro a
    apply Silent.ite (.pure a)
    exact .bind (quiet_modifyProc who fun _ => ⟨rfl, rfl, rfl⟩) fun _ => .pure _

theorem quiet_doSigpending : Quiet doSigpending := by
  apply Silent.bind quiet_mp
  intro who
  exact .bind (quiet_modifyProc who fun _ => ⟨rfl, rfl, rfl⟩) fun _ => .pure _

theorem quiet_doPause : Quiet doPause := by
  apply Silent.bind quiet_mp
  intro who
  exact .bind (quiet_raise who (by decide)) fun _ => .pure _

/-- The replies of a round are sent without a change of the view. -/
theorem quiet_sendreply : Quiet sendreply := by
  apply Silent.forM
  intro p
  apply Silent.bind (quiet_proc p)
  intro r
  apply Silent.when
  exact .bind (quiet_ask _) fun _ => quiet_lower p (by decide)

theorem quiet_startScheduling (p : Slot) : Quiet (startScheduling p) := by
  apply Silent.bind (quiet_proc p)
  intro r
  apply Silent.ite
  · exact .bind (quiet_ask _) fun a => .bind (quiet_elsewhere _) fun _ => .pure a
  · exact .pure _

theorem quiet_replyTo (who : Option Slot) (result : ℤ) : Quiet (replyTo who result) := by
  apply Silent.when
  cases who with
  | none => exact quiet_panic _
  | some p => exact quiet_setreply p result

end MinixCv.Pm

import MinixCv.Pm.Signal

/-!
# Birth And Death

`forkexit.c`.  A process that ends is first reported to VFS and to `cv` and marked
`EXITING`; its slot is released when VFS is done with it and its parent has collected the
exit status, whichever comes later.
-/

namespace MinixCv.Pm

open MinixCv.Lib MinixCv.Server PmHeader

variable [PmHeader]

def LAST_FEW : ℕ := 2

/-! ## §1 Telling the parent and the tracer -/

/-- `wait_test` -/
def WaitTest (rmp child : Mproc) : Prop :=
  .WAITING ∈ rmp.mpFlags ∧
    (rmp.mpWpid = -1 ∨ rmp.mpWpid = child.mpPid ∨ -rmp.mpWpid = child.mpProcgrp)

instance (rmp child : Mproc) : Decidable (WaitTest rmp child) :=
  inferInstanceAs (Decidable (_ ∧ _))

/-- `(mp_exitstatus << 8) | (mp_sigstatus & 0377)`, on `int`s made from `char`s -/
def waitStatus (child : Mproc) : ℤ :=
  ((child.mpExitstatus.signExtend 32 <<< 8) ||| child.mpSigstatus.zeroExtend 32).toInt

/-- The answer to a `wait` of the process in slot `waiter`, about `child`. -/
def answerWait (waiter : Slot) (child : Mproc) : Program Unit := do
  modifyProc waiter fun p => { p with mpReply := { p.mpReply with replyRes2 := waitStatus child } }
  setreply waiter child.mpPid
  lower waiter {.WAITING}

/-- `tell_parent` -/
def tellParent (child : Slot) : Program Unit := do
  let c ← proc child
  when (c.mpParent.val = 0) (panic "tell_parent: bad value in mp_parent: %d")
  when (.ZOMBIE ∉ c.mpFlags) (panic "tell_parent: child not a zombie")
  when (.TOLD_PARENT ∈ c.mpFlags) (panic "tell_parent: telling parent again")
  answerWait c.mpParent c
  lower child {.ZOMBIE}
  raise child .TOLD_PARENT

/-- `tell_tracer` -/
def tellTracer (child : Slot) : Program Unit := do
  let c ← proc child
  when (c.mpTracer.val = 0) (panic "tell_tracer: bad value in mp_tracer: %d")
  when (.TRACE_ZOMBIE ∉ c.mpFlags) (panic "tell_tracer: child not a zombie")
  answerWait c.mpTracer c
  lower child {.TRACE_ZOMBIE}
  raise child .ZOMBIE

/-- `procs_in_use += d` -/
def countProcs (d : ℤ) : Program Unit := fun s =>
  .ok ((), { s with procsInUse := s.procsInUse + d })

/-- `cleanup` -/
def cleanup (rmp : Slot) : Program Unit := do
  let r ← proc rmp
  modifyProc rmp fun r => { r with mpPid := 0, mpFlags := ∅, mpChildUtime := 0, mpChildStime := 0 }
  countProcs (-1)
  record (.released rmp r.mpEndpoint)

section Exiting

variable (exitProc : Slot → ℤ → Bool → Program Unit)

/-- `check_parent` -/
def checkParent (child : Slot) (tryCleanup : Bool) : Program Unit := do
  let c ← proc child
  let p ← proc c.mpParent
  -- the child of a dead parent will be assigned to INIT and rechecked shortly after
  if .EXITING ∈ p.mpFlags then pure ()
  else if WaitTest p c then do
    tellParent child
    let c ← proc child
    when (tryCleanup ∧ .VFS_CALL ∉ c.mpFlags) (cleanup child)
  else sigProc exitProc c.mpParent SIGCHLD true false

/-- `zombify` -/
def zombify (rmp : Slot) : Program Unit := do
  let r ← proc rmp
  when (r.any {.TRACE_ZOMBIE, .ZOMBIE}) (panic "zombify: process was already a zombie")
  -- a tracer that is not the parent is told first
  if r.mpTracer ≠ NO_TRACER ∧ r.mpTracer ≠ r.mpParent then do
    raise rmp .TRACE_ZOMBIE
    let t ← proc r.mpTracer
    -- tracers get no `SIGCHLD`
    when (WaitTest t r) do
      tellTracer rmp
      checkParent exitProc rmp false
  else do
    raise rmp .ZOMBIE
    checkParent exitProc rmp false

/-- `tracer_died` -/
def tracerDied (child : Slot) : Program Unit := do
  modifyProc child fun c => { c with mpTracer := NO_TRACER }
  lower child {.TRACE_EXIT}
  let c ← proc child
  -- nobody knows what state the child is in; this may cause cascading exits
  if .EXITING ∉ c.mpFlags then sigProc exitProc child SIGKILL true false
  -- the child was telling the tracer about its own death
  else when (.TRACE_ZOMBIE ∈ c.mpFlags) do
    lower child {.TRACE_ZOMBIE}
    raise child .ZOMBIE
    checkParent exitProc child true

/-! ## §2 `exit_proc` -/

/-- The beginning of `exit_proc`: timer, accounting, and no more running. -/
def stopRunning (rmp : Slot) : Program Unit := do
  let r ← proc rmp
  when (.ALARM_ON ∈ r.mpFlags) (elsewhere (.set_alarm rmp 0))
  require (.sys_times r.mpEndpoint) "exit_proc: sys_times failed: %d"
  let user ← ask (.user_time r.mpEndpoint)
  let sys ← ask (.sys_time r.mpEndpoint)
  let r ← proc rmp
  modifyProc r.mpParent fun p =>
    { p with
      mpChildUtime := p.mpChildUtime + (user + r.mpChildUtime)
      mpChildStime := p.mpChildStime + (sys + r.mpChildStime) }
  require (.sys_stop r.mpEndpoint) "sys_stop failed: %d"
  require (.vm_willexit r.mpEndpoint) "exit_proc: vm_willexit failed: %d"
  vmNotifySigWrapper r.mpEndpoint

/-- `m` as `exit_proc` fills it in. -/
def exitMessage (r : Mproc) (dumpCore : Bool) : Message :=
  { mType := if dumpCore then .PM_DUMPCORE else .PM_EXIT
    PM_PROC := r.mpEndpoint
    PM_TRACED_PROC := r.mpEndpoint
    PM_TERM_SIG := if dumpCore then r.mpSigstatus else 0
    PM_PATH := if dumpCore then r.mpName else "" }

/-- The call of `tell_cv` in `exit_proc`. -/
def exitTellCv (rmp : Slot) (r : Mproc) (dumpCore : Bool) : Program Unit :=
  tellCv rmp (exitMessage r dumpCore) 6

/-- The middle of `exit_proc`, from the reports to the mark. -/
def announceExit (rmp : Slot) (exitStatus : ℤ) (dumpCore : Bool) : Program Unit := do
  let r ← proc rmp
  tellVfs rmp (exitMessage r dumpCore)
  exitTellCv rmp r dumpCore
  -- a system process is destroyed without waiting for VFS
  when (.PRIV_PROC ∈ r.mpFlags)
    (require (.sys_clear r.mpEndpoint) "exit_proc: sys_clear failed: %d")
  modifyProc rmp fun r =>
    { r with
      mpFlags := insert .EXITING (r.mpFlags ∩ {.IN_USE, .VFS_CALL, .PRIV_PROC, .TRACE_EXIT})
      mpExitstatus := BitVec.ofInt 8 exitStatus }

/-- The body of the loop of `exit_proc` over the children and the traced processes. -/
def disinherit (procNr rmp : Slot) : Program Unit := do
  let r ← proc rmp
  when (.IN_USE ∈ r.mpFlags) do
    when (r.mpTracer = procNr) (tracerDied exitProc rmp)
    let r ← proc rmp
    when (r.mpParent = procNr) do
      modifyProc rmp fun r => { r with mpParent := INIT_PROC_NR }
      when (.ZOMBIE ∈ r.mpFlags) (checkParent exitProc rmp true)

/-- The end of `exit_proc`. -/
def finishExit (rmp : Slot) (procgrp : ℤ) (dumpCore : Bool) : Program Unit := do
  -- after a core dump the parent is told only when the dump is made
  when (!dumpCore) (zombify exitProc rmp)
  -- the children get INIT as their parent, and are rechecked
  (List.finRange NR_PROCS).forM (disinherit exitProc rmp)
  -- a hangup for the group of a session leader
  when (procgrp ≠ 0) do
    let _ ← checkSig exitProc (-procgrp) SIGHUP false
    pure ()

/-- Set uid programs and system processes leave no core file. -/
def mayDump (r : Mproc) (dumpCore : Bool) : Bool :=
  dumpCore ∧ r.mpRealuid = r.mpEffuid ∧ .PRIV_PROC ∉ r.mpFlags

/-- A session leader's process group. -/
def leadersGroup (caller r : Mproc) : ℤ :=
  if r.mpPid = caller.mpProcgrp then caller.mpProcgrp else 0

/-- The body of `exit_proc`; the argument `exitProc` is for the exits it brings about. -/
def exitProcBody (rmp : Slot) (exitStatus : ℤ) (dumpCore : Bool) : Program Unit := do
  let r ← proc rmp
  let caller ← proc (← mp)
  stopRunning rmp
  -- INIT is stopped and nothing more
  if r.mpEndpoint = INIT_PROC_NR.val then pure ()
  else do
    when (r.mpEndpoint = VFS_PROC_NR) (panic "exit_proc: VFS died: %d")
    announceExit rmp exitStatus (mayDump r dumpCore)
    finishExit exitProc rmp (leadersGroup caller r) (mayDump r dumpCore)

/-- `exit_restart` -/
def exitRestart (rmp : Slot) (dumpCore : Bool) : Program Unit := do
  let r ← proc rmp
  -- a scheduler that refuses is only reported
  let _ ← ask (.sched_stop r.mpScheduler r.mpEndpoint)
  modifyProc rmp fun r => { r with mpScheduler := NONE }
  when dumpCore (zombify exitProc rmp)
  let r ← proc rmp
  when (.PRIV_PROC ∉ r.mpFlags)
    (require (.sys_clear r.mpEndpoint) "exit_restart: sys_clear failed: %d")
  require (.vm_exit r.mpEndpoint) "exit_restart: vm_exit failed: %d"
  -- complete the `ptrace(T_EXIT)` call of the tracer
  when (.TRACE_EXIT ∈ r.mpFlags) do
    modifyProc r.mpTracer fun t => { t with mpReply := { t.mpReply with replyTrace := 0 } }
    setreply r.mpTracer OK
  -- the parent has collected the exit status
  when (.TOLD_PARENT ∈ r.mpFlags) (cleanup rmp)

/-! ## §3 `do_waitpid` -/

/-- The tests that pass over a process in `do_waitpid`. -/
def NotAwaited (who : Slot) (pidarg : ℤ) (r : Mproc) : Prop :=
  ¬(.IN_USE ∈ r.mpFlags ∧ .TOLD_PARENT ∉ r.mpFlags) ∨
  r.mpParent ≠ who ∧ r.mpTracer ≠ who ∨
  r.mpParent ≠ who ∧ .ZOMBIE ∈ r.mpFlags ∨
  0 < pidarg ∧ pidarg ≠ r.mpPid ∨
  pidarg < -1 ∧ -pidarg ≠ r.mpProcgrp

instance (who : Slot) (pidarg : ℤ) (r : Mproc) : Decidable (NotAwaited who pidarg r) :=
  inferInstanceAs (Decidable (_ ∨ _))

/-- The signal that a stopped process has for its tracer. -/
def tracedSignal (who : Slot) (r : Mproc) : Option ℤ :=
  if r.mpTracer = who ∧ .STOPPED ∈ r.mpFlags then signals.find? (· ∈ r.mpSigtrace) else none

/-- `0177 | (i << 8)` -/
def stoppedStatus (i : ℤ) : ℤ := ((0o177 ||| (i.toNat <<< 8) : ℕ) : ℤ)

/-- The loop of `do_waitpid` from a slot on: the result, or the number of children. -/
def waitpidLoop (who : Slot) (pidarg : ℤ) : List Slot → ℕ → Program (ℤ ⊕ ℕ)
  | [], children => pure (.inr children)
  | rp :: rest, children => do
    let r ← proc rp
    if NotAwaited who pidarg r then waitpidLoop who pidarg rest children
    else if r.mpTracer = who ∧ .TRACE_ZOMBIE ∈ r.mpFlags then do
      -- the traced child has exited
      tellTracer rp
      checkParent exitProc rp true
      pure (.inl SUSPEND)
    else match tracedSignal who r with
      | some i => do
        modifyProc rp fun r => { r with mpSigtrace := r.mpSigtrace.erase i }
        modifyProc who fun p => { p with mpReply := { p.mpReply with replyRes2 := stoppedStatus i } }
        pure (.inl r.mpPid)
      | none =>
        -- `tell_parent` sends the reply that wakes the caller
        if r.mpParent = who ∧ .ZOMBIE ∈ r.mpFlags then do
          tellParent rp
          let r ← proc rp
          when (.VFS_CALL ∉ r.mpFlags) (cleanup rp)
          pure (.inl SUSPEND)
        else waitpidLoop who pidarg rest (children + 1)

/-- `pidarg` once 0 has been replaced by the caller's process group. -/
def pidArg (caller : Mproc) (pid : ℤ) : ℤ := if pid = 0 then -caller.mpProcgrp else pid

/-- `do_waitpid`, where `WAIT` passes -1 and no options. -/
def doWaitpid (pid : ℤ) (wnohang : Bool) : Program ℤ := do
  let who ← mp
  let r ← proc who
  let found ← waitpidLoop exitProc who (pidArg r pid) (List.finRange NR_PROCS) 0
  match found with
  | .inl result => pure result
  | .inr children =>
    if 0 < children then
      if wnohang then pure 0
      else do
        -- no reply: the caller waits for the death of a child
        raise who .WAITING
        modifyProc who fun p => { p with mpWpid := pidArg r pid }
        pure SUSPEND
    else pure ECHILD

/-! ## §4 Forking -/

/-- The `do … while` of the two forks from `next_child` and `n` on, at most `k` rounds. -/
def findChildLoop (t : Slot → Mproc) : ℕ → ℕ → ℕ → ℕ × ℕ
  | 0, next, n => (next, n)
  | k + 1, next, n =>
    let slot : Slot := ⟨(next + 1) % NR_PROCS, Nat.mod_lt _ (INIT_PROC_NR : Slot).pos⟩
    if .IN_USE ∈ (t slot).mpFlags ∧ n + 1 ≤ NR_PROCS then findChildLoop t k slot (n + 1)
    else (slot, n + 1)

/-- A slot for the child; `next_child` is `do_srv_fork`'s own if `srv`. -/
def findChild (srv : Bool) : Program Slot := fun s =>
  let found := findChildLoop s.mproc (NR_PROCS + 1) (if srv then s.nextSrvChild else s.nextChild) 0
  if NR_PROCS < found.2 then .error (.panic "do_fork can't find child slot")
  else if h : found.1 < NR_PROCS then
    if .IN_USE ∈ (s.mproc ⟨found.1, h⟩).mpFlags then
      .error (.panic "do_fork finds wrong child slot: %d")
    else
      .ok (⟨found.1, h⟩,
        if srv then { s with nextSrvChild := found.1 } else { s with nextChild := found.1 })
  else .error (.panic "do_fork finds wrong child slot: %d")

/-- The child's entry: the parent's, with what both forks reset. -/
def childOf (who : Slot) (inherited : Finset Flag) (childEp : ℤ) (r : Mproc) : Mproc :=
  let traced : Prop := .TO_TRACEFORK ∈ r.mpTraceFlags
  { r with
    mpParent := who
    mpTracer := if traced then r.mpTracer else NO_TRACER
    mpTraceFlags := if traced then r.mpTraceFlags else ∅
    mpSigtrace := if traced then r.mpSigtrace else ∅
    mpFlags := r.mpFlags ∩ inherited
    mpChildUtime := 0
    mpChildStime := 0
    mpExitstatus := 0
    mpSigstatus := 0
    mpEndpoint := childEp
    mpInterval := List.replicate r.mpInterval.length 0 }

/-- The checks at the beginning of the two forks. -/
def tableFull (r : Mproc) : Program Bool := fun s =>
  .ok (s.procsInUse = NR_PROCS ∨ s.procsInUse ≥ (NR_PROCS : ℤ) - LAST_FEW ∧ r.mpEffuid ≠ 0, s)

/-- The two forks from `vm_fork` on, in the slot that was found.  `adapt` holds the
    assignments only one of them makes, `request` the message to VFS. -/
def bear (who child : Slot) (inherited : Finset Flag) (adapt : Mproc → Mproc)
    (request : Mproc → Mproc → Message) : Program Unit := do
  let r ← proc who
  -- VM passes back the endpoint: the slot is known, the generation is not
  let g ← ask (.vm_fork_generation r.mpEndpoint child)
  countProcs 1
  modifyProc child fun _ => adapt (childOf who inherited (ENDPOINT g child) r)
  record (.born child (ENDPOINT g child))
  let pid ← getFreePid
  modifyProc child fun c => { c with mpPid := pid }
  let c ← proc child
  tellVfs child (request c r)
  -- the tracer, if it follows forks, is told about the new child
  when (c.mpTracer ≠ NO_TRACER) (sigProc exitProc child SIGSTOP true false)

/-- The body of the two forks: an error number, or the slot of the child. -/
def forkWith (srv : Bool) (child : Slot → Slot → Program Unit) : Program (ℤ ⊕ Slot) := do
  let who ← mp
  let r ← proc who
  let full ← tableFull r
  if full then pure (.inl EAGAIN)
  else do
    let slot ← findChild srv
    -- `next_child` has moved even if VM fails
    let a ← ask (.vm_fork r.mpEndpoint slot)
    if a ≠ OK then pure (.inl a)
    else do
      child who slot
      pure (.inr slot)

/-- A regular fork of a system process is scheduled by PM; `PRIV_PROC` is not inherited. -/
def adaptFork (parent c : Mproc) : Mproc :=
  { c with
    mpScheduler := if .PRIV_PROC ∈ parent.mpFlags then SCHED_PROC_NR else c.mpScheduler }

/-- The uid and gid that RS wants for a service. -/
def adaptSrvFork (uid gid : ℤ) (c : Mproc) : Mproc :=
  { c with mpRealuid := uid, mpEffuid := uid, mpRealgid := gid, mpEffgid := gid }

def forkMessage (c r : Mproc) : Message :=
  { mType := .PM_FORK
    PM_PROC := c.mpEndpoint
    PM_PPROC := r.mpEndpoint
    PM_CPID := c.mpPid
    PM_REUID := -1
    PM_REGID := -1 }

def srvForkMessage (uid gid : ℤ) (c r : Mproc) : Message :=
  { forkMessage c r with mType := .PM_SRV_FORK, PM_REUID := uid, PM_REGID := gid }

/-- `do_fork` -/
def doFork : Program ℤ := do
  let found ← forkWith false fun who child => do
    let r ← proc who
    when (.PRIV_PROC ∈ r.mpFlags ∧ r.mpScheduler ≠ NONE)
      (panic "assert(rmc->mp_scheduler == NONE)")
    bear exitProc who child {.IN_USE, .DELAY_CALL, .TAINTED} (adaptFork r) forkMessage
  match found with
  | .inl e => pure e
  | .inr _ => pure SUSPEND

/-- `do_srv_fork`, with the uid and gid of the request -/
def doSrvFork (uid gid : ℤ) : Program ℤ := do
  let r ← proc (← mp)
  if r.mpEndpoint ≠ RS_PROC_NR.val then pure EPERM
  else do
    let found ← forkWith true fun who child =>
      bear exitProc who child {.IN_USE, .PRIV_PROC, .DELAY_CALL} (adaptSrvFork uid gid)
        (srvForkMessage uid gid)
    match found with
    | .inl e => pure e
    | .inr child => do
      setreply child OK
      let c ← proc child
      pure c.mpPid

/-- `do_exit` -/
def doExit (status : ℤ) : Program ℤ := do
  let who ← mp
  let r ← proc who
  if .PRIV_PROC ∈ r.mpFlags then do
    -- system processes do not use `exit`
    let _ ← ask (.sys_kill r.mpEndpoint SIGKILL)
    pure SUSPEND
  else do
    exitProc who status false
    pure SUSPEND

end Exiting

/-! ## §5 Closing the circle -/

/-- `exit_proc` where exits bring about exits at most `depth` deep. -/
def exitProcDepth : ℕ → Slot → ℤ → Bool → Program Unit
  | 0, _, _, _ => throw .fuel
  | depth + 1, rmp, exitStatus, dumpCore =>
    exitProcBody (exitProcDepth depth) rmp exitStatus dumpCore

/-- `exit_proc`.  Every exit in a chain of exits ends another process. -/
def exitProc : Slot → ℤ → Bool → Program Unit := exitProcDepth NR_PROCS

end MinixCv.Pm

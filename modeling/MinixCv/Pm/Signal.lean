import MinixCv.Pm.Utility

/-!
# Signals

`signal.c`.  A signal may end its process, and the end of a process sends signals, so the
functions here take `exit_proc` as an argument; `ForkExit` closes the circle.

A process that catches a signal is first unpaused.  Where it does not hang in a call of PM,
`unpause` asks VFS to cancel its call, and tells `cv`.
-/

namespace MinixCv.Pm

open MinixCv.Lib MinixCv.Server PmHeader

variable [PmHeader]

/-! ## §1 Sets of signals -/

def coreSset : Finset ℤ :=
  {SIGQUIT, SIGILL, SIGTRAP, SIGABRT, SIGEMT, SIGFPE, SIGBUS, SIGSEGV}

def ignSset : Finset ℤ := {SIGCHLD, SIGWINCH, SIGCONT}

def noignSset : Finset ℤ := {SIGILL, SIGTRAP, SIGEMT, SIGFPE, SIGBUS, SIGSEGV}

/-- `1, …, _NSIG - 1` -/
def signals : List ℤ := (List.range' 1 (NSIG - 1)).map Nat.cast

/-- The signal is kept for later, with the note that the kernel has sent it. -/
def addPending (rmp : Slot) (signo : ℤ) (ksig : Bool) : Program Unit :=
  modifyProc rmp fun r =>
    { r with
      mpSigpending := insert signo r.mpSigpending
      mpKsigpending := if ksig then insert signo r.mpKsigpending else r.mpKsigpending }

def delPending (rmp : Slot) (signo : ℤ) : Program Unit :=
  modifyProc rmp fun r =>
    { r with
      mpSigpending := r.mpSigpending.erase signo
      mpKsigpending := r.mpKsigpending.erase signo }

/-! ## §2 Unpausing and delivering -/

/-- The part of `unpause` that stops a process which may be in the middle of a send: whether
    it has been stopped. -/
def delayStop (rmp : Slot) : Program Bool := do
  let r ← proc rmp
  -- it is stopped already
  if .PM_SIG_PENDING ∈ r.mpFlags then pure true
  else do
    let a ← ask (.sys_delay_stop r.mpEndpoint)
    -- still sending: a `SIGSNDELAY` will tell when that is done
    if a = EBUSY then do
      raise rmp .DELAY_CALL
      pure false
    else do
      when (a ≠ OK) (panic "sys_stop failed: %d")
      raise rmp .PM_SIG_PENDING
      pure true

/-- `m` as `unpause` fills it in. -/
def unpauseMessage (r : Mproc) : Message := { mType := .PM_UNPAUSE, PM_PROC := r.mpEndpoint }

/-- The call of `tell_cv` in `unpause`. -/
def unpauseTellCv (rmp : Slot) (r : Mproc) : Program Unit := tellCv rmp (unpauseMessage r) 5

/-- `unpause` -/
def unpause (rmp : Slot) : Program Unit := do
  let r ← proc rmp
  -- a delayed call is being waited for
  if .DELAY_CALL ∈ r.mpFlags then pure ()
  else if r.any {.PAUSED, .WAITING, .SIGSUSPENDED} then do
    -- it hangs in a call of PM, which `sig_send` will interrupt
    require (.sys_stop r.mpEndpoint) "sys_stop failed: %d"
    raise rmp .UNPAUSED
  else do
    -- not paused in PM: VFS has to cancel the call, and so has `cv`
    let stopped ← delayStop rmp
    when stopped do
      tellVfs rmp (unpauseMessage r)
      unpauseTellCv rmp r
      vmNotifySigWrapper r.mpEndpoint

/-- The assignments of `sig_send` before the kernel is asked. -/
def prepareHandler (signo : ℤ) (r : Mproc) : Mproc :=
  let act := r.mpSigact signo
  let mask := r.mpSigmask ∪ act.saMask
  { r with
    mpSigmask := if .SA_NODEFER ∈ act.saFlags then mask.erase signo else insert signo mask
    mpCatch := if .SA_RESETHAND ∈ act.saFlags then r.mpCatch.erase signo else r.mpCatch
    mpSigact :=
      if .SA_RESETHAND ∈ act.saFlags then
        Function.update r.mpSigact signo { act with saHandler := .SIG_DFL }
      else r.mpSigact
    mpSigpending := r.mpSigpending.erase signo
    mpKsigpending := r.mpKsigpending.erase signo }

/-- The end of `sig_send`: interrupt the call the process is blocked in, and resume it. -/
def interruptCall (rmp : Slot) : Program Unit := do
  let r ← proc rmp
  -- was it suspended in PM?
  when (r.any {.PAUSED, .WAITING, .SIGSUSPENDED}) do
    lower rmp {.PAUSED, .WAITING, .SIGSUSPENDED}
    setreply rmp EINTR
  let r ← proc rmp
  -- was it stopped just for this signal?
  when (.UNPAUSED ∈ r.mpFlags ∧ .PM_SIG_PENDING ∉ r.mpFlags) do
    lower rmp {.UNPAUSED}
    require (.sys_resume r.mpEndpoint) "sys_resume failed: %d"

/-- `sig_send`; `sigmsg` goes to the kernel and is not kept. -/
def sigSend (rmp : Slot) (signo : ℤ) : Program Bool := do
  let r ← proc rmp
  when (.UNPAUSED ∉ r.mpFlags) (panic "sig_send: process not unpaused")
  modifyProc rmp (prepareHandler signo)
  let a ← ask (.sys_sigsend r.mpEndpoint signo)
  -- no room for the handler's frame; other errors are not expected
  if a = EFAULT ∨ a = ENOMEM then pure false
  else do
    when (a ≠ OK) (panic "sys_sigsend failed: %d")
    interruptCall rmp
    pure true

/-! ## §3 Sending signals -/

section Sending

variable (exitProc : Slot → ℤ → Bool → Program Unit)

/-- `sig_proc_exit` -/
def sigProcExit (rmp : Slot) (signo : ℤ) : Program Unit := do
  modifyProc rmp fun r => { r with mpSigstatus := BitVec.ofInt 8 signo }
  if signo ∈ coreSset then do
    let r ← proc rmp
    when (.PRIV_PROC ∉ r.mpFlags) do
      let _ ← ask (.sys_sysctl_stacktrace r.mpEndpoint)
      pure ()
    exitProc rmp 0 true
  else exitProc rmp 0 false

/-- The branch of `sig_proc` for a process that VFS works for. -/
def sigDeferred (rmp : Slot) (signo : ℤ) (ksig : Bool) : Program Unit := do
  addPending rmp signo ksig
  let r ← proc rmp
  when (.PM_SIG_PENDING ∉ r.mpFlags) do
    require (.sys_stop r.mpEndpoint) "sys_stop failed: %d"
    raise rmp .PM_SIG_PENDING

/-- The branch of `sig_proc` for system processes. -/
def sigSystem (rmp : Slot) (signo : ℤ) (ksig : Bool) : Program Unit := do
  let r ← proc rmp
  -- signals for PM are skipped when broadcasting
  if r.mpEndpoint = Minix.PM_PROC_NR then pure ()
  else if !ksig then do
    -- the kernel picks the signal manager; if that is PM the signal comes back
    let _ ← ask (.sys_kill r.mpEndpoint signo)
    pure ()
  else do
    when (SIGS_IS_STACKTRACE signo) do
      let _ ← ask (.sys_sysctl_stacktrace r.mpEndpoint)
      pure ()
    if !SIGS_IS_TERMINATION signo then do
      -- SIGS_SIGNAL_RECEIVED
      let _ ← ask (.asynsend3 r.mpEndpoint)
      pure ()
    else sigProcExit exitProc rmp signo

/-- A caught signal: whether the process has been unpaused. -/
def sigUnpause (rmp : Slot) : Program Bool := do
  let r ← proc rmp
  when (.UNPAUSED ∉ r.mpFlags) (unpause rmp)
  let r ← proc rmp
  pure (.UNPAUSED ∈ r.mpFlags)

/-- The branch of `sig_proc` for a caught signal. -/
def sigCaught (rmp : Slot) (signo : ℤ) (ksig : Bool) : Program Unit := do
  let unpaused ← sigUnpause rmp
  -- not yet unpaused: continue when VFS has answered
  if !unpaused then addPending rmp signo ksig
  else do
    let sent ← sigSend rmp signo
    when (!sent) (sigProcExit exitProc rmp signo)

/-- `badignore`: the signal cannot be safely ignored. -/
def badIgnore (r : Mproc) (signo : ℤ) (ksig : Bool) : Bool :=
  ksig ∧ signo ∈ noignSset ∧ (signo ∈ r.mpIgnore ∨ signo ∈ r.mpSigmask)

/-- The branch of `sig_proc` for user processes. -/
def sigUser (rmp : Slot) (signo : ℤ) (ksig : Bool) : Program Unit := do
  let r ← proc rmp
  -- ignored, blocked, stopped for a debugger, caught, ignored by default
  if !badIgnore r signo ksig ∧ signo ∈ r.mpIgnore then pure ()
  else if !badIgnore r signo ksig ∧ signo ∈ r.mpSigmask then addPending rmp signo ksig
  else if .STOPPED ∈ r.mpFlags ∧ signo ≠ SIGKILL then addPending rmp signo ksig
  else if !badIgnore r signo ksig ∧ signo ∈ r.mpCatch then sigCaught exitProc rmp signo ksig
  else if !badIgnore r signo ksig ∧ signo ∈ ignSset then pure ()
  else sigProcExit exitProc rmp signo

/-- `sig_proc` -/
def sigProc (rmp : Slot) (signo : ℤ) (trace ksig : Bool) : Program Unit := do
  let r ← proc rmp
  -- the panic that a signal to an exiting process leads to
  if ¬r.Live then panic ""
  else if trace ∧ r.mpTracer ≠ NO_TRACER ∧ signo ≠ SIGKILL then do
    -- the debugger gets the signal before any mask is looked at
    modifyProc rmp fun r => { r with mpSigtrace := insert signo r.mpSigtrace }
    when (.STOPPED ∉ r.mpFlags) (elsewhere (.stop_proc rmp signo))
  else if .VFS_CALL ∈ r.mpFlags then sigDeferred rmp signo ksig
  else if .PRIV_PROC ∈ r.mpFlags then sigSystem exitProc rmp signo ksig
  else sigUser exitProc rmp signo ksig

/-- The tests of `check_sig` that pass over a process without a word. -/
def NotSelected (caller r : Mproc) (procId signo : ℤ) : Prop :=
  .IN_USE ∉ r.mpFlags ∨
  0 < procId ∧ procId ≠ r.mpPid ∨
  procId = 0 ∧ caller.mpProcgrp ≠ r.mpProcgrp ∨
  procId = -1 ∧ r.mpPid ≤ INIT_PID ∨
  procId < -1 ∧ r.mpProcgrp ≠ -procId ∨
  procId = -1 ∧ signo = SIGKILL ∧ .PRIV_PROC ∈ r.mpFlags ∨
  r.mpEndpoint = VM_PROC_NR

instance (caller r : Mproc) (procId signo : ℤ) : Decidable (NotSelected caller r procId signo) :=
  inferInstanceAs (Decidable (_ ∨ _))

/-- The tests of `check_sig` that answer `EPERM`; `SUPER_USER` is 0. -/
def NotPermitted (caller r : Mproc) (signo : ℤ) (ksig : Bool) : Prop :=
  !ksig ∧ SIGS_IS_LETHAL signo ∧ .PRIV_PROC ∈ r.mpFlags ∨
  caller.mpEffuid ≠ 0 ∧ caller.mpRealuid ≠ r.mpRealuid ∧ caller.mpEffuid ≠ r.mpRealuid ∧
    caller.mpRealuid ≠ r.mpEffuid ∧ caller.mpEffuid ≠ r.mpEffuid

instance (caller r : Mproc) (signo : ℤ) (ksig : Bool) :
    Decidable (NotPermitted caller r signo ksig) :=
  inferInstanceAs (Decidable (_ ∨ _))

/-- The loop of `check_sig` from a slot on: `count` and `error_code` at its end. -/
def checkSigLoop (procId signo : ℤ) (ksig : Bool) : List Slot → ℕ → ℤ → Program (ℕ × ℤ)
  | [], count, errorCode => pure (count, errorCode)
  | rmp :: rest, count, errorCode => do
    let caller ← proc (← mp)
    let r ← proc rmp
    -- `mp` is read anew: a signal may have changed the entry of the caller
    if NotSelected caller r procId signo then
      checkSigLoop procId signo ksig rest count errorCode
    else if NotPermitted caller r signo ksig then
      checkSigLoop procId signo ksig rest count EPERM
    else if signo = 0 ∨ .EXITING ∈ r.mpFlags then
      checkSigLoop procId signo ksig rest (count + 1) errorCode
    else do
      sigProc exitProc rmp signo true ksig
      -- only one process being signaled
      if 0 < procId then pure (count + 1, errorCode)
      else checkSigLoop procId signo ksig rest (count + 1) errorCode

/-- `check_sig` -/
def checkSig (procId signo : ℤ) (ksig : Bool) : Program ℤ :=
  if signo < 0 ∨ NSIG ≤ signo then pure EINVAL
  else if procId = INIT_PID ∧ signo = SIGKILL then pure EINVAL
  else do
    -- RS first when broadcasting `SIGTERM`
    when (procId = -1 ∧ signo = SIGTERM) do
      let _ ← ask (.sys_kill RS_PROC_NR.val signo)
      pure ()
    -- from the end of the table: core system processes come last
    let found ← checkSigLoop exitProc procId signo ksig (List.finRange NR_PROCS).reverse 0 ESRCH
    let caller ← proc (← mp)
    -- the caller has killed itself, and gets no reply
    if ¬caller.Live then pure SUSPEND
    else pure (if 0 < found.1 then OK else found.2)

/-- The loop of `check_pending` from a signal on. -/
def checkPendingLoop (rmp : Slot) : List ℤ → Program Unit
  | [] => pure ()
  | i :: rest => do
    let r ← proc rmp
    if i ∈ r.mpSigpending ∧ i ∉ r.mpSigmask then do
      delPending rmp i
      sigProc exitProc rmp i false (i ∈ r.mpKsigpending)
      let r ← proc rmp
      -- the signal was caught or has ended the process: the rest has to wait for VFS
      if .VFS_CALL ∈ r.mpFlags then pure () else checkPendingLoop rmp rest
    else checkPendingLoop rmp rest

/-- `check_pending` -/
def checkPending (rmp : Slot) : Program Unit := checkPendingLoop exitProc rmp signals

/-- `restart_sigs` -/
def restartSigs (rmp : Slot) : Program Unit := do
  let r ← proc rmp
  if r.any {.VFS_CALL, .EXITING} then pure ()
  -- the tracer has requested the exit, with this exit value
  else if .TRACE_EXIT ∈ r.mpFlags then exitProc rmp r.mpExitstatus.toInt false
  else when (.PM_SIG_PENDING ∈ r.mpFlags) do
    -- `PM_SIG_PENDING` stays set while VFS is asked again
    checkPending exitProc rmp
    let r ← proc rmp
    when (.VFS_CALL ∉ r.mpFlags) do
      lower rmp {.PM_SIG_PENDING, .UNPAUSED}
      require (.sys_resume r.mpEndpoint) "sys_resume failed: %d"

/-! ## §4 The calls -/

/-- What `do_sigaction` assigns, for the `struct sigaction` it has read. -/
def installAction (sigNr : ℤ) (svec : Sigaction) (sigRet : ℤ) (r : Mproc) : Mproc :=
  let ignored := svec.saHandler = .SIG_IGN
  let caught := svec.saHandler ≠ .SIG_IGN ∧ svec.saHandler ≠ .SIG_DFL
  { r with
    mpIgnore := if ignored then insert sigNr r.mpIgnore else r.mpIgnore.erase sigNr
    mpSigpending := if ignored then r.mpSigpending.erase sigNr else r.mpSigpending
    mpKsigpending := if ignored then r.mpKsigpending.erase sigNr else r.mpKsigpending
    mpCatch := if caught then insert sigNr r.mpCatch else r.mpCatch.erase sigNr
    mpSigact := Function.update r.mpSigact sigNr
      { svec with saMask := (svec.saMask.erase SIGKILL).erase SIGSTOP }
    mpSigreturn := sigRet }

/-- The old action is copied to the caller if it wants it. -/
def copyOldAction (osa : Bool) (r : Mproc) : Program ℤ :=
  if osa then ask (.sys_datacopy Minix.PM_PROC_NR r.mpEndpoint) else pure OK

/-- `do_sigaction`: `osa` tells whether the old action is wanted, `nsa` holds the new one. -/
def doSigaction (sigNr : ℤ) (osa : Bool) (nsa : Option Sigaction) (sigRet : ℤ) : Program ℤ :=
  if sigNr = SIGKILL then pure OK
  else if sigNr < 1 ∨ NSIG ≤ sigNr then pure EINVAL
  else do
    let who ← mp
    let r ← proc who
    let a ← copyOldAction osa r
    if a ≠ OK then pure a
    else match nsa with
      | none => pure OK
      | some svec => do
        let a ← ask (.sys_datacopy r.mpEndpoint Minix.PM_PROC_NR)
        if a ≠ OK then pure a
        else do
          modifyProc who (installAction sigNr svec sigRet)
          pure OK

/-- `do_sigpending` -/
def doSigpending : Program ℤ := do
  modifyProc (← mp) fun r => { r with mpReply := { r.mpReply with replyMask := r.mpSigpending } }
  pure OK

/-- `sig_how` of `do_sigprocmask`; any other number is refused. -/
inductive SigHow where
  | SIG_BLOCK
  | SIG_UNBLOCK
  | SIG_SETMASK
  | SIG_INQUIRE
  | other

/-- `KILL` and `STOP` can't be masked. -/
def maskable (set : Finset ℤ) : Finset ℤ := (set.erase SIGKILL).erase SIGSTOP

/-- `do_sigprocmask` -/
def doSigprocmask (how : SigHow) (set : Finset ℤ) : Program ℤ := do
  let who ← mp
  modifyProc who fun r => { r with mpReply := { r.mpReply with replyMask := r.mpSigmask } }
  match how with
  | .SIG_BLOCK => do
    modifyProc who fun r =>
      { r with mpSigmask := r.mpSigmask ∪ (maskable set).filter (· ∈ signals) }
    pure OK
  | .SIG_UNBLOCK => do
    modifyProc who fun r => { r with mpSigmask := r.mpSigmask \ set.filter (· ∈ signals) }
    checkPending exitProc who
    pure OK
  | .SIG_SETMASK => do
    modifyProc who fun r => { r with mpSigmask := maskable set }
    checkPending exitProc who
    pure OK
  | .SIG_INQUIRE => pure OK
  | .other => pure EINVAL

/-- `do_sigsuspend` -/
def doSigsuspend (set : Finset ℤ) : Program ℤ := do
  let who ← mp
  modifyProc who fun r => { r with mpSigmask2 := r.mpSigmask, mpSigmask := maskable set }
  raise who .SIGSUSPENDED
  checkPending exitProc who
  pure SUSPEND

/-- `do_sigreturn` -/
def doSigreturn (set : Finset ℤ) : Program ℤ := do
  let who ← mp
  modifyProc who fun r => { r with mpSigmask := maskable set }
  let r ← proc who
  let a ← ask (.sys_sigreturn r.mpEndpoint)
  checkPending exitProc who
  pure a

/-- `do_kill` -/
def doKill (pid sigNr : ℤ) : Program ℤ := checkSig exitProc pid sigNr false

/-- `do_srv_kill` -/
def doSrvKill (pid sigNr : ℤ) : Program ℤ := do
  let r ← proc (← mp)
  if r.mpEndpoint ≠ RS_PROC_NR.val then pure EPERM
  else checkSig exitProc pid sigNr true

/-- `do_pause` -/
def doPause : Program ℤ := do
  raise (← mp) .PAUSED
  pure SUSPEND

/-- The `switch` of `process_ksig`: the `proc_id` for `check_sig`. -/
def ksigTarget (rmp : Slot) (procId signo : ℤ) : Program ℤ :=
  if signo = SIGINT ∨ signo = SIGQUIT ∨ signo = SIGWINCH then pure 0
  else do
    when (signo = SIGVTALRM ∨ signo = SIGPROF) (elsewhere (.check_vtimer rmp signo))
    pure procId

/-- The end of `process_ksig`: is the process still alive? -/
def ksigResult (rmp : Slot) : Program ℤ := do
  let r ← proc rmp
  pure (if r.Live then OK else EDEADEPT)

/-- The branch of `process_ksig` for the end of a delayed call. -/
def ksigDelayed (rmp : Slot) : Program ℤ := do
  lower rmp {.DELAY_CALL}
  let r ← proc rmp
  -- the pending signals are looked at when VFS answers
  if .VFS_CALL ∈ r.mpFlags then pure OK
  else do
    when (.PM_SIG_PENDING ∈ r.mpFlags) (panic "process_ksig: bad process state")
    checkPending exitProc rmp
    let r ← proc rmp
    when (.DELAY_CALL ∈ r.mpFlags) (panic "process_ksig: multiple delay calls?")
    ksigResult rmp

/-- `process_ksig` -/
def processKsig (procNrE signo : ℤ) : Program ℤ := do
  let found ← pmIsokendpt procNrE
  match found with
  | .ok (some rmp) => do
    let r ← proc rmp
    if ¬r.Live then pure EDEADEPT
    else do
      -- pretend signals are from PM, and get the process group right
      setMp pmSlot
      modifyProc pmSlot fun pm => { pm with mpProcgrp := r.mpProcgrp }
      let id ← ksigTarget rmp r.mpPid signo
      let _ ← checkSig exitProc id signo true
      let r ← proc rmp
      if signo = SIGSNDELAY ∧ .DELAY_CALL ∈ r.mpFlags then ksigDelayed exitProc rmp
      else ksigResult rmp
  | _ => pure EDEADEPT

end Sending

end MinixCv.Pm

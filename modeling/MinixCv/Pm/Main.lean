import MinixCv.Pm.ForkExit

/-!
# The Main Loop Of PM

`main.c`: the start, the replies of VFS, and the main loop, one message at a time.

The handlers of the other files (`exec.c`, `trace.c`, `alarm.c` and so on) are lists of
`Act`s: they assign to fields that are not vital, and they end or signal processes by
`exit_proc`, `sig_proc`, `check_sig` and `check_pending`.  `Honest` is what PM relies on of
the others: VFS answers only what it has been asked, and the kernel's tasks do not call.
-/

namespace MinixCv.Pm

open MinixCv.Lib MinixCv.Server PmHeader

variable [PmHeader]

/-! ## §1 Start -/

/-- An entry of the boot image with a slot of its own. -/
structure BootProc where
  procNr : Slot
  procName : String
  endpoint : ℤ

/-- The two cases of `sef_cb_init_fresh`: INIT, and the system processes. -/
def bootKind (procNr : Slot) : Program Unit :=
  if procNr = INIT_PROC_NR then
    modifyProc procNr fun r =>
      { r with
        mpParent := INIT_PROC_NR
        mpProcgrp := INIT_PID
        mpPid := INIT_PID
        mpFlags := insert .IN_USE r.mpFlags
        mpScheduler := KERNEL }
  else do
    modifyProc procNr fun r =>
      { r with mpParent := if procNr = RS_PROC_NR then INIT_PROC_NR else RS_PROC_NR }
    let pid ← getFreePid
    modifyProc procNr fun r =>
      { r with mpPid := pid, mpFlags := r.mpFlags ∪ {.IN_USE, .PRIV_PROC}, mpScheduler := NONE }

/-- The body of the loop of `sef_cb_init_fresh` over the boot image. -/
def bootProc (ip : BootProc) : Program Unit := do
  countProcs 1
  modifyProc ip.procNr fun r =>
    { r with mpName := ip.procName, mpIgnore := ∅, mpSigmask := ∅, mpCatch := ∅ }
  bootKind ip.procNr
  modifyProc ip.procNr fun r => { r with mpEndpoint := ip.endpoint }
  require (.send VFS_PROC_NR) "can't sync up with VFS: %d"

/-- `sef_cb_init_fresh` -/
def sefCbInitFresh (image : List BootProc) : Program Unit := image.forM bootProc

/-- Before the start: `mproc` is zero, and nothing has happened. -/
structure Zeroed (s : PmState) : Prop where
  mpFlags : ∀ p, (s.mproc p).mpFlags = ∅
  vfs : ∀ p, s.vfs p = none
  log : s.log = []

/-- The globals before the start, where the kernel and the other files answer like this. -/
def PmState.zero (answers : ℕ → KernelCall → ℤ)
    (outside : ℕ → OtherFunction → (Slot → Mproc) → Slot → Mproc) : PmState where
  mproc _ := Mproc.zero
  mp := pmSlot
  procsInUse := 0
  nextChild := 0
  nextSrvChild := 0
  nextPid := INIT_PID + 1
  answers := answers
  outside := outside
  asked := 0
  vfs _ := none
  log := []

/-- PM has started from a boot image whose endpoints belong to their slots. -/
def Booted (s : PmState) : Prop :=
  ∃ (image : List BootProc) (s₀ : PmState), Zeroed s₀ ∧
    (∀ ip ∈ image, ENDPOINT_P ip.endpoint = ip.procNr.val) ∧
    sefCbInitFresh image s₀ = .ok ((), s)

/-! ## §2 Handlers of other files -/

/-- The request makes VFS forget the process. -/
def Message.Ends (m : Message) : Prop :=
  m.mType = .PM_EXIT ∨ m.mType = .PM_DUMPCORE ∧ m.PM_PROC = m.PM_TRACED_PROC

instance (m : Message) : Decidable m.Ends := inferInstanceAs (Decidable (_ ∨ _))

inductive Act where
  | assign
  | exitProc (rmp : Slot) (exitStatus : ℤ) (dumpCore : Bool)
  | sigProc (rmp : Slot) (signo : ℤ) (trace ksig : Bool)
  | checkSig (procId signo : ℤ) (ksig : Bool)
  | checkPending (rmp : Slot)
  | tellVfs (rmp : Slot) (m : Message)

/-- A dead process is not ended again, and VFS is asked to end one by `exit_proc` alone. -/
def Act.run : Act → Program Unit
  | .assign => elsewhere .handler
  | .exitProc rmp exitStatus dumpCore => do
    let r ← proc rmp
    when r.Live (Pm.exitProc rmp exitStatus dumpCore)
  | .sigProc rmp signo trace ksig => Pm.sigProc Pm.exitProc rmp signo trace ksig
  | .checkSig procId signo ksig => do
    let _ ← Pm.checkSig Pm.exitProc procId signo ksig
    pure ()
  | .checkPending rmp => Pm.checkPending Pm.exitProc rmp
  | .tellVfs rmp m => do
    let r ← proc rmp
    when (r.Live ∧ ¬m.Ends ∧ m.PM_PROC = r.mpEndpoint) (Pm.tellVfs rmp m)

/-! ## §3 Replies of VFS -/

/-- A message from VFS. -/
structure VfsReply where
  callNr : ReplyType
  PM_PROC : ℤ
  PM_TRACED_PROC : ℤ
  PM_STATUS : ℤ

/-- `mp_flags &= ~VFS_CALL`; the request is answered. -/
def takeReply (rmp : Slot) : Program Unit := do
  lower rmp {.VFS_CALL}
  setVfs rmp none

/-- A new process is handed to its scheduler, if PM is to do that. -/
def startScheduling (rmp : Slot) : Program ℤ := do
  let r ← proc rmp
  if r.mpScheduler ≠ KERNEL ∧ r.mpScheduler ≠ NONE then do
    let a ← ask (.sched_start_user r.mpScheduler r.mpEndpoint)
    elsewhere (.sched_start_user rmp)
    pure a
  else pure OK

/-- The case `PM_FORK_REPLY`. -/
def forkReply (rmp : Slot) : Program Unit := do
  let a ← startScheduling rmp
  if a ≠ OK then do
    -- tear down the new process, and wake the parent with a failed fork
    modifyProc rmp fun r => { r with mpScheduler := NONE }
    exitProc rmp (-1) false
    let r ← proc rmp
    setreply r.mpParent (-1)
  else do
    setreply rmp OK
    let r ← proc rmp
    setreply r.mpParent r.mpPid

/-- The case `PM_CORE_REPLY`. -/
def coreReply (rmp : Slot) (reply : VfsReply) : Program Unit := do
  when (reply.PM_STATUS = OK)
    (modifyProc rmp fun r => { r with mpSigstatus := r.mpSigstatus ||| 0o200 })
  -- otherwise it is the core dump of a traced process, which lives on
  if reply.PM_PROC = reply.PM_TRACED_PROC then exitRestart exitProc rmp true
  else do
    let r ← proc rmp
    setreply rmp r.mpProcgrp

/-- The `switch` of `handle_vfs_reply`; `execRestart` is what `exec_restart` does. -/
def replySwitch (rmp : Slot) (reply : VfsReply) (execRestart : List Act) : Program Unit :=
  match reply.callNr with
  | .PM_SETUID_REPLY | .PM_SETGID_REPLY | .PM_SETGROUPS_REPLY => setreply rmp OK
  | .PM_SETSID_REPLY => do
    let r ← proc rmp
    setreply rmp r.mpProcgrp
  | .PM_EXEC_REPLY => execRestart.forM Act.run
  | .PM_EXIT_REPLY => exitRestart exitProc rmp false
  | .PM_CORE_REPLY => coreReply rmp reply
  | .PM_FORK_REPLY => forkReply rmp
  | .PM_SRV_FORK_REPLY => pure ()
  | .PM_UNPAUSE_REPLY => raise rmp .UNPAUSED
  | .PM_REBOOT_REPLY => panic "handle_vfs_reply: unknown reply code: %d"

/-- `handle_vfs_reply` -/
def handleVfsReply (reply : VfsReply) (execRestart : List Act) : Program Unit :=
  if reply.callNr = .PM_REBOOT_REPLY then do
    let _ ← ask .sys_abort
    pure ()
  else do
    let found ← pmIsokendpt reply.PM_PROC
    match found with
    | .ok (some rmp) => do
      let r ← proc rmp
      when (.VFS_CALL ∉ r.mpFlags) (panic "handle_vfs_reply: reply without request: %d")
      takeReply rmp
      -- `r` is the entry before the reply was taken; `UNPAUSED` has not changed
      when (.UNPAUSED ∈ r.mpFlags) (panic "handle_vfs_reply: UNPAUSED set on entry: %d")
      replySwitch rmp reply execRestart
      -- the process is idle again: look at its pending signals
      let r ← proc rmp
      when r.Live (restartSigs exitProc rmp)
    | _ => panic "handle_vfs_reply: got bad endpoint from VFS: %d"

/-! ## §4 One round of the main loop -/

/-- What a process asks of PM, with the contents of `m_in`. -/
inductive Call where
  | fork
  | srvFork (uid gid : ℤ)
  | exit (status : ℤ)
  | waitpid (pid : ℤ) (wnohang : Bool)
  | kill (pid sigNr : ℤ)
  | srvKill (pid sigNr : ℤ)
  | pause
  | sigaction (sigNr : ℤ) (osa : Bool) (nsa : Option Sigaction) (sigRet : ℤ)
  | sigpending
  | sigprocmask (how : SigHow) (set : Finset ℤ)
  | sigsuspend (set : Finset ℤ)
  | sigreturn (set : Finset ℤ)
  | vfsReply (reply : VfsReply) (execRestart : List Act)
  | other (acts : List Act) (result : ℤ)

/-- The `switch` of `main` and the table `call_vec`. -/
def Call.run : Call → Program ℤ
  | .fork => doFork exitProc
  | .srvFork uid gid => doSrvFork exitProc uid gid
  | .exit status => doExit exitProc status
  | .waitpid pid wnohang => doWaitpid exitProc pid wnohang
  | .kill pid sigNr => doKill exitProc pid sigNr
  | .srvKill pid sigNr => doSrvKill exitProc pid sigNr
  | .pause => doPause
  | .sigaction sigNr osa nsa sigRet => doSigaction sigNr osa nsa sigRet
  | .sigpending => doSigpending
  | .sigprocmask how set => doSigprocmask exitProc how set
  | .sigsuspend set => doSigsuspend exitProc set
  | .sigreturn set => doSigreturn exitProc set
  | .vfsReply reply execRestart => do
    let r ← proc (← mp)
    if r.mpEndpoint = VFS_PROC_NR then do
      handleVfsReply reply execRestart
      pure SUSPEND
    else pure ENOSYS
  | .other acts result => do
    acts.forM Act.run
    pure result

/-- The body of the loop of `sendreply`. -/
def sendreplyTo (procNr : Slot) : Program Unit := do
  let r ← proc procNr
  when (.REPLY ∈ r.mpFlags ∧ r.Live) do
    let _ ← ask (.sendnb r.mpEndpoint)
    lower procNr {.REPLY}

/-- `sendreply` -/
def sendreply : Program Unit := (List.finRange NR_PROCS).forM sendreplyTo

/-- What PM receives. -/
inductive Input where
  /-- a request from the process or task with this endpoint -/
  | call (source : ℤ) (c : Call)
  /-- a notification; the acts are those of `expire_timers` -/
  | notify (source : ℤ) (acts : List Act)
  /-- a signal from the kernel, for the signal manager -/
  | ksig (target signo : ℤ)
  /-- the call by which `exec` sets the name of a process -/
  | rename (rmp : Slot) (name : String)

/-- The beginning of the main loop: the caller, and whether its call is dropped. -/
def receive (source : ℤ) : Program (Option Slot × Bool) := do
  let found ← pmIsokendpt source
  match found with
  | .error _ => panic "PM got message from invalid endpoint: %d"
  | .ok who => do
    -- PM's own slot is misused if the kernel is calling
    setMp (who.getD pmSlot)
    let r ← proc (who.getD pmSlot)
    pure (who, .EXITING ∈ r.mpFlags)

/-- `if (result != SUSPEND) setreply(who_p, result);` -/
def replyTo (who : Option Slot) (result : ℤ) : Program Unit :=
  when (result ≠ SUSPEND) <|
    match who with
    | some p => setreply p result
    | none => panic "setreply arg out of range: %d"

/-- One round of `main`, or one call of `sef_cb_signal_manager`. -/
def Input.run : Input → Program Unit
  | .call source c => do
    let caller ← receive source
    -- delayed calls from exiting processes are dropped
    when (!caller.2) do
      let result ← c.run
      replyTo caller.1 result
      sendreply
  | .notify source acts => do
    let caller ← receive source
    when (!caller.2) do
      acts.forM Act.run
      sendreply
  | .ksig target signo => do
    let _ ← processKsig exitProc target signo
    sendreply
  | .rename rmp name => modifyProc rmp fun r => { r with mpName := name }

/-- The reply of VFS to a request. -/
def MType.reply : MType → Option ReplyType
  | .PM_SETUID => some .PM_SETUID_REPLY
  | .PM_SETGID => some .PM_SETGID_REPLY
  | .PM_SETSID => some .PM_SETSID_REPLY
  | .PM_SETGROUPS => some .PM_SETGROUPS_REPLY
  | .PM_EXEC => some .PM_EXEC_REPLY
  | .PM_EXIT => some .PM_EXIT_REPLY
  | .PM_DUMPCORE => some .PM_CORE_REPLY
  | .PM_FORK => some .PM_FORK_REPLY
  | .PM_SRV_FORK => some .PM_SRV_FORK_REPLY
  | .PM_UNPAUSE => some .PM_UNPAUSE_REPLY
  | .signal _ => none

/-- `reply` answers `m`. -/
def VfsReply.Answers (reply : VfsReply) (m : Message) : Prop :=
  m.mType.reply = some reply.callNr ∧ reply.PM_PROC = m.PM_PROC ∧
    reply.PM_TRACED_PROC = m.PM_TRACED_PROC

instance (reply : VfsReply) (m : Message) : Decidable (reply.Answers m) :=
  inferInstanceAs (Decidable (_ ∧ _))

/-- VFS answers the requests it has got; a reboot concerns no process. -/
def Call.Honest (s : PmState) (source : ℤ) : Call → Prop
  | .vfsReply reply _ => source = VFS_PROC_NR →
      reply.callNr = .PM_REBOOT_REPLY ∨ ∃ rmp m, s.vfs rmp = some m ∧ reply.Answers m
  | _ => True

/-- The kernel's tasks notify PM and do not call it. -/
def Input.Honest (s : PmState) : Input → Prop
  | .call source c => 0 ≤ ENDPOINT_P source ∧ c.Honest s source
  | _ => True

/-- PM receives something and handles it without a panic. -/
def Step (s : PmState) (i : Input) (s' : PmState) : Prop :=
  i.Honest s ∧ i.run s = .ok ((), s')

end MinixCv.Pm

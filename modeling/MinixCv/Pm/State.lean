import MinixCv.Lib.Program
import MinixCv.Server.State
import Mathlib.Algebra.GroupWithZero.Nat
import Mathlib.Data.Fintype.Basic
import Mathlib.Data.Finset.Basic

/-!
# State Of The Process Manager

The process table of PM and the globals its functions share, for the files under
`servers/pm`.  `mproc.h` and `const.h`, the kernel, VM, VFS and the scheduler are not part
of the repository: `PmHeader` names the constants, and the answers of the others are read
from `answers`, one after another, whatever they are.  So are the effects of the functions
of PM that live in other files, of which it is known only which fields they leave alone.

A function of PM is a `StateT` program.  It stops with `Stop.panic` where the source
panics and with `Stop.hang` where a loop of the source does not end.  `Stop.fuel` belongs to
the model alone: the mutual recursion through `exit_proc` is unfolded up to a depth.

Two fields record what has happened and are read by no function: `vfs` holds the request
that VFS has not answered yet, `log` the births, the notices to `cv` and the releases.
-/

namespace MinixCv

/-- What PM takes from headers outside the repository. -/
class PmHeader extends Minix where
  NR_PROCS : ℕ
  NR_TASKS : ℕ
  /-- the slots of INIT and RS, which are also their endpoints -/
  INIT_PROC_NR : Fin NR_PROCS
  RS_PROC_NR : Fin NR_PROCS
  NO_TRACER : Fin NR_PROCS
  NR_PIDS : ℕ
  NSIG : ℕ
  /-- `_ENDPOINT(generation, slot)` and `_ENDPOINT_P` -/
  ENDPOINT : ℤ → Fin NR_PROCS → ℤ
  ENDPOINT_P : ℤ → ℤ
  VFS_PROC_NR : ℤ
  VM_PROC_NR : ℤ
  SCHED_PROC_NR : ℤ
  KERNEL : ℤ
  NONE : ℤ
  SUSPEND : ℤ
  EAGAIN : ℤ
  ECHILD : ℤ
  ESRCH : ℤ
  EDEADEPT : ℤ
  ENOSYS : ℤ
  EBUSY : ℤ
  EFAULT : ℤ
  ENOMEM : ℤ
  SIGHUP : ℤ
  SIGINT : ℤ
  SIGQUIT : ℤ
  SIGILL : ℤ
  SIGTRAP : ℤ
  SIGABRT : ℤ
  SIGEMT : ℤ
  SIGFPE : ℤ
  SIGKILL : ℤ
  SIGBUS : ℤ
  SIGSEGV : ℤ
  SIGTERM : ℤ
  SIGCHLD : ℤ
  SIGSTOP : ℤ
  SIGCONT : ℤ
  SIGWINCH : ℤ
  SIGVTALRM : ℤ
  SIGPROF : ℤ
  SIGSNDELAY : ℤ
  SIGS_IS_LETHAL : ℤ → Bool
  SIGS_IS_TERMINATION : ℤ → Bool
  SIGS_IS_STACKTRACE : ℤ → Bool
  ENDPOINT_P_ENDPOINT : ∀ g p, ENDPOINT_P (ENDPOINT g p) = (p : ℕ)

/-- A table of sixteen slots.  The endpoints and the arithmetic on them are those of
    MINIX 3.2.1, of the other numbers it matters only that they differ. -/
@[reducible] def PmHeader.sixteen : PmHeader where
  toMinix := Minix.v321
  NR_PROCS := 16
  NR_TASKS := 5
  INIT_PROC_NR := 10
  RS_PROC_NR := 2
  NO_TRACER := 0
  NR_PIDS := 30000
  NSIG := 32
  ENDPOINT g p := g * 32768 + (p.val : ℤ)
  ENDPOINT_P e := (e + 1023) % 32768 - 1023
  VFS_PROC_NR := 1
  VM_PROC_NR := 8
  SCHED_PROC_NR := 4
  KERNEL := -1
  NONE := 31743
  SUSPEND := -998
  EAGAIN := -11
  ECHILD := -10
  ESRCH := -3
  EDEADEPT := -215
  ENOSYS := -78
  EBUSY := -16
  EFAULT := -14
  ENOMEM := -12
  SIGHUP := 1
  SIGINT := 2
  SIGQUIT := 3
  SIGILL := 4
  SIGTRAP := 5
  SIGABRT := 6
  SIGEMT := 7
  SIGFPE := 8
  SIGKILL := 9
  SIGBUS := 10
  SIGSEGV := 11
  SIGTERM := 15
  SIGSTOP := 17
  SIGCONT := 19
  SIGCHLD := 20
  SIGVTALRM := 26
  SIGPROF := 27
  SIGWINCH := 28
  SIGSNDELAY := 29
  SIGS_IS_LETHAL signo := signo ∈ [4, 6, 8, 9, 10, 11]
  SIGS_IS_TERMINATION signo := signo ∈ [4, 6, 8, 9, 10, 11, 15]
  SIGS_IS_STACKTRACE signo := signo ∈ [3, 4, 6, 8, 11]
  ENDPOINT_P_ENDPOINT := by
    intro g p
    have := p.isLt
    omega

/-- The slots of this table may be written as numerals. -/
instance : NeZero PmHeader.sixteen.NR_PROCS := ⟨by decide⟩

namespace Pm

open MinixCv.Lib PmHeader

/-! ## §1 The process table -/

/-- An index of `mproc`. -/
abbrev Slot [PmHeader] := Fin NR_PROCS

/-- The bits of `mp_flags`. -/
inductive Flag where
  | IN_USE
  | WAITING
  | ZOMBIE
  | PAUSED
  | ALARM_ON
  | EXITING
  | TOLD_PARENT
  | STOPPED
  | SIGSUSPENDED
  | REPLY
  | VFS_CALL
  | PM_SIG_PENDING
  | UNPAUSED
  | PRIV_PROC
  | PARTIAL_EXEC
  | TRACE_EXIT
  | TRACE_ZOMBIE
  | DELAY_CALL
  | TAINTED
  deriving DecidableEq, Repr

/-- The bits of `mp_trace_flags`. -/
inductive TraceFlag where
  | TO_TRACEFORK
  | TO_ALTEXEC
  | TO_NOEXEC
  deriving DecidableEq, Repr

inductive SaFlag where
  | SA_NODEFER
  | SA_RESETHAND
  deriving DecidableEq, Repr

inductive SaHandler where
  | SIG_DFL
  | SIG_IGN
  | address (a : ℤ)
  deriving DecidableEq, Repr

/-- `struct sigaction` -/
structure Sigaction where
  saHandler : SaHandler
  saMask : Finset ℤ
  saFlags : Finset SaFlag

/-- The fields of a reply message that PM fills in. -/
structure MpReply where
  replyRes : ℤ
  replyRes2 : ℤ
  replyTrace : ℤ
  replyMask : Finset ℤ

/-- `struct mproc`, as far as the functions below read it. -/
structure Mproc [PmHeader] where
  mpName : String
  mpFlags : Finset Flag
  mpEndpoint : ℤ
  mpPid : ℤ
  mpProcgrp : ℤ
  mpWpid : ℤ
  mpParent : Slot
  mpTracer : Slot
  mpTraceFlags : Finset TraceFlag
  mpExitstatus : BitVec 8
  mpSigstatus : BitVec 8
  mpChildUtime : ℤ
  mpChildStime : ℤ
  mpRealuid : ℤ
  mpEffuid : ℤ
  mpRealgid : ℤ
  mpEffgid : ℤ
  mpIgnore : Finset ℤ
  mpCatch : Finset ℤ
  mpSigmask : Finset ℤ
  mpSigmask2 : Finset ℤ
  mpSigpending : Finset ℤ
  mpKsigpending : Finset ℤ
  mpSigtrace : Finset ℤ
  mpSigact : ℤ → Sigaction
  mpSigreturn : ℤ
  mpInterval : List ℤ
  mpScheduler : ℤ
  -- the reply that `sendreply` sends
  mpReply : MpReply

/-- An entry of the table before the start. -/
def Mproc.zero [PmHeader] : Mproc where
  mpName := ""
  mpFlags := ∅
  mpEndpoint := 0
  mpPid := 0
  mpProcgrp := 0
  mpWpid := 0
  mpParent := ⟨0, (INIT_PROC_NR : Slot).pos⟩
  mpTracer := ⟨0, (INIT_PROC_NR : Slot).pos⟩
  mpTraceFlags := ∅
  mpExitstatus := 0
  mpSigstatus := 0
  mpChildUtime := 0
  mpChildStime := 0
  mpRealuid := 0
  mpEffuid := 0
  mpRealgid := 0
  mpEffgid := 0
  mpIgnore := ∅
  mpCatch := ∅
  mpSigmask := ∅
  mpSigmask2 := ∅
  mpSigpending := ∅
  mpKsigpending := ∅
  mpSigtrace := ∅
  mpSigact := fun _ => ⟨.SIG_DFL, ∅, ∅⟩
  mpSigreturn := 0
  mpInterval := [0, 0, 0]
  mpScheduler := 0
  mpReply := ⟨0, 0, 0, ∅⟩

/-- The flags that only the functions of this development set and clear. -/
def vitalFlags : Finset Flag :=
  {.IN_USE, .EXITING, .ZOMBIE, .TRACE_ZOMBIE, .TOLD_PARENT, .VFS_CALL}

/-- `r`, with the vital flags, the endpoint and the name of `old`. -/
def Mproc.keeping [PmHeader] (r old : Mproc) : Mproc :=
  { r with
    mpFlags := (r.mpFlags \ vitalFlags) ∪ (old.mpFlags ∩ vitalFlags)
    mpEndpoint := old.mpEndpoint
    mpName := old.mpName }

/-- `mp_flags & (…)` is not zero. -/
def Mproc.any [PmHeader] (r : Mproc) (fs : Finset Flag) : Prop := ∃ f ∈ fs, f ∈ r.mpFlags

instance [PmHeader] (r : Mproc) (fs : Finset Flag) : Decidable (r.any fs) :=
  inferInstanceAs (Decidable (∃ f ∈ fs, f ∈ r.mpFlags))

/-- `(mp_flags & (IN_USE | EXITING)) == IN_USE` -/
def Mproc.Live [PmHeader] (r : Mproc) : Prop := .IN_USE ∈ r.mpFlags ∧ .EXITING ∉ r.mpFlags

instance [PmHeader] (r : Mproc) : Decidable r.Live :=
  inferInstanceAs (Decidable (.IN_USE ∈ r.mpFlags ∧ .EXITING ∉ r.mpFlags))

/-! ## §2 Messages -/

/-- The types of the messages PM composes: the requests to VFS, and the number that
    `tell_cv` writes over one of them. -/
inductive MType where
  | PM_SETUID
  | PM_SETGID
  | PM_SETSID
  | PM_SETGROUPS
  | PM_EXEC
  | PM_EXIT
  | PM_DUMPCORE
  | PM_FORK
  | PM_SRV_FORK
  | PM_UNPAUSE
  | signal (number : ℤ)
  deriving DecidableEq, Repr

/-- A `message` as PM composes it; a field the code does not set holds anything, here 0. -/
structure Message where
  mType : MType
  PM_PROC : ℤ
  PM_PPROC : ℤ := 0
  PM_CPID : ℤ := 0
  PM_REUID : ℤ := 0
  PM_REGID : ℤ := 0
  PM_TRACED_PROC : ℤ := 0
  PM_TERM_SIG : BitVec 8 := 0
  PM_PATH : String := ""
  deriving DecidableEq, Repr

/-- `m_ptr->m_type = signal` -/
def Message.withSignal (m : Message) (signal : ℤ) : Message := { m with mType := .signal signal }

/-- The answers of VFS; `m_type` of a message from VFS. -/
inductive ReplyType where
  | PM_SETUID_REPLY
  | PM_SETGID_REPLY
  | PM_SETSID_REPLY
  | PM_SETGROUPS_REPLY
  | PM_EXEC_REPLY
  | PM_EXIT_REPLY
  | PM_CORE_REPLY
  | PM_FORK_REPLY
  | PM_SRV_FORK_REPLY
  | PM_UNPAUSE_REPLY
  | PM_REBOOT_REPLY
  deriving DecidableEq, Repr

/-- What PM asks of the kernel, VM and the schedulers.  The calls with one answer only; where
    a call fills in more, each value is asked for on its own. -/
inductive KernelCall where
  | asynsend3 (dest : ℤ)
  | sendnb (dest : ℤ)
  | send (dest : ℤ)
  | sys_stop (proc : ℤ)
  | sys_delay_stop (proc : ℤ)
  | sys_resume (proc : ℤ)
  | sys_clear (proc : ℤ)
  | sys_kill (proc signo : ℤ)
  | sys_abort
  | sys_times (proc : ℤ)
  | user_time (proc : ℤ)
  | sys_time (proc : ℤ)
  | sys_sigsend (proc signo : ℤ)
  | sys_sigreturn (proc : ℤ)
  | sys_datacopy (source dest : ℤ)
  | sys_sysctl_stacktrace (proc : ℤ)
  | vm_willexit (proc : ℤ)
  | vm_exit (proc : ℤ)
  | vm_notify_sig (proc ipc : ℤ)
  | vm_fork (proc : ℤ) (slot : ℕ)
  | vm_fork_generation (proc : ℤ) (slot : ℕ)
  | sched_stop (scheduler proc : ℤ)
  | sched_start_user (scheduler proc : ℤ)
  deriving DecidableEq, Repr

/-- The functions of PM in `alarm.c`, `exec.c`, `trace.c`, `schedule.c` and the other files
    that are not part of the repository. -/
inductive OtherFunction [PmHeader] where
  | set_alarm (rmp : Slot) (ticks : ℤ)
  | check_vtimer (procNr : Slot) (signo : ℤ)
  | stop_proc (rmp : Slot) (signo : ℤ)
  | sched_start_user (rmp : Slot)
  | handler

/-! ## §3 The state -/

/-- What an observer of PM sees. -/
inductive Event [PmHeader] where
  /-- a process has got this slot and this endpoint -/
  | born (slot : Slot) (endpoint : ℤ)
  /-- `tell_cv` has sent a message; `none` if it has found no process named `cv` -/
  | told (dest : Option ℤ) (m : Message)
  /-- `cleanup` has released the slot -/
  | released (slot : Slot) (endpoint : ℤ)
  deriving DecidableEq

/-- The globals of PM.  `mp` is the caller, `next_child` stands for the static variables of
    `do_fork` and `do_srv_fork`. -/
structure PmState [PmHeader] where
  mproc : Slot → Mproc
  mp : Slot
  procsInUse : ℤ
  nextChild : ℕ
  nextSrvChild : ℕ
  nextPid : ℤ
  answers : ℕ → KernelCall → ℤ
  outside : ℕ → OtherFunction → (Slot → Mproc) → Slot → Mproc
  asked : ℕ
  vfs : Slot → Option Message
  log : List Event

/-- Why a function of PM does not return. -/
inductive Stop where
  | panic (format : String)
  | hang
  | fuel
  deriving DecidableEq, Repr

/-- A function of PM. -/
abbrev Program [PmHeader] (α : Type) := StateT PmState (Except Stop) α

section Primitives

variable [PmHeader] {α : Type}

/-- `mproc[rmp]` -/
def proc (rmp : Slot) : Program Mproc := fun s => .ok (s.mproc rmp, s)

/-- The slot `mp` points to. -/
def mp : Program Slot := fun s => .ok (s.mp, s)

/-- `mproc[0]`, PM's own slot -/
def pmSlot : Slot := ⟨0, (INIT_PROC_NR : Slot).pos⟩

def setMp (slot : Slot) : Program Unit := fun s => .ok ((), { s with mp := slot })

/-- Assign to fields of `mproc[rmp]`. -/
def modifyProc (rmp : Slot) (f : Mproc → Mproc) : Program Unit := fun s =>
  .ok ((), { s with mproc := Function.update s.mproc rmp (f (s.mproc rmp)) })

/-- `rmp->mp_flags |= f` -/
def raise (rmp : Slot) (f : Flag) : Program Unit :=
  modifyProc rmp fun r => { r with mpFlags := insert f r.mpFlags }

/-- `rmp->mp_flags &= ~(…)` -/
def lower (rmp : Slot) (fs : Finset Flag) : Program Unit :=
  modifyProc rmp fun r => { r with mpFlags := r.mpFlags \ fs }

/-- The next answer from outside PM. -/
def ask (call : KernelCall) : Program ℤ := fun s =>
  .ok (s.answers s.asked call, { s with asked := s.asked + 1 })

/-- Call a function of another file: it may assign to any field but the vital ones. -/
def elsewhere (f : OtherFunction) : Program Unit := fun s =>
  .ok ((), { s with
    mproc := fun i => (s.outside s.asked f s.mproc i).keeping (s.mproc i)
    asked := s.asked + 1 })

def panic (format : String) : Program α := throw (.panic format)

/-- `if ((r = call) != OK) panic(format, r);` -/
def require (call : KernelCall) (format : String) : Program Unit := do
  let r ← ask call
  when (r ≠ Server.OK) (panic format)

/-- The first entry of the table, from slot 0 upwards, with `p`. -/
def scan (p : Mproc → Prop) [DecidablePred p] : Program (Option Slot) := fun s =>
  .ok ((List.finRange NR_PROCS).find? fun i => p (s.mproc i), s)

def record (e : Event) : Program Unit := fun s => .ok ((), { s with log := e :: s.log })

end Primitives

end Pm

end MinixCv

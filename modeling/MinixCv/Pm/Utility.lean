import MinixCv.Pm.State

/-!
# Utility Functions Of PM

`utility.c`, and `setreply` of `main.c` and `vm_notify_sig_wrapper` of `signal.c`, which the
other files call.
-/

namespace MinixCv.Pm

open MinixCv.Lib MinixCv.Server PmHeader

variable [PmHeader]

def INIT_PID : ℤ := 1

/-- `setreply`; the range check on `proc_nr` is in the type. -/
def setreply (procNr : Slot) (result : ℤ) : Program Unit := do
  modifyProc procNr fun r => { r with mpReply := { r.mpReply with replyRes := result } }
  raise procNr .REPLY

/-- The body of the loop of `get_free_pid`, at most `k` times.  The candidates come round
    after fewer than `NR_PIDS` rounds, and nothing else changes meanwhile. -/
def getFreePidLoop : ℕ → Program ℤ
  | 0 => throw .hang
  | k + 1 => fun s =>
    let next := if s.nextPid < NR_PIDS then s.nextPid + 1 else INIT_PID + 1
    let s := { s with nextPid := next }
    if ∃ i, (s.mproc i).mpPid = next ∨ (s.mproc i).mpProcgrp = next then getFreePidLoop k s
    else .ok (next, s)

def getFreePid : Program ℤ := getFreePidLoop (NR_PIDS + 1)

/-- `pm_isokendpt`: an error number, or `*proc`, where `none` is the number of a task. -/
def pmIsokendpt (endpoint : ℤ) : Program (Except ℤ (Option Slot)) := fun s =>
  let proc := ENDPOINT_P endpoint
  if proc < -NR_TASKS ∨ NR_PROCS ≤ proc then .ok (.error EINVAL, s)
  else if h : proc.toNat < NR_PROCS ∧ 0 ≤ proc then
    let r := s.mproc ⟨proc.toNat, h.1⟩
    if endpoint ≠ r.mpEndpoint then .ok (.error EDEADEPT, s)
    else if .IN_USE ∉ r.mpFlags then .ok (.error EDEADEPT, s)
    else .ok (.ok (some ⟨proc.toNat, h.1⟩), s)
  else .ok (.ok none, s)

/-- The request, if any, that VFS now owes an answer to. -/
def setVfs (rmp : Slot) (request : Option Message) : Program Unit := fun s =>
  .ok ((), { s with vfs := Function.update s.vfs rmp request })

/-- `tell_vfs` -/
def tellVfs (rmp : Slot) (m : Message) : Program Unit := do
  let r ← proc rmp
  when (.VFS_CALL ∈ r.mpFlags) (panic "tell_vfs: not idle: %d")
  require (.asynsend3 VFS_PROC_NR) "unable to send to VFS: %d"
  setVfs rmp (some m)
  raise rmp .VFS_CALL

/-- The test of the loop in `tell_cv`. -/
def IsCv (r : Mproc) : Prop := .IN_USE ∈ r.mpFlags ∧ r.mpName = "cv"

instance : DecidablePred IsCv := fun r =>
  inferInstanceAs (Decidable (.IN_USE ∈ r.mpFlags ∧ r.mpName = "cv"))

/-- `tell_cv`.  The source uses its argument `rmp` as the loop variable. -/
def tellCv (_rmp : Slot) (m : Message) (signal : ℤ) : Program Unit := do
  let found ← scan IsCv
  match found with
  | none => record (.told none (m.withSignal signal))
  | some rmp => do
    let r ← proc rmp
    -- unlike `tell_vfs`, no flag is set: nobody waits for an answer
    require (.asynsend3 r.mpEndpoint) "unable to send to CV: %d"
    record (.told (some r.mpEndpoint) (m.withSignal signal))

/-- `vm_notify_sig_wrapper` -/
def vmNotifySigWrapper (ep : ℤ) : Program Unit := do
  let found ← scan fun r => .IN_USE ∈ r.mpFlags ∧ r.mpName = "ipc"
  match found with
  | none => pure ()
  | some rmp => do
    let r ← proc rmp
    let _ ← ask (.vm_notify_sig ep r.mpEndpoint)
    pure ()

end MinixCv.Pm

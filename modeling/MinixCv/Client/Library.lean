import MinixCv.Server.State

/-!
# The Client Library

`cv.c` of the C library.  Every call sends a message and sleeps in `_syscall` until the
reply; an `EINTR` makes `cs_lock` send again and makes `cs_wait` go over to `cs_lock`.
A process inside the library is described by the place it last sent a message from
(`Site`), and `Site.resume` is the code from that place to the next send or to the return.

The server's endpoint, which `get_cv` looks up, is left out: there is one server.
-/

namespace MinixCv.Client

open MinixCv.Server

/-! ## §1 Calls and the messages they send -/

/-- A call of the library. -/
inductive Call where
  | csLock (mutexId : ℤ)
  | csUnlock (mutexId : ℤ)
  | csWait (cvId mutexId : ℤ)
  | csBroadcast (cvId : ℤ)
  deriving DecidableEq, Repr

/-- The places of the library that call `send_message`.  `relock` is the one in `cs_lock`
    when `cs_wait` has called it after an interruption. -/
inductive Site where
  | lock (mutexId : ℤ)
  | unlock (mutexId : ℤ)
  | wait (cvId mutexId : ℤ)
  | relock (cvId mutexId : ℤ)
  | broadcast (cvId : ℤ)
  deriving DecidableEq, Repr

/-- The call a process at this place is inside of. -/
def Site.call : Site → Call
  | .lock m => .csLock m
  | .unlock m => .csUnlock m
  | .wait c m | .relock c m => .csWait c m
  | .broadcast c => .csBroadcast c

/-- The place where a call sends its first message. -/
def Call.site : Call → Site
  | .csLock m => .lock m
  | .csUnlock m => .unlock m
  | .csWait c m => .wait c m
  | .csBroadcast c => .broadcast c

/-- The message built by `send_message` in process `p`; the kernel fills in the source. -/
def sendMessage (p typ mutexId cvId : ℤ) : Message := ⟨p, typ, mutexId, cvId⟩

/-- The arguments each place passes to `send_message`. -/
def Site.message (p : ℤ) : Site → Message
  | .lock m | .relock _ m => sendMessage p CS_LOCK m 0
  | .unlock m => sendMessage p CS_UNLOCK m 0
  | .wait c m => sendMessage p CS_WAIT m c
  | .broadcast c => sendMessage p CS_BROADCAST 0 c

/-! ## §2 From the reply to the next send or the return -/

/-- `_syscall` on the `m_type` of the reply: the value it returns and `errno` after it. -/
def syscall (reply errno : ℤ) : ℤ × ℤ :=
  if reply < 0 then (-1, -reply) else (reply, errno)

theorem syscall_neg {e : ℤ} (errno : ℤ) (he : 0 < e) : syscall (-e) errno = (-1, e) := by
  simp [syscall, he]

/-- What the library does next. -/
inductive Next where
  | sends (site : Site)
  | returns (result : ℤ)
  deriving DecidableEq, Repr

section Resume

variable [Minix]

/-- The loop of `cs_lock` with the result of its `send_message`: once more, or return. -/
def csLock (result errno : ℤ) : Option ℤ :=
  if -1 = result then
    if Minix.EINTR = errno then none else some (-1)
  else some result

/-- Continue behind the place of the last send, with what `send_message` returned there. -/
def Site.resume (result errno : ℤ) : Site → Next
  | .lock m =>
    match csLock result errno with
    | none => .sends (.lock m)
    | some r => .returns r
  | .unlock _ => .returns result
  | .wait c m =>
    -- interrupted on the condition: the mutex is asked for, the event is not waited for again
    if -1 = result then
      if Minix.EINTR = errno then .sends (.relock c m) else .returns (-1)
    else .returns result
  | .relock c m =>
    match csLock result errno with
    | none => .sends (.relock c m)
    | some r => .returns (if -1 = r then -1 else 0)
  | .broadcast _ => .returns result

end Resume

/-! ## §3 One client process -/

/-- Where a process stands: outside the library, or in `sendrec` with a message that the
    server has not received yet, or with one that it has received and not answered. -/
inductive Phase where
  | idle
  | posted (site : Site)
  | blocked (site : Site)
  deriving DecidableEq, Repr

/-- A call that has returned, with its result and `errno` at that moment. -/
structure Completed where
  call : Call
  result : ℤ
  errno : ℤ
  deriving DecidableEq, Repr

/-- A client process: where it stands, its `errno`, and its completed calls, last one first. -/
structure Process where
  phase : Phase
  errno : ℤ
  history : List Completed

namespace Process

/-- The process enters the library. -/
def enter (x : Process) (k : Call) : Process := { x with phase := .posted k.site }

/-- The server takes the posted message. -/
def received (x : Process) : Process :=
  match x.phase with
  | .posted site => { x with phase := .blocked site }
  | _ => x

/-- A reply ends `sendrec`, and the library goes on to its next send or to its return. -/
def reply [Minix] (x : Process) (typ : ℤ) : Process :=
  match x.phase with
  | .blocked site =>
    let (result, errno) := syscall typ x.errno
    match site.resume result errno with
    | .sends site' => { x with phase := .posted site', errno := errno }
    | .returns r =>
      { phase := .idle, errno := errno, history := ⟨site.call, r, errno⟩ :: x.history }
  | _ => x

end Process

/-! ## §4 The replies the server sends -/

/-- Where an interrupted request is sent from next. -/
def Site.retry : Site → Option Site
  | .lock m => some (.lock m)
  | .wait c m | .relock c m => some (.relock c m)
  | .unlock _ | .broadcast _ => none

namespace Process

variable {x : Process} {site : Site}

theorem received_of_posted (h : x.phase = .posted site) :
    x.received = { x with phase := .blocked site } := by
  simp [received, h]

theorem received_of_blocked (h : x.phase = .blocked site) : x.received = x := by
  simp [received, h]

variable [Minix]

/-- `0` ends the call, wherever its message was sent from. -/
theorem reply_zero (h : x.phase = .blocked site) :
    x.reply 0 = ⟨.idle, x.errno, ⟨site.call, 0, x.errno⟩ :: x.history⟩ := by
  cases site <;> simp [reply, h, syscall, Site.resume, csLock]

/-- The server's `EPERM` ends the call with `-1`. -/
theorem reply_EPERM (h : x.phase = .blocked site) :
    x.reply EPERM = ⟨.idle, Minix.EPERM, ⟨site.call, -1, Minix.EPERM⟩ :: x.history⟩ := by
  have hsys : syscall EPERM x.errno = (-1, Minix.EPERM) := syscall_neg _ Minix.EPERM_pos
  have hne : Minix.EINTR ≠ Minix.EPERM := Minix.EPERM_ne_EINTR.symm
  cases site <;> simp [reply, h, hsys, Site.resume, csLock, hne]

/-- The server's `-EINVAL` is positive: `_syscall` takes it for a result. -/
theorem reply_neg_EINVAL {c m : ℤ} (h : x.phase = .blocked (.wait c m)) :
    x.reply (-EINVAL) =
      ⟨.idle, x.errno, ⟨.csWait c m, Minix.EINVAL, x.errno⟩ :: x.history⟩ := by
  have hpos := Minix.EINVAL_pos
  have hnneg : ¬ Minix.EINVAL < 0 := by omega
  have hne : -1 ≠ Minix.EINVAL := by omega
  simp [reply, h, syscall, Site.resume, Site.call, EINVAL, hnneg, hne]

/-- After the server's `EINTR` the library asks for the mutex again. -/
theorem reply_EINTR {site' : Site} (h : x.phase = .blocked site) (hr : site.retry = some site') :
    x.reply EINTR = ⟨.posted site', Minix.EINTR, x.history⟩ := by
  have hsys : syscall EINTR x.errno = (-1, Minix.EINTR) := syscall_neg _ Minix.EINTR_pos
  cases site <;> simp only [Site.retry, Option.some.injEq, reduceCtorEq] at hr <;> subst hr <;>
    simp [reply, h, hsys, Site.resume, csLock]

end Process

/-! ## §5 What a process believes it holds -/

/-- The mutex a call is about. -/
def Call.mutex : Call → Option ℤ
  | .csLock m | .csUnlock m | .csWait _ m => some m
  | .csBroadcast _ => none

/-- The calls whose success leaves the process with the mutex. -/
def Call.takes : Call → Bool
  | .csLock _ | .csWait _ _ => true
  | .csUnlock _ | .csBroadcast _ => false

/-- A completed call on `m` that returned `0`. -/
def Completed.succeededOn (d : Completed) (m : ℤ) : Bool := d.call.mutex == some m && d.result == 0

/-- Of the completed calls `h`, last one first, the last one on `m` that returned `0` took it. -/
def Took (h : List Completed) (m : ℤ) : Prop :=
  ((h.find? (·.succeededOn m)).any (·.call.takes)) = true

theorem took_cons (d : Completed) (h : List Completed) (m : ℤ) :
    Took (d :: h) m ↔
      if d.call.mutex = some m ∧ d.result = 0 then d.call.takes = true else Took h m := by
  by_cases hd : d.call.mutex = some m ∧ d.result = 0
  · simp [Took, Completed.succeededOn, hd]
  · have hs : d.succeededOn m = false := by simpa [Completed.succeededOn] using hd
    rw [if_neg hd]
    simp [Took, hs]

namespace Process

/-- The process is inside a `cs_wait` with mutex `m`. -/
def InWait (x : Process) (m : ℤ) : Prop :=
  ∃ site c, (x.phase = .posted site ∨ x.phase = .blocked site) ∧ site.call = .csWait c m

/-- The process holds `m`, as far as the library has told it. -/
def Holds (x : Process) (m : ℤ) : Prop := ¬ x.InWait m ∧ Took x.history m

end Process

end MinixCv.Client

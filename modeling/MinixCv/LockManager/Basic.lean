import MinixCv.Lib.PartialMap
import MinixCv.Lib.Exclusive
import MinixCv.Server.State

/-!
# The Abstract Lock Manager

What the `cv` server is for, without its tables.  The state is

- a finite map from mutex numbers to an owner and a FIFO list of waiting processes
- a finite map from condition numbers to a FIFO list of waiting processes, each with
  the mutex it wants back

and the steps are the six requests (`lock`, `unlock`, `wait`, `broadcast`, `interrupt`,
`exit`) and the refusal of a malformed one.  `next` is the state after a request,
`Replies` says which messages are sent.  Only the replies of `exit` leave a choice: the
order in which the mutexes of the dead process are handed on.
-/

namespace MinixCv.LockManager

open MinixCv.Lib MinixCv.Server

/-- A request, read off a message. -/
inductive Request where
  | lock (p m : ℤ)
  | unlock (p m : ℤ)
  | wait (p c m : ℤ)
  | broadcast (p c : ℤ)
  | interrupt (p : ℤ)
  | exit (p : ℤ)
  | bad (p : ℤ)
  deriving DecidableEq, Repr

/-- The process that sent a request; PM's notifications name a process but answer nobody. -/
def Request.sender : Request → Option ℤ
  | .lock p _ | .unlock p _ | .wait p _ _ | .broadcast p _ | .bad p => some p
  | .interrupt _ | .exit _ => none

/-- State of the lock manager. -/
@[ext]
structure Manager where
  mutexes : PartialMap ℤ (ℤ × List ℤ)
  conditions : PartialMap ℤ (List (ℤ × ℤ))

namespace Manager

/-- Nothing is locked and nobody waits. -/
def empty : Manager := ⟨PartialMap.empty, PartialMap.empty⟩

/-- `p` owns mutex `m`. -/
def Owns (a : Manager) (p m : ℤ) : Prop := ∃ q, a.mutexes.get m = some (p, q)

/-- The processes queued for mutex `m`. -/
def queue (a : Manager) (m : ℤ) : List ℤ := ((a.mutexes.get m).map (·.2)).getD []

/-- The waiters of condition `c`. -/
def waiters (a : Manager) (c : ℤ) : List (ℤ × ℤ) := (a.conditions.get c).getD []

/-- The waiting lists of the manager, one for every mutex and one for every condition. -/
def place (a : Manager) : ℤ ⊕ ℤ → List ℤ
  | .inl m => a.queue m
  | .inr c => (a.waiters c).map (·.1)

/-- `p` waits for a mutex or on a condition. -/
abbrev Waiting (a : Manager) (p : ℤ) : Prop := Listed a.place p

/-! ## §1 Operations -/

section Operations

variable [Minix]

/-- Take a free mutex, refuse the owner, queue anybody else without a reply. -/
def lock (a : Manager) (p m : ℤ) : Manager × Option ℤ :=
  match a.mutexes.get m with
  | none => ({ a with mutexes := a.mutexes.set m (some (p, [])) }, some OK)
  | some (o, q) =>
    if o = p then (a, some EPERM)
    else ({ a with mutexes := a.mutexes.set m (some (o, q ++ [p])) }, none)

/-- Hand an owned mutex to the first in its queue, or free it. -/
def unlock (a : Manager) (p m : ℤ) : Manager × List Reply × ℤ :=
  match a.mutexes.get m with
  | none => (a, [], EPERM)
  | some (o, q) =>
    if o ≠ p then (a, [], EPERM)
    else match q with
      | [] => ({ a with mutexes := a.mutexes.set m none }, [], OK)
      | h :: t => ({ a with mutexes := a.mutexes.set m (some (h, t)) }, [⟨0, h⟩], OK)

/-- Enter `p` with mutex `m` behind the waiters of condition `c`. -/
def register (a : Manager) (p c m : ℤ) : Manager :=
  { a with conditions := a.conditions.set c (some (a.waiters c ++ [(p, m)])) }

open Classical in
/-- Unlock and register the owner of `m`; refuse anybody else with the code the server
    returns. -/
noncomputable def wait (a : Manager) (p c m : ℤ) : Manager × List Reply :=
  if a.Owns p m then ((a.unlock p m).1.register p c m, (a.unlock p m).2.1)
  else (a, [⟨-EINVAL, p⟩])

/-- Let the processes of a list ask for their mutexes in turn; whoever is not queued is
    answered `0`. -/
def wake (a : Manager) : List (ℤ × ℤ) → Manager × List Reply
  | [] => (a, [])
  | (p, m) :: ws =>
    let rest := (a.lock p m).1.wake ws
    (rest.1, (if (a.lock p m).2.isSome then [⟨0, p⟩] else []) ++ rest.2)

/-- Delete a condition and wake its waiters. -/
def broadcast (a : Manager) (c : ℤ) : Manager × List Reply :=
  wake { a with conditions := a.conditions.set c none } (a.waiters c)

end Operations

/-- The waiters of a condition without `p`; a condition nobody waits on is dropped. -/
def dropWaiter (p : ℤ) (l : List (ℤ × ℤ)) : Option (List (ℤ × ℤ)) :=
  let l' := l.eraseP fun w => w.1 == p
  if l' = [] then none else some l'

/-- Take `p` out of every list. -/
def remove (a : Manager) (p : ℤ) : Manager where
  mutexes := a.mutexes.filterMapVals fun (o, q) => some (o, q.erase p)
  conditions := a.conditions.filterMapVals (dropWaiter p)

/-- What the death of `p` does to one mutex. -/
def exitMutex (p : ℤ) : ℤ × List ℤ → Option (ℤ × List ℤ)
  | (o, q) =>
    if o = p then
      match q with
      | [] => none
      | h :: t => some (h, t.erase p)
    else some (o, q.erase p)

/-- Unlock everything `p` owns and take `p` out of every list. -/
def exit (a : Manager) (p : ℤ) : Manager where
  mutexes := a.mutexes.filterMapVals (exitMutex p)
  conditions := a.conditions.filterMapVals (dropWaiter p)

/-- The message that tells the first in the queue of `m` that the mutex is now its own. -/
def handOver (a : Manager) (m : ℤ) : Option Reply := (a.queue m).head?.map fun h => ⟨0, h⟩

/-! ## §2 Steps -/

section Steps

variable [Minix]

/-- State after a request. -/
noncomputable def next (a : Manager) : Request → Manager
  | .lock p m => (a.lock p m).1
  | .unlock p m => (a.unlock p m).1
  | .wait p c m => (a.wait p c m).1
  | .broadcast _ c => (a.broadcast c).1
  | .interrupt p => a.remove p
  | .exit p => a.exit p
  | .bad _ => a

/-- The messages sent while a request is handled, in order. -/
def Replies (a : Manager) : Request → List Reply → Prop
  | .lock p m, out => out = ((a.lock p m).2.map fun r => ⟨r, p⟩).toList
  | .unlock p m, out => out = (a.unlock p m).2.1 ++ [⟨(a.unlock p m).2.2, p⟩]
  | .wait p c m, out => out = (a.wait p c m).2
  | .broadcast p c, out => out = (a.broadcast c).2 ++ [⟨OK, p⟩]
  | .interrupt p, out => (a.Waiting p ∧ out = [⟨EINTR, p⟩]) ∨ (¬ a.Waiting p ∧ out = [])
  | .exit p, out =>
    ∃ ms : List ℤ, ms.Nodup ∧ (∀ m, m ∈ ms ↔ a.Owns p m) ∧ out = ms.filterMap a.handOver
  | .bad p, out => out = [⟨EINVAL, p⟩]

/-- One step of the lock manager, labelled by the request and the messages it sends. -/
def Step (a : Manager) (l : Request × List Reply) (a' : Manager) : Prop :=
  a' = a.next l.1 ∧ a.Replies l.1 l.2

end Steps

/-! ## §3 Reading the operations -/

@[simp] theorem empty_queue (m : ℤ) : empty.queue m = [] := rfl

@[simp] theorem empty_waiters (c : ℤ) : empty.waiters c = [] := rfl

theorem queue_of_get {a : Manager} {m o : ℤ} {q : List ℤ} (h : a.mutexes.get m = some (o, q)) :
    a.queue m = q := by
  simp [queue, h]

theorem queue_of_none {a : Manager} {m : ℤ} (h : a.mutexes.get m = none) : a.queue m = [] := by
  simp [queue, h]

theorem waiters_of_get {a : Manager} {c : ℤ} {l : List (ℤ × ℤ)}
    (h : a.conditions.get c = some l) : a.waiters c = l := by
  simp [waiters, h]

theorem mem_queue {a : Manager} {p m : ℤ} :
    p ∈ a.queue m ↔ ∃ o q, a.mutexes.get m = some (o, q) ∧ p ∈ q := by
  cases h : a.mutexes.get m with
  | none => simp [queue, h]
  | some x =>
    obtain ⟨o, q⟩ := x
    simp [queue, h]

theorem mem_waiters {a : Manager} {c : ℤ} {w : ℤ × ℤ} :
    w ∈ a.waiters c ↔ ∃ l, a.conditions.get c = some l ∧ w ∈ l := by
  cases h : a.conditions.get c with
  | none => simp [waiters, h]
  | some l => simp [waiters, h]

theorem Owns.unique {a : Manager} {p p' m : ℤ} (h : a.Owns p m) (h' : a.Owns p' m) : p = p' := by
  obtain ⟨q, hq⟩ := h
  obtain ⟨q', hq'⟩ := h'
  rw [hq] at hq'
  simp at hq'
  exact hq'.1

/-- `lock` has three outcomes: the mutex is taken, refused to its owner, or waited for. -/
theorem lock_cases [Minix] (a : Manager) (p m : ℤ) :
    (a.mutexes.get m = none ∧
      a.lock p m = ({ a with mutexes := a.mutexes.set m (some (p, [])) }, some OK)) ∨
    (∃ q, a.mutexes.get m = some (p, q) ∧ a.lock p m = (a, some EPERM)) ∨
    (∃ o q, a.mutexes.get m = some (o, q) ∧ o ≠ p ∧
      a.lock p m = ({ a with mutexes := a.mutexes.set m (some (o, q ++ [p])) }, none)) := by
  unfold lock
  cases h : a.mutexes.get m with
  | none => exact Or.inl ⟨rfl, rfl⟩
  | some x =>
    obtain ⟨o, q⟩ := x
    by_cases ho : o = p
    · subst ho
      exact Or.inr (Or.inl ⟨q, rfl, by simp⟩)
    · exact Or.inr (Or.inr ⟨o, q, rfl, ho, by simp [ho]⟩)

/-- `unlock` has three outcomes: refusal, the mutex becomes free, or it is handed on. -/
theorem unlock_cases [Minix] (a : Manager) (p m : ℤ) :
    (¬ a.Owns p m ∧ a.unlock p m = (a, [], EPERM)) ∨
    (a.mutexes.get m = some (p, []) ∧
      a.unlock p m = ({ a with mutexes := a.mutexes.set m none }, [], OK)) ∨
    (∃ h t, a.mutexes.get m = some (p, h :: t) ∧
      a.unlock p m = ({ a with mutexes := a.mutexes.set m (some (h, t)) }, [⟨0, h⟩], OK)) := by
  unfold unlock Owns
  cases hget : a.mutexes.get m with
  | none => exact Or.inl ⟨by simp, rfl⟩
  | some x =>
    obtain ⟨o, q⟩ := x
    by_cases ho : o = p
    · subst ho
      cases q with
      | nil => exact Or.inr (Or.inl ⟨rfl, by simp⟩)
      | cons h t => exact Or.inr (Or.inr ⟨h, t, rfl, by simp⟩)
    · exact Or.inl ⟨by simp [ho], by simp [ho]⟩

@[simp] theorem lock_conditions [Minix] (a : Manager) (p m : ℤ) :
    (a.lock p m).1.conditions = a.conditions := by
  obtain ⟨_, h⟩ | ⟨_, _, h⟩ | ⟨_, _, _, _, h⟩ := a.lock_cases p m <;> simp [h]

@[simp] theorem unlock_conditions [Minix] (a : Manager) (p m : ℤ) :
    (a.unlock p m).1.conditions = a.conditions := by
  obtain ⟨_, h⟩ | ⟨_, h⟩ | ⟨_, _, _, h⟩ := a.unlock_cases p m <;> simp [h]

@[simp] theorem wake_conditions [Minix] (a : Manager) (ws : List (ℤ × ℤ)) :
    (a.wake ws).1.conditions = a.conditions := by
  induction ws generalizing a with
  | nil => rfl
  | cons w ws ih => rw [wake, ih, lock_conditions]

end Manager

end MinixCv.LockManager

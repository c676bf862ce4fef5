import MinixCv.Client.Library
import MinixCv.Server.Runs

/-!
# The Server With Its Clients

Any number of processes that call the library, the server, and PM.  A step is

- `call p k`: a live process outside the library calls `k` and posts its first message
- `receive p`: the server handles the message posted by `p`
- `eintr p`, `exit p`: the server handles a notification of PM about `p`

The replies of a handled message are delivered in the order they were sent: each one ends
the `sendrec` of its addressee, whose library code runs on to its next send or its return.
A dead process takes no reply.  Its posted message may still be received.
-/

namespace MinixCv.System

open MinixCv.Lib MinixCv.LockManager MinixCv.Server MinixCv.Client

/-! ## §1 States and steps -/

/-- The server, every process by its endpoint, and the processes whose death was reported. -/
structure State where
  server : ServerState
  clients : ℤ → Process
  dead : Finset ℤ

/-- Nothing has happened yet; `errno` and the sentinels hold whatever they hold. -/
def State.initial (start koniec : Fin MAX_MUTEX → ℤ) (errno : ℤ → ℤ) : State where
  server := Server.initial start koniec
  clients p := ⟨.idle, errno p, []⟩
  dead := ∅

inductive Event where
  | call (p : ℤ) (k : Call)
  | receive (p : ℤ)
  | eintr (p : ℤ)
  | exit (p : ℤ)
  deriving DecidableEq, Repr

section Steps

variable [Minix]

/-- One reply reaches its addressee, unless that is dead. -/
def deliver (dead : Finset ℤ) (clients : ℤ → Process) (r : Reply) : ℤ → Process :=
  if r.dokad ∈ dead then clients
  else Function.update clients r.dokad ((clients r.dokad).reply r.typ)

/-- The replies of one handled message. -/
def deliverAll (dead : Finset ℤ) (clients : ℤ → Process) (out : List Reply) : ℤ → Process :=
  out.foldl (deliver dead) clients

/-- `p` calls the library. -/
def State.call (σ : State) (p : ℤ) (k : Call) : State :=
  { σ with clients := Function.update σ.clients p ((σ.clients p).enter k) }

/-- The message that `p` has posted has been handled, and all its replies have been delivered:
    that is one step. -/
def State.receive (σ : State) (p : ℤ) (s : ServerState) (out : List Reply) : State :=
  { σ with
    server := s
    clients := deliverAll σ.dead (Function.update σ.clients p (σ.clients p).received) out }

/-- A notification that leaves the processes `dead` dead has been handled. -/
def State.notify (σ : State) (dead : Finset ℤ) (s : ServerState) (out : List Reply) : State :=
  ⟨s, deliverAll dead σ.clients out, dead⟩

/-- `CS_EINTR` about `p` as PM sends it. -/
def eintrMessage (p x : ℤ) : Message := ⟨Minix.PM_PROC_NR, CS_EINTR, p, x⟩

/-- `CS_EXIT` about `p` as PM sends it. -/
def exitMessage (p x : ℤ) : Message := ⟨Minix.PM_PROC_NR, CS_EXIT, p, x⟩

/-- One step of the whole system.  A step that would need a slot behind the server's tables
    is not taken, nor is a `CS_EINTR` about a process that the head sentinel of a queue with
    somebody in it holds, nor a `CS_EXIT` about one that the head sentinel of its own queue
    holds: `EveryStep` has these notifications too. -/
inductive Step (σ : State) : Event → State → Prop where
  | call {p : ℤ} {k : Call} : p ∉ σ.dead → (σ.clients p).phase = .idle →
      Step σ (.call p k) (σ.call p k)
  | receive {p : ℤ} {site : Site} {s : ServerState} {out : List Reply} :
      (σ.clients p).phase = .posted site → obsluz σ.server (site.message p) = .ok (s, out) →
      Step σ (.receive p) (σ.receive p s out)
  | eintr {p x : ℤ} {s : ServerState} {out : List Reply} :
      Unfooled σ.server p → obsluz σ.server (eintrMessage p x) = .ok (s, out) →
      Step σ (.eintr p) (σ.notify σ.dead s out)
  | exit {p x : ℤ} {s : ServerState} {out : List Reply} :
      Unhidden σ.server p → obsluz σ.server (exitMessage p x) = .ok (s, out) →
      Step σ (.exit p) (σ.notify (insert p σ.dead) s out)

/-- The same with every notification. -/
inductive EveryStep (σ : State) : Event → State → Prop where
  | call {p : ℤ} {k : Call} : p ∉ σ.dead → (σ.clients p).phase = .idle →
      EveryStep σ (.call p k) (σ.call p k)
  | receive {p : ℤ} {site : Site} {s : ServerState} {out : List Reply} :
      (σ.clients p).phase = .posted site → obsluz σ.server (site.message p) = .ok (s, out) →
      EveryStep σ (.receive p) (σ.receive p s out)
  | eintr {p x : ℤ} {s : ServerState} {out : List Reply} :
      obsluz σ.server (eintrMessage p x) = .ok (s, out) →
      EveryStep σ (.eintr p) (σ.notify σ.dead s out)
  | exit {p x : ℤ} {s : ServerState} {out : List Reply} :
      obsluz σ.server (exitMessage p x) = .ok (s, out) →
      EveryStep σ (.exit p) (σ.notify (insert p σ.dead) s out)

/-- No scan of the event's notification is led astray by a head sentinel. -/
def Clear (σ : State) : Event → Prop
  | .eintr p => Unfooled σ.server p
  | .exit p => Unhidden σ.server p
  | .call _ _ | .receive _ => True

/-- `Step` leaves out exactly the notifications that are led astray. -/
theorem step_iff {σ σ' : State} {e : Event} : Step σ e σ' ↔ EveryStep σ e σ' ∧ Clear σ e := by
  constructor
  · intro h
    cases h with
    | call hlive hidle => exact ⟨.call hlive hidle, trivial⟩
    | receive hposted hok => exact ⟨.receive hposted hok, trivial⟩
    | eintr hst hok => exact ⟨.eintr hok, hst⟩
    | exit hst hok => exact ⟨.exit hok, hst⟩
  · intro hboth
    obtain ⟨h, hclear⟩ := hboth
    cases h with
    | call hlive hidle => exact .call hlive hidle
    | receive hposted hok => exact .receive hposted hok
    | eintr hok => exact .eintr hclear hok
    | exit hok => exact .exit hclear hok

/-- The states reached from the start. -/
def Reachable (σ : State) : Prop :=
  ∃ start koniec errno es, Run Step (State.initial start koniec errno) es σ

theorem Reachable.snoc {σ σ' : State} {e : Event} (hσ : Reachable σ) (h : Step σ e σ') :
    Reachable σ' := by
  obtain ⟨start, koniec, errno, es, hrun⟩ := hσ
  exact ⟨start, koniec, errno, _, hrun.snoc h⟩

end Steps

/-! ## §2 Delivery -/

section Delivery

variable [Minix] {dead : Finset ℤ} {clients : ℤ → Process} {out : List Reply} {q : ℤ}

theorem deliver_of_ne {r : Reply} (h : q ≠ r.dokad) : deliver dead clients r q = clients q := by
  unfold deliver
  split_ifs
  · rfl
  · exact Function.update_of_ne h _ _

theorem deliver_dead (hq : q ∈ dead) (r : Reply) : deliver dead clients r q = clients q := by
  by_cases h : q = r.dokad
  · rw [deliver, if_pos (h ▸ hq)]
  · exact deliver_of_ne h

theorem deliverAll_dead (hq : q ∈ dead) : deliverAll dead clients out q = clients q := by
  unfold deliverAll
  induction out generalizing clients with
  | nil => rfl
  | cons r out ih => rw [List.foldl_cons, ih, deliver_dead hq]

theorem deliverAll_of_not_mem (hq : q ∉ out.map (·.dokad)) :
    deliverAll dead clients out q = clients q := by
  unfold deliverAll
  induction out generalizing clients with
  | nil => rfl
  | cons r out ih =>
    simp only [List.map_cons, List.mem_cons, not_or] at hq
    rw [List.foldl_cons, ih hq.2, deliver_of_ne hq.1]

/-- When everybody is sent at most one reply, that reply is what a live process gets. -/
theorem deliverAll_of_mem (hnodup : (out.map (·.dokad)).Nodup) (hq : q ∉ dead) {typ : ℤ}
    (hmem : ⟨typ, q⟩ ∈ out) : deliverAll dead clients out q = (clients q).reply typ := by
  induction out generalizing clients with
  | nil => simp at hmem
  | cons r out ih =>
    rw [List.map_cons, List.nodup_cons] at hnodup
    -- the reply is the first one, or nobody before it is `q`
    rcases List.mem_cons.mp hmem with rfl | hmem
    · rw [deliverAll, List.foldl_cons, ← deliverAll, deliverAll_of_not_mem hnodup.1, deliver,
        if_neg hq, Function.update_self]
    · have hne : q ≠ r.dokad := by
        intro heq
        subst heq
        exact hnodup.1 (List.mem_map.mpr ⟨_, hmem, rfl⟩)
      rw [deliverAll, List.foldl_cons, ← deliverAll, ih hnodup.2 hmem, deliver_of_ne hne]

end Delivery

/-! ## §3 The request of a place -/

/-- What the server is asked for from each place of the library. -/
def siteRequest (p : ℤ) : Site → Request
  | .lock m | .relock _ m => .lock p m
  | .unlock m => .unlock p m
  | .wait c m => .wait p c m
  | .broadcast c => .broadcast p c

theorem message_request (p : ℤ) (site : Site) : (site.message p).request = siteRequest p site := by
  cases site with
  | lock m => exact request_lock p m 0
  | relock c m => exact request_lock p m 0
  | unlock m => exact request_unlock p m 0
  | wait c m => exact request_wait p m c
  | broadcast c => exact request_broadcast p 0 c

theorem siteRequest_sender (p : ℤ) (site : Site) : (siteRequest p site).sender = some p := by
  cases site <;> rfl

theorem siteRequest_ne (p q : ℤ) (site : Site) :
    siteRequest p site ≠ .interrupt q ∧ siteRequest p site ≠ .exit q := by
  cases site <;> simp [siteRequest]

end MinixCv.System

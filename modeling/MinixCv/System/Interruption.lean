import MinixCv.Server.Interruption
import MinixCv.System.Results

/-!
# An Interrupted Call Is Resumed

PM interrupts a process that is blocked in `cs_lock` or `cs_wait`.  The server takes the
process out of the list it is in, and the library asks for the mutex again: from the loop of
`cs_lock`, or from the `cs_lock` that `cs_wait` calls.

- `interrupted`: what the notification does, and what the library sends next
- `interrupted_call_resumed`: what has happened when the server has received that request,
  and that doing it all once more changes nothing
-/

namespace MinixCv.System

open MinixCv.Lib MinixCv.LockManager MinixCv.Server MinixCv.Client

/-- The process is blocked inside `cs_lock(m)`, or inside a `cs_wait` with mutex `m`. -/
def BlockedFor (x : Process) (m : ℤ) : Prop :=
  ∃ site, x.phase = .blocked site ∧ (site.call = .csLock m ∨ ∃ c, site.call = .csWait c m)

section Interruption

variable [Minix] {σ : State} {p m : ℤ}

omit [Minix] in
/-- Whoever is blocked in such a call waits for its mutex at the server. -/
theorem Inv.wants (hσ : Inv σ) (hlive : p ∉ σ.dead) (h : BlockedFor (σ.clients p) m) :
    (abs σ.server).Wants p m := by
  obtain ⟨site, hphase, hcall⟩ := h
  have hpending := hσ.pending hlive hphase
  rcases hcall with hcall | ⟨c, hcall⟩
  · rw [hcall] at hpending
    exact Or.inl ((queued_iff hσ.tables).mp hpending)
  · rw [hcall] at hpending
    rcases hpending with hreg | hqueued
    · exact Or.inr ⟨c, (registered_iff hσ.tables).mp hreg⟩
    · exact Or.inl ((queued_iff hσ.tables).mp hqueued)

omit [Minix] in
/-- What the library sends after an interruption: a request for the mutex. -/
theorem BlockedFor.retry {q : Process} (h : BlockedFor q m) (p : ℤ) :
    ∃ site site', q.phase = .blocked site ∧ site.retry = some site' ∧
      site'.message p = sendMessage p CS_LOCK m 0 ∧
      (site'.call = .csLock m ∨ ∃ c, site'.call = .csWait c m) := by
  obtain ⟨site, hphase, hcall⟩ := h
  cases site with
  | lock k =>
    have hk : k = m := by simpa [Site.call] using hcall
    exact ⟨_, _, hphase, rfl, by rw [hk]; rfl, Or.inl (by rw [hk]; rfl)⟩
  | wait c k =>
    have hk : k = m := by simpa [Site.call] using hcall
    exact ⟨_, _, hphase, rfl, by rw [hk]; rfl, Or.inr ⟨c, by rw [hk]; rfl⟩⟩
  | relock c k =>
    have hk : k = m := by simpa [Site.call] using hcall
    exact ⟨_, _, hphase, rfl, by rw [hk]; rfl, Or.inr ⟨c, by rw [hk]; rfl⟩⟩
  | unlock k => simp [Site.call] at hcall
  | broadcast c => simp [Site.call] at hcall

/-- The notification takes `p` out of its list and tells it `EINTR`; the library then posts a
request for the mutex. -/
theorem interrupted (hσ : Inv σ) (hlive : p ∉ σ.dead) (hblocked : BlockedFor (σ.clients p) m)
    (hst : SentinelFree σ.server p) (x : ℤ) :
    ∃ s₁, obsluz σ.server (eintrMessage p x) = .ok (s₁, [⟨EINTR, p⟩]) ∧
      abs s₁ = (abs σ.server).remove p ∧ SameSentinels σ.server s₁ ∧
      ∃ site', ((σ.notify σ.dead s₁ [⟨EINTR, p⟩]).clients p).phase = .posted site' ∧
        site'.message p = sendMessage p CS_LOCK m 0 ∧
        (site'.call = .csLock m ∨ ∃ c, site'.call = .csWait c m) := by
  obtain ⟨s₁, h₁, habs₁, hsame₁⟩ := obsluz_interrupted hσ.tables hσ.manager hst
    (hσ.wants hlive hblocked).waiting (request_eintr Minix.PM_PROC_NR p x)
  obtain ⟨site, site', hphase, hretry, hmsg, hcall⟩ := hblocked.retry p
  refine ⟨s₁, h₁, habs₁, hsame₁, site', ?_, hmsg, hcall⟩
  simp only [State.notify]
  have hmem : (⟨EINTR, p⟩ : Reply) ∈ [⟨EINTR, p⟩] := List.mem_singleton_self _
  rw [deliverAll_of_mem (by simp) hlive hmem, Process.reply_EINTR hphase hretry]

/-- PM interrupts `p`, and the server then receives what the library of `p` has posted: a
    request for `m`.  The replies of both are `o₁` and `o₂`. -/
inductive Round (σ : State) (p m x : ℤ) : List Reply → List Reply → State → Prop where
  | mk {s₁ s₂ : ServerState} {o₁ o₂ : List Reply} {site : Site} :
      obsluz σ.server (eintrMessage p x) = .ok (s₁, o₁) →
      ((σ.notify σ.dead s₁ o₁).clients p).phase = .posted site →
      site.message p = sendMessage p CS_LOCK m 0 →
      obsluz s₁ (site.message p) = .ok (s₂, o₂) →
      Round σ p m x o₁ o₂ ((σ.notify σ.dead s₁ o₁).receive p s₂ o₂)

/-- What one round comes to. -/
theorem exists_round (hσ : Inv σ) (hlive : p ∉ σ.dead) (hblocked : BlockedFor (σ.clients p) m)
    (hst : SentinelFree σ.server p)
    (hroom : (abs σ.server).mutexes.get m = none → (abs σ.server).mutexes.count < MAX_MUTEX)
    (x : ℤ) :
    ∃ o₂ σ', Round σ p m x [⟨EINTR, p⟩] o₂ σ' ∧ Inv σ' ∧ p ∉ σ'.dead ∧ SentinelFree σ'.server p ∧
      abs σ'.server = (abs σ.server).resume p m ∧
      o₂ = (if (abs σ.server).mutexes.get m = none then [⟨OK, p⟩] else []) ∧
      ((abs σ.server).mutexes.get m ≠ none → BlockedFor (σ'.clients p) m) := by
  obtain ⟨s₁, h₁, habs₁, hsame₁, site', hposted, hmsg, hcall⟩ :=
    interrupted hσ hlive hblocked hst x
  have hσ₁ := (Step.eintr hst.unfooled h₁).inv hσ
  generalize hσ₁eq : σ.notify σ.dead s₁ [⟨EINTR, p⟩] = σ₁ at hσ₁ hposted
  have hserver : σ₁.server = s₁ := by rw [← hσ₁eq]; rfl
  have hdead : σ₁.dead = σ.dead := by rw [← hσ₁eq]; rfl
  rw [← hserver] at habs₁ hsame₁
  have hreq : (site'.message p).request = .lock p m := by
    rw [hmsg]
    exact message_request p (.lock m)
  obtain ⟨s₂, h₂, habs₂, hsame₂⟩ :=
    obsluz_resumed hσ.tables hσ.manager (hσ.wants hlive hblocked) hroom hσ₁.tables habs₁ hreq
  generalize ho₂ :
    (if (abs σ.server).mutexes.get m = none then ([⟨OK, p⟩] : List Reply) else []) = o₂ at h₂
  have hσ₂ := (Step.receive hposted h₂).inv hσ₁
  have hround : Round σ p m x [⟨EINTR, p⟩] o₂ (σ₁.receive p s₂ o₂) := by
    rw [← hσ₁eq]
    rw [← hσ₁eq] at hposted
    rw [hserver] at h₂
    exact .mk h₁ hposted hmsg h₂
  have hst₂ : SentinelFree s₂ p := by
    intro i
    rw [hsame₂ i, hsame₁ i]
    exact hst i
  have hserver₂ : (σ₁.receive p s₂ o₂).server = s₂ := rfl
  have hdead₂ : (σ₁.receive p s₂ o₂).dead = σ.dead := hdead
  refine ⟨o₂, _, hround, hσ₂, ?_, ?_, ?_, rfl, fun hm => ⟨site', ?_, hcall⟩⟩
  · rw [hdead₂]
    exact hlive
  · rw [hserver₂]
    exact hst₂
  · rw [hserver₂]
    exact habs₂
  · -- not answered, the process is blocked where it posted the request
    rw [if_neg hm] at ho₂
    simp only [State.receive, ← ho₂]
    rw [deliverAll_of_not_mem (by simp), Function.update_self, Process.received_of_posted hposted]

/-- **An interrupted call is resumed, not lost**: after a process that is blocked in
`cs_lock(m)`, or in a `cs_wait` with `m`, has been interrupted, its library asks for `m`.  When
the server has received that, the process has left the list it was in and owns `m` if nobody
did, or else stands at the tail of its queue; nothing else has changed.  If it is blocked
again, interrupting it once more changes nothing. -/
theorem interrupted_call_resumed (hσ : Reachable σ) (hlive : p ∉ σ.dead)
    (hblocked : BlockedFor (σ.clients p) m) (hst : SentinelFree σ.server p)
    (hroom : (abs σ.server).mutexes.get m = none → (abs σ.server).mutexes.count < MAX_MUTEX)
    (x : ℤ) :
    ∃ o₂ σ', Round σ p m x [⟨EINTR, p⟩] o₂ σ' ∧
      (abs σ.server).Resumed p m (abs σ'.server) ∧
      o₂ = (if (abs σ.server).mutexes.get m = none then [⟨OK, p⟩] else []) ∧
      ((abs σ.server).mutexes.get m ≠ none → BlockedFor (σ'.clients p) m ∧
        ∀ x', ∃ σ'', Round σ' p m x' [⟨EINTR, p⟩] [] σ'' ∧ abs σ''.server = abs σ'.server) := by
  have hinv := hσ.inv
  have hwants := hinv.wants hlive hblocked
  obtain ⟨o₂, σ', hround, hinv', hlive', hst', habs, hout, hagain⟩ :=
    exists_round hinv hlive hblocked hst hroom x
  have hresumed := Manager.resume_resumed hinv.manager hwants
  refine ⟨o₂, σ', hround, ?_, hout, fun hm => ⟨hagain hm, fun x' => ?_⟩⟩
  · rwa [habs]
  -- the mutex is still reserved
  have hm' : (abs σ'.server).mutexes.get m ≠ none := by
    obtain ⟨⟨o, q⟩, hget⟩ := Option.ne_none_iff_exists'.mp hm
    rw [habs, hresumed.reserved o q hget]
    simp
  obtain ⟨o₂', σ'', hround', -, -, -, habs', hout', -⟩ :=
    exists_round hinv' hlive' (hagain hm) hst' (fun h => absurd h hm') x'
  rw [if_neg hm'] at hout'
  subst hout'
  refine ⟨σ'', hround', ?_⟩
  have hwell : ((abs σ.server).resume p m).WellFormed := habs ▸ hinv'.manager
  rw [habs', habs, Manager.resume_resume hinv.manager hwants hm hwell]

/-- An idle process calls `cs_lock` for a mutex that another one owns, and is blocked behind
those that are queued already. -/
theorem exists_queued (hσ : Reachable σ) {o q m : ℤ} {l : List ℤ} (hlive : q ∉ σ.dead)
    (hidle : (σ.clients q).phase = .idle) (hm : (abs σ.server).mutexes.get m = some (o, l))
    (hoq : o ≠ q) :
    ∃ σ', Reachable σ' ∧ σ'.dead = σ.dead ∧ (σ'.clients q).phase = .blocked (.lock m) ∧
      (∀ r, r ≠ q → σ'.clients r = σ.clients r) ∧
      (abs σ'.server).mutexes.get m = some (o, l ++ [q]) ∧ SameSentinels σ.server σ'.server := by
  have hlock : (abs σ.server).lock q m =
      (⟨(abs σ.server).mutexes.set m (some (o, l ++ [q])), (abs σ.server).conditions⟩, none) := by
    simp [Manager.lock, hm, hoq]
  obtain ⟨out, σ', hσ', hinv, hserves, hd, hsame⟩ :=
    exists_asked hσ hlive hidle (hσ.inv.tables.fits.lock_taken hm hoq)
  have hserver : (σ.call q (.csLock m)).server = σ.server := rfl
  have hout : out = [] := by
    have hrep := hserves.replies
    rw [Manager.Replies, hserver, hlock] at hrep
    exact hrep
  have hposted : ((σ.call q (.csLock m)).clients q).phase = .posted (.lock m) := by
    simp [State.call, Process.enter, Call.site]
  refine ⟨σ', hσ', hd, ?_, fun r hr => ?_, ?_, hsame⟩
  · rw [hserves.client_of_not_mem (by simp [hout]), Request.sender, if_pos rfl,
      Process.received_of_posted hposted]
  · rw [hserves.client_of_not_mem (by simp [hout]), Request.sender, if_neg (by simp [Ne.symm hr])]
    simp [State.call, hr]
  · rw [hserves.next, Manager.next, hserver, hlock]
    simp

end Interruption

/-- Process 1 owns mutex 7, processes 2, 3 and 4 wait for it, and process 2 is interrupted: it
goes behind the other two. -/
theorem interrupted_call_resumed_in_queue :
    letI := Minix.v321
    ∃ σ σ', Reachable σ ∧ BlockedFor (σ.clients 2) 7 ∧
      (abs σ.server).mutexes.get 7 = some (1, [2, 3, 4]) ∧ Round σ 2 7 0 [⟨EINTR, 2⟩] [] σ' ∧
      (abs σ'.server).mutexes.get 7 = some (1, [3, 4, 2]) := by
  let _ := Minix.v321
  obtain ⟨σ₁, hσ₁, hdead₁, hidle, habs, hzero⟩ := exists_first_lock 1 7
  have hm₁ : (abs σ₁.server).mutexes.get 7 = some (1, []) := by simp [habs]
  obtain ⟨σ₂, hσ₂, hdead₂, hblocked₂, hsame₂, hm₂, hsent₂⟩ :=
    exists_queued (q := 2) hσ₁ (by simp [hdead₁]) (hidle 2) hm₁ (by decide)
  obtain ⟨σ₃, hσ₃, hdead₃, -, hsame₃, hm₃, hsent₃⟩ :=
    exists_queued (q := 3) hσ₂ (by simp [hdead₂, hdead₁])
      (by rw [hsame₂ 3 (by decide), hidle 3]) hm₂ (by decide)
  obtain ⟨σ₄, hσ₄, hdead₄, -, hsame₄, hm₄, hsent₄⟩ :=
    exists_queued (q := 4) hσ₃ (by simp [hdead₃, hdead₂, hdead₁])
      (by rw [hsame₃ 4 (by decide), hsame₂ 4 (by decide), hidle 4]) hm₃ (by decide)
  have hblocked : BlockedFor (σ₄.clients 2) 7 := by
    refine ⟨.lock 7, ?_, Or.inl rfl⟩
    rw [hsame₄ 2 (by decide), hsame₃ 2 (by decide), hblocked₂]
  have hstart : SentinelFree σ₄.server 2 := by
    intro i
    rw [hsent₄ i, hsent₃ i, hsent₂ i, hzero i]
    decide
  obtain ⟨o₂, σ', hround, hresumed, hout, -⟩ := interrupted_call_resumed hσ₄
    (by simp [hdead₄, hdead₃, hdead₂, hdead₁]) hblocked hstart (fun h => by simp [hm₄] at h) 0
  rw [if_neg (by simp [hm₄])] at hout
  subst hout
  exact ⟨σ₄, σ', hσ₄, hblocked, hm₄, hround, hresumed.reserved 1 [2, 3, 4] hm₄⟩

end MinixCv.System

import MinixCv.LockManager.Moves
import MinixCv.System.Basic

/-!
# What The Clients Believe And What The Server Knows

The server's owners and waiting lists and the processes' own view of their calls agree in
every state that the system reaches.

- `Outcome`: what a reply means for the process that gets it
- `Serves.client`: what a handled message does to one process
- `Agrees`, `Inv`: the agreement, and `Step.inv`, that every step keeps it
- `mutual_exclusion`: at most one live process holds a mutex, and the server knows it
-/

namespace MinixCv.System

open MinixCv.Lib MinixCv.LockManager MinixCv.Server MinixCv.Client

/-! ## §1 Agreement of one process with the server -/

/-- The mutex that a process gets when it is sent `0` in this phase. -/
def wants : Phase → Option ℤ
  | .posted (.lock m) | .posted (.relock _ m) => some m
  | .blocked (.lock m) | .blocked (.relock _ m) | .blocked (.wait _ m) => some m
  | _ => none

/-- The process has given `m` up inside `cs_wait` and has not got it back. -/
def Released (m : ℤ) : Phase → Prop
  | .blocked (.wait _ k) | .posted (.relock _ k) | .blocked (.relock _ k) => k = m
  | _ => False

/-- Where the server lists a process in this phase. -/
def ListedAs (a : Manager) (q : ℤ) : Phase → Prop
  | .idle | .posted _ => ¬ a.Waiting q
  | .blocked (.lock m) | .blocked (.relock _ m) => q ∈ a.queue m
  | .blocked (.wait c m) => (q, m) ∈ a.waiters c ∨ q ∈ a.queue m
  | .blocked (.unlock _) | .blocked (.broadcast _) => False

/-- The server's view of `q` is that of the process itself. -/
structure Agrees (a : Manager) (q : ℤ) (x : Process) : Prop where
  listed : ListedAs a q x.phase
  owns_iff : ∀ m, a.Owns q m ↔ Took x.history m ∧ ¬ Released m x.phase
  released : ∀ m, Released m x.phase → Took x.history m

theorem released_wants {φ : Phase} {m k : ℤ} (hw : wants φ = some m) (hr : Released k φ) :
    k = m := by
  unfold wants at hw
  split at hw <;> simp_all [Released]

/-- Whoever is listed for a mutex is blocked at a place that asks for it. -/
theorem wants_of_listed {a : Manager} (ha : a.WellFormed) {q m : ℤ} {φ : Phase}
    (hφ : ListedAs a q φ) (h : q ∈ a.queue m ∨ ∃ c, (q, m) ∈ a.waiters c) :
    wants φ = some m ∧ ∃ site site', φ = .blocked site ∧ site.retry = some site' := by
  have hw : a.Waiting q := by
    rcases h with h | ⟨c, h⟩
    · exact Manager.waiting_of_queue h
    · exact Manager.waiting_of_waiters h
  -- nobody waits for two mutexes, so the one its place asks for is `m`
  have hunique : ∀ {k}, (q ∈ a.queue k ∨ ∃ c, (q, k) ∈ a.waiters c) → k = m := fun h' =>
    ha.wanted_unique h' h
  unfold ListedAs at hφ
  split at hφ
  · exact absurd hw hφ
  · exact absurd hw hφ
  · exact ⟨by simp [wants, hunique (Or.inl hφ)], _, _, rfl, rfl⟩
  · exact ⟨by simp [wants, hunique (Or.inl hφ)], _, _, rfl, rfl⟩
  · refine ⟨?_, _, _, rfl, rfl⟩
    rcases hφ with hφ | hφ
    · simp [wants, hunique (Or.inr ⟨_, hφ⟩)]
    · simp [wants, hunique (Or.inl hφ)]
  · exact hφ.elim
  · exact hφ.elim

/-! ## §2 Replies -/

section Replies

variable [Minix]

/-- What the reply `typ` means for `q` in phase `φ`, when the step that sends it leads from
    `a` to `a'`. -/
inductive Outcome (a a' : Manager) (q : ℤ) : Phase → ℤ → Prop where
  | granted {φ : Phase} {m : ℤ} : wants φ = some m → ¬ a.Owns q m →
      (∀ k, a'.Owns q k ↔ a.Owns q k ∨ k = m) → Outcome a a' q φ 0
  | reentered {φ : Phase} {m : ℤ} : wants φ = some m → a.Owns q m →
      (∀ k, a'.Owns q k ↔ a.Owns q k) → Outcome a a' q φ EPERM
  | interrupted {site site' : Site} : site.retry = some site' →
      (∀ k, a'.Owns q k ↔ a.Owns q k) → Outcome a a' q (.blocked site) EINTR
  | unlocked {m : ℤ} : a.Owns q m →
      (∀ k, a'.Owns q k ↔ a.Owns q k ∧ k ≠ m) → Outcome a a' q (.posted (.unlock m)) 0
  | refusedUnlock {m : ℤ} : ¬ a.Owns q m →
      (∀ k, a'.Owns q k ↔ a.Owns q k) → Outcome a a' q (.posted (.unlock m)) EPERM
  | refusedWait {c m : ℤ} : ¬ a.Owns q m →
      (∀ k, a'.Owns q k ↔ a.Owns q k) → Outcome a a' q (.posted (.wait c m)) (-EINVAL)
  | announced {c : ℤ} : (∀ k, a'.Owns q k ↔ a.Owns q k) →
      Outcome a a' q (.posted (.broadcast c)) 0

variable {a a' : Manager} {q : ℤ} {x : Process}

omit [Minix] in
/-- A process that can be handed a mutex is inside a call that takes it. -/
private theorem received_of_wants {m : ℤ} (hw : wants x.phase = some m) :
    ∃ site, x.received = { x with phase := .blocked site } ∧ site.call.mutex = some m ∧
      site.call.takes = true := by
  cases hphase : x.phase with
  | idle => simp [hphase, wants] at hw
  | posted site =>
    refine ⟨site, Process.received_of_posted hphase, ?_⟩
    cases site <;> simp_all [wants, Site.call, Call.mutex, Call.takes]
  | blocked site =>
    refine ⟨site, by rw [Process.received_of_blocked hphase, ← hphase], ?_⟩
    cases site <;> simp_all [wants, Site.call, Call.mutex, Call.takes]

omit [Minix] in
/-- A process that has returned from its call agrees with the server when both count the
same mutexes. -/
private theorem agrees_idle (hgone : ¬ a'.Waiting q) {e : ℤ} {h : List Completed}
    (howns : ∀ k, a'.Owns q k ↔ Took h k) : Agrees a' q ⟨.idle, e, h⟩ where
  listed := hgone
  owns_iff m := by simp [howns, Released]
  released m h := h.elim

omit [Minix] in
/-- A call that did not succeed changes nothing in what the process believes. -/
private theorem took_failed {d : Completed} (hd : d.result ≠ 0) (h : List Completed) (m : ℤ) :
    Took (d :: h) m ↔ Took h m := by
  simp [took_cons, hd]

/-- A reply keeps the agreement. -/
theorem Agrees.reply (hx : Agrees a q x) (hgone : ¬ a'.Waiting q) {typ : ℤ}
    (ho : Outcome a a' q x.phase typ) : Agrees a' q (x.received.reply typ) := by
  -- one case for each meaning of a reply
  generalize hφ : x.phase = φ at ho
  cases ho with
  | @granted _ m hw hnot howns =>
    rw [← hφ] at hw
    obtain ⟨site, hrec, hmutex, htakes⟩ := received_of_wants hw
    rw [hrec, Process.reply_zero rfl]
    refine agrees_idle hgone fun k => ?_
    rw [howns, hx.owns_iff, took_cons]
    by_cases hk : k = m
    · simp [hk, hmutex, htakes]
    · have hfree : ¬ Released k x.phase := fun hr => hk (released_wants hw hr)
      simp [hk, hfree, hmutex, Ne.symm hk]
  | @reentered _ m hw hown howns =>
    rw [← hφ] at hw
    obtain ⟨site, hrec, _⟩ := received_of_wants hw
    rw [hrec, Process.reply_EPERM rfl]
    refine agrees_idle hgone fun k => ?_
    -- an owner that asks again is in `cs_lock`: inside `cs_wait` it would not own `m`
    have hfree : ¬ Released k x.phase := by
      intro hr
      rw [released_wants hw hr] at hr
      exact ((hx.owns_iff m).mp hown).2 hr
    rw [howns, hx.owns_iff, took_failed (by simp)]
    simp [hfree]
  | @interrupted site site' hr howns =>
    rw [Process.received_of_blocked hφ, Process.reply_EINTR hφ hr]
    -- sending again gives up nothing and takes nothing
    have hsame : ∀ k, Released k (.posted site') ↔ Released k x.phase := by
      intro k
      rw [hφ]
      cases site <;> simp only [Site.retry, Option.some.injEq, reduceCtorEq] at hr <;> subst hr <;> rfl
    exact ⟨hgone, fun k => by rw [howns, hx.owns_iff, hsame],
      fun k h => hx.released k ((hsame k).mp h)⟩
  | @unlocked m hown howns =>
    rw [Process.received_of_posted hφ, Process.reply_zero rfl]
    refine agrees_idle hgone fun k => ?_
    rw [howns, hx.owns_iff, hφ, took_cons]
    by_cases hk : k = m
    · simp [hk, Site.call, Call.mutex, Call.takes]
    · simp [hk, Ne.symm hk, Site.call, Call.mutex, Released]
  | @refusedUnlock m hown howns =>
    rw [Process.received_of_posted hφ, Process.reply_EPERM rfl]
    refine agrees_idle hgone fun k => ?_
    rw [howns, hx.owns_iff, hφ, took_failed (by simp)]
    simp [Released]
  | @refusedWait c m hown howns =>
    rw [Process.received_of_posted hφ, Process.reply_neg_EINVAL rfl]
    refine agrees_idle hgone fun k => ?_
    rw [howns, hx.owns_iff, hφ, took_failed Minix.EINVAL_pos.ne']
    simp [Released]
  | @announced c howns =>
    rw [Process.received_of_posted hφ, Process.reply_zero rfl]
    refine agrees_idle hgone fun k => ?_
    rw [howns, hx.owns_iff, hφ, took_cons]
    simp [Site.call, Call.mutex, Released]

end Replies

/-! ## §3 What a handled message does to one process -/

/-- The agreement of the whole system. -/
structure Inv (σ : State) : Prop where
  tables : TableInv σ.server
  manager : (abs σ.server).WellFormed
  blocked : ∀ p, (abs σ.server).Waiting p → ∃ site, (σ.clients p).phase = .blocked site
  agrees : ∀ p, p ∉ σ.dead → Agrees (abs σ.server) p (σ.clients p)

/-- The server has handled the request `r`, sent by a process that had posted it, or by PM. -/
structure Serves [Minix] (σ : State) (r : Request) (out : List Reply) (σ' : State) : Prop where
  tables : TableInv σ'.server
  next : abs σ'.server = (abs σ.server).next r
  replies : (abs σ.server).Replies r out
  sender : ∀ p, r.sender = some p →
    ∃ site, (σ.clients p).phase = .posted site ∧ r = siteRequest p site
  clients : σ'.clients = deliverAll σ'.dead
    (fun q => if r.sender = some q then (σ.clients q).received else σ.clients q) out
  dead : ∀ q, q ∉ σ'.dead → q ∉ σ.dead ∧ r ≠ .exit q

section Serves

variable [Minix] {σ σ' : State} {r : Request} {out : List Reply} {q : ℤ}

omit [Minix] in
theorem site_blind (p : ℤ) (site : Site) (s : ServerState) : (site.message p).Blind s :=
  (not_notification (message_request p site) (fun q => siteRequest_ne p q site) s).blind

/-- A `CS_EINTR` about `p` is handled as it should be if no sentinel is taken for `p`. -/
theorem eintr_blind {p x : ℤ} {s : ServerState} (hst : Unfooled s p) :
    (eintrMessage p x).Blind s := by
  constructor
  · intro q hq
    rw [eintrMessage, request_eintr, Request.interrupt.injEq] at hq
    exact hq ▸ hst
  · simp [eintrMessage, request_eintr]

/-- A `CS_EXIT` about `p` is handled as it should be if no sentinel hides `p`. -/
theorem exit_blind {p x : ℤ} {s : ServerState} (hst : Unhidden s p) :
    (exitMessage p x).Blind s := by
  constructor
  · simp [exitMessage, request_exit]
  · intro q hq
    rw [exitMessage, request_exit, Request.exit.injEq] at hq
    exact hq ▸ hst

theorem serves_of_receive (hσ : Inv σ) {p : ℤ} {site : Site} {s : ServerState}
    (hposted : (σ.clients p).phase = .posted site)
    (hok : obsluz σ.server (site.message p) = .ok (s, out)) :
    Serves σ (siteRequest p site) out (σ.receive p s out) := by
  -- the server's side is known from the refinement; the sender is the posted client
  have hh := Handled.of_ok hσ.tables (site_blind p site σ.server) hok
  rw [message_request] at hh
  refine ⟨hh.tableInv, hh.abs_eq, hh.replies hσ.manager, ?_, ?_, ?_⟩
  · intro q hq
    rw [siteRequest_sender, Option.some.injEq] at hq
    subst hq
    exact ⟨site, hposted, rfl⟩
  · simp only [State.receive, siteRequest_sender, Option.some.injEq]
    congr 1
    funext q
    by_cases hq : q = p
    · simp [hq]
    · simp [hq, Ne.symm hq]
  · exact fun q hq => ⟨hq, (siteRequest_ne p q site).2⟩

/-- Every step is a call or lets the server handle a request. -/
theorem Step.serves (hσ : Inv σ) {e : Event} (h : Step σ e σ') :
    (∃ p k, p ∉ σ.dead ∧ (σ.clients p).phase = .idle ∧ σ' = σ.call p k) ∨
      ∃ r out, Serves σ r out σ' := by
  cases h with
  | @call p k hlive hidle => exact Or.inl ⟨p, k, hlive, hidle, rfl⟩
  | receive hposted hok => exact Or.inr ⟨_, _, serves_of_receive hσ hposted hok⟩
  | @eintr p x s out hst hok =>
    right
    have hh := Handled.of_ok hσ.tables (eintr_blind hst) hok
    rw [eintrMessage, request_eintr] at hh
    refine ⟨.interrupt p, out, hh.tableInv, hh.abs_eq, hh.replies hσ.manager, ?_, ?_, ?_⟩
    · simp [Request.sender]
    · simp [State.notify, Request.sender]
    · exact fun q hq => ⟨hq, by simp⟩
  | @exit p x s out hst hok =>
    right
    have hh := Handled.of_ok hσ.tables (exit_blind hst) hok
    rw [exitMessage, request_exit] at hh
    refine ⟨.exit p, out, hh.tableInv, hh.abs_eq, hh.replies hσ.manager, ?_, ?_, ?_⟩
    · simp [Request.sender]
    · simp [State.notify, Request.sender]
    · intro q hq
      simp only [State.notify, Finset.mem_insert, not_or] at hq
      exact ⟨hq.2, by simpa using Ne.symm hq.1⟩

/-- A posted message for whose outcome the tables have room is handled. -/
theorem exists_receive (hσ : Inv σ) {p : ℤ} {site : Site}
    (hposted : (σ.clients p).phase = .posted site)
    (hfits : Fits ((abs σ.server).next (siteRequest p site))) :
    ∃ s out, Step σ (.receive p) (σ.receive p s out) ∧
      Serves σ (siteRequest p site) out (σ.receive p s out) := by
  rw [← message_request] at hfits
  obtain ⟨⟨s, out⟩, hok⟩ := (obsluz_ok_iff hσ.tables).mpr hfits
  exact ⟨s, out, .receive hposted hok, serves_of_receive hσ hposted hok⟩

theorem Serves.admits (hσ : Inv σ) (h : Serves σ r out σ') : (abs σ.server).Admits r := by
  intro p hp hw
  obtain ⟨site, hposted, _⟩ := h.sender p hp
  obtain ⟨site', hblocked⟩ := hσ.blocked p hw
  simp [hposted] at hblocked

theorem Serves.manager (hσ : Inv σ) (h : Serves σ r out σ') : (abs σ'.server).WellFormed := by
  rw [h.next]
  exact Manager.next_wellFormed hσ.manager (h.admits hσ)

theorem Serves.answers (hσ : Inv σ) (h : Serves σ r out σ') : (abs σ.server).Answers r out :=
  Manager.replies_answer hσ.manager (h.admits hσ) h.replies

/-- What a live process has become after the replies. -/
theorem Serves.client_of_not_mem (h : Serves σ r out σ') (hq : q ∉ out.map (·.dokad)) :
    σ'.clients q = if r.sender = some q then (σ.clients q).received else σ.clients q := by
  rw [h.clients, deliverAll_of_not_mem hq]

theorem Serves.client_of_mem (hσ : Inv σ) (h : Serves σ r out σ') (hlive : q ∉ σ'.dead) {typ : ℤ}
    (hq : ⟨typ, q⟩ ∈ out) :
    σ'.clients q =
      (if r.sender = some q then (σ.clients q).received else σ.clients q).reply typ := by
  rw [h.clients, deliverAll_of_mem (h.answers hσ).nodup hlive hq]

/-- The answer to a process that is answered at once. -/
private theorem outcome_of_answer {a : Manager} (ha : a.WellFormed) {site : Site}
    (hrep : a.Replies (siteRequest q site) out) (hq : ¬ a.Waiting q) {typ : ℤ}
    (h : a.Answer q (siteRequest q site) typ) :
    Outcome a (a.next (siteRequest q site)) q (.posted site) typ := by
  have howns := fun k => Manager.sender_owns_iff (m := k) ha hrep hq
  -- `cs_lock` and the relock inside `cs_wait` send the same message
  have hlock : ∀ m, wants (.posted site) = some m → siteRequest q site = .lock q m →
      Outcome a (a.next (siteRequest q site)) q (.posted site) typ := by
    intro m hw hr
    rw [hr] at h howns ⊢
    have hkeep : ∀ k, ¬ Manager.GivesUp (.lock q m) q k := by simp [Manager.GivesUp]
    rcases h with ⟨rfl, hnone⟩ | ⟨rfl, hown⟩
    · have hnot : ¬ a.Owns q m := by
        intro hex
        obtain ⟨l, hl⟩ := hex
        simp [hnone] at hl
      refine .granted hw hnot fun k => ?_
      rw [howns]
      constructor
      · intro hcase
        rcases hcase with ⟨ho, _⟩ | ⟨_, hk⟩
        · exact Or.inl ho
        · exact Or.inr (by simpa [eq_comm] using hk)
      · intro hcase
        rcases hcase with ho | rfl
        · exact Or.inl ⟨ho, hkeep k⟩
        · exact Or.inr ⟨hnone, rfl⟩
    · have hbound : a.mutexes.get m ≠ none := by
        obtain ⟨l, hl⟩ := hown
        simp [hl]
      refine .reentered hw hown fun k => ?_
      rw [howns]
      constructor
      · intro hcase
        rcases hcase with ⟨ho, _⟩ | ⟨hnone, hk⟩
        · exact ho
        · simp only [Request.lock.injEq, true_and] at hk
          exact absurd (hk ▸ hnone) hbound
      · exact fun ho => Or.inl ⟨ho, hkeep k⟩
  cases site with
  | lock m => exact hlock m rfl rfl
  | relock c m => exact hlock m rfl rfl
  | unlock m =>
    rcases h with ⟨rfl, hown⟩ | ⟨rfl, hown⟩
    · refine .unlocked hown fun k => ?_
      rw [howns]
      simp [siteRequest, Manager.GivesUp, eq_comm]
    · refine .refusedUnlock hown fun k => ?_
      rw [siteRequest, Manager.next, Manager.unlock_of_not_owns hown]
  | wait c m =>
    obtain ⟨rfl, hown⟩ := h
    refine .refusedWait hown fun k => ?_
    rw [siteRequest, Manager.next, Manager.wait_of_not_owns hown]
  | broadcast c =>
    obtain rfl := h
    refine .announced fun k => ?_
    rw [howns]
    simp [siteRequest, Manager.GivesUp]

/-- What a handled message does to a live process `q`. -/
inductive Change (a a' : Manager) (q : ℤ) (x : Process) : Process → Prop where
  | kept : (∀ k, a'.Owns q k ↔ a.Owns q k) → ListedAs a' q x.phase → Change a a' q x x
  | queued {site : Site} {m : ℤ} : x.phase = .posted site → wants (.posted site) = some m →
      q ∈ a'.queue m → (∀ k, a'.Owns q k ↔ a.Owns q k) →
      Change a a' q x { x with phase := .blocked site }
  | registered {c m : ℤ} : x.phase = .posted (.wait c m) → a.Owns q m → (q, m) ∈ a'.waiters c →
      (∀ k, a'.Owns q k ↔ a.Owns q k ∧ k ≠ m) →
      Change a a' q x { x with phase := .blocked (.wait c m) }
  | replied {typ : ℤ} : ¬ a'.Waiting q → Outcome a a' q x.phase typ →
      Change a a' q x (x.received.reply typ)

private theorem Serves.sender_change (hσ : Inv σ) (h : Serves σ r out σ') (hlive : q ∉ σ'.dead)
    (hs : r.sender = some q) :
    Change (abs σ.server) (abs σ'.server) q (σ.clients q) (σ'.clients q) := by
  obtain ⟨site, hposted, rfl⟩ := h.sender q hs
  have hq : ¬ (abs σ.server).Waiting q := h.admits hσ q hs
  have howns := fun k => Manager.sender_owns_iff (m := k) hσ.manager h.replies hq
  have hwell := h.manager hσ
  rcases Manager.sender_cases hσ.manager (h.admits hσ) h.replies hs with
    ⟨typ, hmem, hanswer, hgone⟩ | ⟨hmem, hwaits⟩
  · rw [h.client_of_mem hσ hlive hmem, if_pos hs, h.next]
    refine .replied hgone ?_
    rw [hposted]
    exact outcome_of_answer hσ.manager h.replies hq hanswer
  · rw [h.client_of_not_mem hmem, if_pos hs, Process.received_of_posted hposted]
    rw [h.next] at hwell ⊢
    rcases hwaits with ⟨m, hr, hqueue⟩ | ⟨c, m, hr, hown, hreg⟩
    · have hw : wants (.posted site) = some m := by
        cases site <;> simp_all [siteRequest, wants]
      refine .queued hposted hw hqueue fun k => ?_
      rw [howns, hr]
      constructor
      · intro hcase
        rcases hcase with ⟨ho, _⟩ | ⟨hnone, hk⟩
        · exact ho
        · -- it would own the mutex in whose queue it stands
          obtain rfl : m = k := by simpa using hk
          have hown : ((abs σ.server).next (siteRequest q site)).Owns q m :=
            (howns m).mpr (Or.inr ⟨hnone, hr⟩)
          exact absurd hqueue (hwell.owner_not_queued hown)
      · exact fun ho => Or.inl ⟨ho, by simp [Manager.GivesUp]⟩
    · obtain rfl : site = .wait c m := by
        cases site <;> simp_all [siteRequest]
      refine .registered hposted hown hreg fun k => ?_
      rw [howns]
      simp [siteRequest, Manager.GivesUp, eq_comm]

private theorem Serves.bystander_change (hσ : Inv σ) (h : Serves σ r out σ')
    (hlive : q ∉ σ'.dead) (hs : r.sender ≠ some q) :
    Change (abs σ.server) (abs σ'.server) q (σ.clients q) (σ'.clients q) := by
  obtain ⟨hlive₀, hexit⟩ := h.dead q hlive
  have hx := hσ.agrees q hlive₀
  rcases Manager.bystander_cases hσ.manager (h.admits hσ) h.replies hs hexit with
    ⟨hmem, howns, hqueue, hreg, hidle⟩ | ⟨hmem, hgone, m, hwant, howns⟩ | ⟨hmem, hgone, hw, howns⟩
  · rw [h.client_of_not_mem hmem, if_neg hs, h.next]
    refine .kept howns ?_
    -- at most a broadcast has moved it from its condition to the queue
    have hφ := hx.listed
    unfold ListedAs at hφ ⊢
    split at hφ
    · exact hidle hφ
    · exact hidle hφ
    · exact hqueue _ hφ
    · exact hqueue _ hφ
    · rcases hφ with hφ | hφ
      · exact hreg _ _ hφ
      · exact Or.inr (hqueue _ hφ)
    · exact hφ.elim
    · exact hφ.elim
  · -- handed the mutex
    obtain ⟨hwants, site, _, hblocked, _⟩ := wants_of_listed hσ.manager hx.listed hwant
    have hclient : σ'.clients q = (σ.clients q).received.reply 0 := by
      rw [h.client_of_mem hσ hlive hmem, if_neg hs, Process.received_of_blocked hblocked]
    rw [hclient, h.next]
    exact .replied hgone (.granted hwants (hσ.manager.wanted_not_owned hwant) howns)
  · -- interrupted
    have hwant : ∃ m, q ∈ (abs σ.server).queue m ∨ ∃ c, (q, m) ∈ (abs σ.server).waiters c := by
      rcases Manager.waiting_iff.mp hw with ⟨m, h⟩ | ⟨c, m, h⟩
      · exact ⟨m, Or.inl h⟩
      · exact ⟨m, Or.inr ⟨c, h⟩⟩
    obtain ⟨m, hwant⟩ := hwant
    obtain ⟨_, site, site', hblocked, hretry⟩ := wants_of_listed hσ.manager hx.listed hwant
    have hclient : σ'.clients q = (σ.clients q).received.reply EINTR := by
      rw [h.client_of_mem hσ hlive hmem, if_neg hs, Process.received_of_blocked hblocked]
    rw [hclient, h.next]
    refine .replied hgone ?_
    rw [hblocked]
    exact .interrupted hretry howns

/-- **What a handled message does to a live process**. -/
theorem Serves.client (hσ : Inv σ) (h : Serves σ r out σ') (hlive : q ∉ σ'.dead) :
    Change (abs σ.server) (abs σ'.server) q (σ.clients q) (σ'.clients q) := by
  by_cases hs : r.sender = some q
  · exact h.sender_change hσ hlive hs
  · exact h.bystander_change hσ hlive hs

end Serves

/-! ## §4 The invariant -/

section Invariant

variable [Minix] {σ σ' : State}

omit [Minix] in
theorem initial_inv (start koniec : Fin MAX_MUTEX → ℤ) (errno : ℤ → ℤ) :
    Inv (State.initial start koniec errno) where
  tables := initial_tableInv start koniec
  manager := by
    rw [State.initial, abs_initial]
    exact Manager.empty_wellFormed
  blocked p hw := by
    rw [State.initial, abs_initial] at hw
    exact absurd hw (Manager.not_waiting_empty p)
  agrees p _ := by
    rw [State.initial, abs_initial]
    refine agrees_idle (Manager.not_waiting_empty p) fun k => ?_
    simp [Took, Manager.Owns, Manager.empty]

/-- A handled message keeps the agreement of every process that survives it. -/
theorem Agrees.change {a a' : Manager} {q : ℤ} {x x' : Process} (hx : Agrees a q x)
    (h : Change a a' q x x') : Agrees a' q x' := by
  cases h with
  | kept howns hlisted =>
    exact ⟨hlisted, fun k => by rw [howns, hx.owns_iff], hx.released⟩
  | @queued site m hposted hw hqueue howns =>
    -- being received gives up nothing unless the request is a wait
    have hsame : ∀ k, Released k (.blocked site) ↔ Released k x.phase := by
      intro k
      rw [hposted]
      cases site <;> simp_all [wants, Released]
    refine ⟨?_, fun k => ?_, fun k hr => hx.released k ((hsame k).mp hr)⟩
    · cases site <;> simp_all [wants, ListedAs]
    · rw [howns, hx.owns_iff, hsame]
  | @registered c m hposted hown hreg howns =>
    refine ⟨Or.inl hreg, fun k => ?_, fun k hr => ?_⟩
    · rw [howns, hx.owns_iff, hposted]
      simp [Released, eq_comm]
    · obtain rfl : m = k := hr
      exact ((hx.owns_iff m).mp hown).1
  | replied hgone ho => exact hx.reply hgone ho

omit [Minix] in
/-- A call is local to its process. -/
theorem Inv.call (hσ : Inv σ) {p : ℤ} (hidle : (σ.clients p).phase = .idle) (k : Call) :
    Inv (σ.call p k) where
  tables := hσ.tables
  manager := hσ.manager
  blocked q hw := by
    -- whoever the server makes wait is blocked, and the caller is idle
    obtain ⟨site, hblocked⟩ := hσ.blocked q hw
    have hqp : q ≠ p := by
      intro heq
      subst heq
      simp [hidle] at hblocked
    exact ⟨site, by simpa [State.call, hqp] using hblocked⟩
  agrees q hq := by
    have hx := hσ.agrees q hq
    by_cases hqp : q = p
    · subst hqp
      have hφ := hx.listed
      rw [hidle] at hφ
      have hfree : ∀ m, ¬ Released m (.posted k.site) := by
        intro m
        cases k <;> simp [Call.site, Released]
      simp only [State.call, Function.update_self]
      refine ⟨hφ, fun m => ?_, fun m hr => absurd hr (hfree m)⟩
      have hout : ¬ Released m .idle := id
      rw [hx.owns_iff, hidle, Process.enter]
      simp only [hfree, hout, not_false_eq_true]
    · simpa [State.call, hqp] using hx

/-- **Step lemma**: every step keeps the agreement. -/
theorem Step.inv (hσ : Inv σ) {e : Event} (h : Step σ e σ') : Inv σ' := by
  rcases h.serves hσ with ⟨p, k, _, hidle, rfl⟩ | ⟨r, out, hserves⟩
  · exact hσ.call hidle k
  · refine ⟨hserves.tables, hserves.manager hσ, fun p hw => ?_, fun p hp => ?_⟩
    · -- whoever waits afterwards was not answered: it waited before, or has just sent
      have hwait := ((hserves.answers hσ).waiting_iff p).mp (hserves.next ▸ hw)
      rw [hserves.client_of_not_mem hwait.2.1]
      split_ifs with hs
      · obtain ⟨site, hposted, _⟩ := hserves.sender p hs
        exact ⟨site, by rw [Process.received_of_posted hposted]⟩
      · exact hσ.blocked p (hwait.1.resolve_right hs)
    · exact (hσ.agrees p (hserves.dead p hp).1).change (hserves.client hσ hp)

/-- **Run lemma**: the agreement holds in every state reached. -/
theorem Reachable.inv (hσ : Reachable σ) : Inv σ := by
  obtain ⟨start, koniec, errno, es, hrun⟩ := hσ
  exact hrun.invariant (fun _ _ _ hs hstep => hstep.inv hs) (initial_inv start koniec errno)

end Invariant

/-! ## §5 Mutual exclusion -/

section MutualExclusion

variable [Minix] {σ : State}

omit [Minix] in
/-- A process that holds a mutex owns it at the server. -/
theorem Inv.owns_of_holds (hσ : Inv σ) {p m : ℤ} (hp : p ∉ σ.dead)
    (h : (σ.clients p).Holds m) : σ.server.Owns p m := by
  rw [owns_iff hσ.tables, (hσ.agrees p hp).owns_iff]
  refine ⟨h.2, fun hr => h.1 ?_⟩
  unfold Released at hr
  split at hr
  · rename_i c k hphase
    exact ⟨.wait c k, c, Or.inr hphase, by rw [hr]; rfl⟩
  · rename_i c k hphase
    exact ⟨.relock c k, c, Or.inl hphase, by rw [hr]; rfl⟩
  · rename_i c k hphase
    exact ⟨.relock c k, c, Or.inr hphase, by rw [hr]; rfl⟩
  · exact hr.elim

omit [Minix] in
/-- The owner of a mutex holds it, or is about to wait with it. -/
theorem Inv.holds_of_owns (hσ : Inv σ) {p m : ℤ} (hp : p ∉ σ.dead) (h : σ.server.Owns p m) :
    (σ.clients p).Holds m ∨ ∃ c, (σ.clients p).phase = .posted (.wait c m) := by
  rw [owns_iff hσ.tables, (hσ.agrees p hp).owns_iff] at h
  obtain ⟨htook, hfree⟩ := h
  by_cases hposted : ∃ c, (σ.clients p).phase = .posted (.wait c m)
  · exact Or.inr hposted
  · left
    refine ⟨?_, htook⟩
    -- inside `cs_wait`, only a message not yet received leaves the mutex owned
    intro hex
    obtain ⟨site, c, hphase, hcall⟩ := hex
    cases site <;> simp only [Site.call, Call.csWait.injEq, reduceCtorEq] at hcall
    · obtain ⟨rfl, rfl⟩ := hcall
      rcases hphase with hphase | hphase
      · exact hposted ⟨_, hphase⟩
      · exact hfree (by rw [hphase]; rfl)
    · obtain ⟨rfl, rfl⟩ := hcall
      rcases hphase with hphase | hphase
      · exact hfree (by rw [hphase]; rfl)
      · exact hfree (by rw [hphase]; rfl)

/-- **Mutual exclusion as the clients see it**: in every state reached, at most one live
process holds a mutex; the server has recorded it as the owner; and whoever the server has
recorded holds the mutex, unless it has posted a wait with it that the server has not
received yet. -/
theorem mutual_exclusion (hσ : Reachable σ) (m : ℤ) :
    (∀ p q, p ∉ σ.dead → q ∉ σ.dead → (σ.clients p).Holds m → (σ.clients q).Holds m → p = q) ∧
    ∀ p, p ∉ σ.dead →
      ((σ.clients p).Holds m → σ.server.Owns p m) ∧
      (σ.server.Owns p m →
        (σ.clients p).Holds m ∨ ∃ c, (σ.clients p).phase = .posted (.wait c m)) := by
  have hinv := hσ.inv
  refine ⟨fun p q hp hq hpm hqm => ?_, fun p hp => ⟨hinv.owns_of_holds hp, hinv.holds_of_owns hp⟩⟩
  have hown := (owns_iff hinv.tables).mp (hinv.owns_of_holds hp hpm)
  exact hown.unique ((owns_iff hinv.tables).mp (hinv.owns_of_holds hq hqm))

/-- A process calls `cs_lock`, and the server receives its request. -/
theorem exists_asked (hσ : Reachable σ) {p m : ℤ} (hlive : p ∉ σ.dead)
    (hidle : (σ.clients p).phase = .idle) (hfits : Fits ((abs σ.server).next (.lock p m))) :
    ∃ out σ', Reachable σ' ∧ Inv (σ.call p (.csLock m)) ∧
      Serves (σ.call p (.csLock m)) (.lock p m) out σ' ∧
      σ'.dead = σ.dead ∧ SameSentinels σ.server σ'.server := by
  have hσ₁ := hσ.snoc (Step.call (k := .csLock m) hlive hidle)
  have hposted : ((σ.call p (.csLock m)).clients p).phase = .posted (.lock m) := by
    simp [State.call, Process.enter, Call.site]
  have hfits' : Fits ((abs (σ.call p (.csLock m)).server).next ((Site.lock m).message p).request) := by
    rw [message_request]
    exact hfits
  obtain ⟨⟨s, out⟩, hok⟩ := (obsluz_ok_iff hσ₁.inv.tables).mpr hfits'
  exact ⟨out, _, hσ₁.snoc (.receive hposted hok), hσ₁.inv, serves_of_receive hσ₁.inv hposted hok,
    rfl, (Handled.of_ok hσ₁.inv.tables (site_blind p (.lock m) _) hok).sentinels⟩

/-- One call of `cs_lock` on a fresh system. -/
theorem exists_first_lock (p m : ℤ) :
    ∃ σ, Reachable σ ∧ σ.dead = ∅ ∧ (∀ q, (σ.clients q).phase = .idle) ∧
      abs σ.server = ⟨PartialMap.empty.set m (some (p, [])), PartialMap.empty⟩ ∧
      ∀ i, (σ.server.M i).kolejka.start = 0 := by
  have hσ₀ : Reachable (State.initial (fun _ => 0) (fun _ => 0) (fun _ => 0)) :=
    ⟨_, _, _, [], .nil _⟩
  have hzero : ∀ i, ((State.initial (fun _ => 0) (fun _ => 0) (fun _ => 0)).server.M i).kolejka.start
      = 0 := fun _ => rfl
  -- the initial state is only known through these facts from here on
  generalize hinit : State.initial (fun _ => 0) (fun _ => 0) (fun _ => 0) = σ₀ at hσ₀ hzero
  have hdead : σ₀.dead = ∅ := by rw [← hinit]; rfl
  have hidle : ∀ q, (σ₀.clients q).phase = .idle := by rw [← hinit]; exact fun _ => rfl
  have habs : abs σ₀.server = Manager.empty := by
    rw [← hinit]
    exact abs_initial _ _
  have hnone : (abs σ₀.server).mutexes.get m = none := by simp [habs, Manager.empty]
  have hfits : Fits ((abs σ₀.server).next (.lock p m)) :=
    hσ₀.inv.tables.fits.lock_free hnone (by simp [habs, Manager.empty, MAX_MUTEX])
  obtain ⟨out, σ, hσ, hinv, hserves, hd, hsame⟩ :=
    exists_asked hσ₀ (by simp [hdead]) (hidle p) hfits
  -- the mutex is free, so the reply is immediate
  have hrep := hserves.replies
  have hserver : (σ₀.call p (.csLock m)).server = σ₀.server := rfl
  rw [Manager.Replies, hserver, Manager.lock_of_none hnone] at hrep
  refine ⟨σ, hσ, by rw [hd, hdead], fun q => ?_, ?_, fun i => ?_⟩
  · by_cases hq : q = p
    · subst hq
      have hposted : ((σ₀.call q (.csLock m)).clients q).phase = .posted (.lock m) := by
        simp [State.call, Process.enter, Call.site]
      have hout : ⟨0, q⟩ ∈ out := by simp [hrep, OK]
      rw [hserves.client_of_mem hinv (by simp [hd, hdead]) hout, Request.sender, if_pos rfl,
        Process.received_of_posted hposted, Process.reply_zero rfl]
    · rw [hserves.client_of_not_mem (by simp [hrep, hq]), Request.sender, if_neg (by simp [Ne.symm hq])]
      simpa [State.call, hq] using hidle q
  · rw [hserves.next, Manager.next, hserver, Manager.lock_of_none hnone, habs]
    rfl
  · rw [hsame i, hzero i]

theorem exists_owner (p m : ℤ) :
    ∃ σ, Reachable σ ∧ p ∉ σ.dead ∧ (σ.clients p).phase = .idle ∧ σ.server.Owns p m := by
  obtain ⟨σ, hσ, hdead, hidle, habs, -⟩ := exists_first_lock p m
  refine ⟨σ, hσ, by simp [hdead], hidle p, ?_⟩
  rw [owns_iff hσ.inv.tables, habs]
  exact ⟨[], by simp⟩

end MutualExclusion

theorem mutual_exclusion_first_lock :
    letI := Minix.v321
    ∃ σ, Reachable σ ∧ σ.server.Owns 1 7 ∧ (σ.clients 1).Holds 7 ∧
      ∀ q, q ∉ σ.dead → (σ.clients q).Holds 7 → q = 1 := by
  let _ := Minix.v321
  obtain ⟨σ, hσ, hlive, hidle, hown⟩ := exists_owner 1 7
  obtain ⟨hunique, hagree⟩ := mutual_exclusion hσ 7
  have hholds : (σ.clients 1).Holds 7 := by
    rcases (hagree 1 hlive).2 hown with h | ⟨c, h⟩
    · exact h
    · simp [hidle] at h
  exact ⟨σ, hσ, hown, hholds, fun q hq h => hunique q 1 hq hlive h hholds⟩

end MinixCv.System

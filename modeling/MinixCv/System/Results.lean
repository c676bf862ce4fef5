import MinixCv.System.Agreement

/-!
# The Results Of The Calls

The comments of `cv.c` say what every call returns and when it sets `errno`.  They are
right about every call but one: `cs_wait` without the mutex.

- `Documented`: the results and error numbers of the comments
- `InProgress`: what holds from a call on, in every run
- `results_documented_iff`: a call ends as documented, in every run, unless it is a
  `cs_wait` with a mutex that the process does not own
-/

namespace MinixCv.System

open MinixCv.Lib MinixCv.LockManager MinixCv.Server MinixCv.Client

/-! ## §1 The documented results -/

/-- What a call returns, and `errno` where it returns `-1`, for a process that `owns` these
    mutexes when it makes the call. -/
def Documented [Minix] (owns : ℤ → Prop) : Call → ℤ → ℤ → Prop
  | .csLock m, result, errno =>
    (owns m → result = -1 ∧ errno = Minix.EPERM) ∧ (¬ owns m → result = 0)
  | .csUnlock m, result, errno =>
    (owns m → result = 0) ∧ (¬ owns m → result = -1 ∧ errno = Minix.EPERM)
  | .csWait _ m, result, errno =>
    (owns m → result = 0) ∧ (¬ owns m → result = -1 ∧ errno = Minix.EINVAL)
  | .csBroadcast _, result, _ => result = 0

/-- Where the server lists a process whose call it has received and not answered. -/
def Pending (s : ServerState) (p : ℤ) : Call → Prop
  | .csLock m => s.Queued p m
  | .csWait c m => s.Registered p c m ∨ s.Queued p m
  | .csUnlock _ | .csBroadcast _ => False

/-- In every run that goes on from the call `k` of `p` in `σ`, the call ends as documented;
    and while it has not ended and `p` lives, the message last sent for it waits to be
    received or the server lists `p` as waiting for what the call is about. -/
structure ResultsDocumented [Minix] (σ : State) (p : ℤ) (k : Call) : Prop where
  result : ∀ es σ', Run Step (σ.call p k) es σ' →
    ∀ d, (σ'.clients p).history = d :: (σ.clients p).history →
      d.call = k ∧ Documented (σ.server.Owns p) k d.result d.errno
  returns : ∀ es σ', Run Step (σ.call p k) es σ' →
    (σ'.clients p).history = (σ.clients p).history → p ∉ σ'.dead →
      (∃ site, site.call = k ∧ (σ'.clients p).phase = .posted site) ∨ Pending σ'.server p k

/-- A `cs_wait` of a process that does not own the mutex. -/
def WaitsWithout (owns : ℤ → Prop) (k : Call) : Prop := ∃ c m, k = .csWait c m ∧ ¬ owns m

section Results

variable [Minix] {σ σ' : State} {p : ℤ} {k : Call}

/-! ## §2 The history only grows -/

theorem reply_history (x : Process) (typ : ℤ) : x.history <:+ (x.reply typ).history := by
  unfold Process.reply
  split
  · dsimp only
    split
    · exact List.suffix_refl _
    · exact List.suffix_cons _ _
  · exact List.suffix_refl _

omit [Minix] in
theorem received_history (x : Process) : x.received.history = x.history := by
  unfold Process.received
  split <;> rfl

theorem deliverAll_history (dead : Finset ℤ) (clients : ℤ → Process) (out : List Reply) :
    (clients p).history <:+ (deliverAll dead clients out p).history := by
  unfold deliverAll
  induction out generalizing clients with
  | nil => exact List.suffix_refl _
  | cons r out ih =>
    refine List.IsSuffix.trans ?_ (ih (deliver dead clients r))
    by_cases hp : p = r.dokad
    · subst hp
      unfold deliver
      split_ifs
      · exact List.suffix_refl _
      · rw [Function.update_self]
        exact reply_history _ _
    · rw [deliver_of_ne hp]

theorem Serves.history {r : Request} {out : List Reply} (h : Serves σ r out σ') (p : ℤ) :
    (σ.clients p).history <:+ (σ'.clients p).history := by
  rw [h.clients]
  refine List.IsSuffix.trans ?_ (deliverAll_history σ'.dead _ out)
  split_ifs
  · rw [received_history]
  · exact List.suffix_refl _

theorem Serves.history_dead {r : Request} {out : List Reply} (h : Serves σ r out σ')
    (hp : p ∈ σ'.dead) : (σ'.clients p).history = (σ.clients p).history := by
  rw [h.clients, deliverAll_dead hp]
  split_ifs
  · rw [received_history]
  · rfl

omit [Minix] in
theorem call_history (q : ℤ) (k' : Call) :
    ((σ.call q k').clients p).history = (σ.clients p).history := by
  by_cases hp : p = q
  · simp [State.call, hp, Process.enter]
  · simp [State.call, hp]

/-! ## §3 One reply -/

/-- The process is inside the call `k`. -/
def Inside (x : Process) (k : Call) : Prop :=
  ∃ site, site.call = k ∧ (x.phase = .posted site ∨ x.phase = .blocked site)

/-- The call `k`, made with the history `h`, has ended as documented. -/
def Ended (h : List Completed) (k : Call) (x : Process) : Prop :=
  ∃ d, d.call = k ∧ Documented (Took h) k d.result d.errno ∧ (d :: h) <:+ x.history

private theorem ended_cons {h : List Completed} {φ : Phase} {r e e' : ℤ}
    (hd : Documented (Took h) k r e) : Ended h k ⟨φ, e', ⟨k, r, e⟩ :: h⟩ :=
  ⟨_, rfl, hd, List.suffix_refl _⟩

/-- Whoever is handed a mutex had called `cs_lock` without it or `cs_wait` with it. -/
private theorem granted_documented {a : Manager} {x : Process} {site : Site} {m e : ℤ}
    (hx : Agrees a p x) (hphase : x.phase = .posted site ∨ x.phase = .blocked site)
    (hw : wants x.phase = some m) (hnot : ¬ a.Owns p m) :
    Documented (Took x.history) site.call 0 e := by
  -- not owning `m` means not holding it, or having released it in `cs_wait`
  have hmutex : ¬ Took x.history m ∨ Released m x.phase := by
    rw [hx.owns_iff] at hnot
    tauto
  have hreleased := hx.released m
  cases site with
  | lock k =>
    have hk : k = m := by rcases hphase with h | h <;> simpa [h, wants] using hw
    have hfree : ¬ Released m x.phase := by rcases hphase with h | h <;> simp [h, Released]
    subst hk
    exact ⟨fun h => absurd h (hmutex.resolve_right hfree), fun _ => rfl⟩
  | wait c k =>
    have hk : k = m ∧ Released m x.phase := by
      rcases hphase with h | h <;> simp_all [wants, Released]
    obtain ⟨rfl, hr⟩ := hk
    exact ⟨fun _ => rfl, fun h => absurd (hreleased hr) h⟩
  | relock c k =>
    have hk : k = m ∧ Released m x.phase := by
      rcases hphase with h | h <;> simp_all [wants, Released]
    obtain ⟨rfl, hr⟩ := hk
    exact ⟨fun _ => rfl, fun h => absurd (hreleased hr) h⟩
  | unlock k => rcases hphase with h | h <;> simp [h, wants] at hw
  | broadcast c => rcases hphase with h | h <;> simp [h, wants] at hw

/-- Whoever asks for a mutex of its own had called `cs_lock` with it. -/
private theorem reentered_documented {a : Manager} {x : Process} {site : Site} {m : ℤ}
    (hx : Agrees a p x) (hphase : x.phase = .posted site ∨ x.phase = .blocked site)
    (hw : wants x.phase = some m) (hown : a.Owns p m) :
    Documented (Took x.history) site.call (-1) Minix.EPERM := by
  obtain ⟨htook, hfree⟩ := (hx.owns_iff m).mp hown
  cases site with
  | lock k =>
    have hk : k = m := by rcases hphase with h | h <;> simpa [h, wants] using hw
    subst hk
    exact ⟨fun _ => ⟨rfl, rfl⟩, fun h => absurd htook h⟩
  | wait c k => rcases hphase with h | h <;> simp_all [wants, Released]
  | relock c k => rcases hphase with h | h <;> simp_all [wants, Released]
  | unlock k => rcases hphase with h | h <;> simp [h, wants] at hw
  | broadcast c => rcases hphase with h | h <;> simp [h, wants] at hw

omit [Minix] in
private theorem site_unique {x : Process} {site site' : Site}
    (h : x.phase = .posted site ∨ x.phase = .blocked site)
    (h' : x.phase = .posted site' ∨ x.phase = .blocked site') : site = site' := by
  rcases h with h | h <;> rcases h' with h' | h' <;> simp_all

omit [Minix] in
private theorem retry_call {site site' : Site} (h : site.retry = some site') :
    site'.call = site.call := by
  cases site <;> simp only [Site.retry, Option.some.injEq, reduceCtorEq] at h <;> subst h <;> rfl

/-- A reply ends the call as documented or makes the library go on with it, unless the call
is a `cs_wait` without the mutex. -/
private theorem reply_result {a a' : Manager} {x : Process} {typ : ℤ} (hx : Agrees a p x)
    (ho : Outcome a a' p x.phase typ) (hin : Inside x k)
    (hk : ¬ WaitsWithout (Took x.history) k) :
    ((x.received.reply typ).history = x.history ∧ Inside (x.received.reply typ) k) ∨
      Ended x.history k (x.received.reply typ) := by
  obtain ⟨site, rfl, hphase⟩ := hin
  have hrec : x.received = { x with phase := .blocked site } := by
    rcases hphase with h | h
    · exact Process.received_of_posted h
    · rw [Process.received_of_blocked h, ← h]
  -- a posted request owns what its process believes to hold
  have hposted : ∀ {φ}, x.phase = φ → (∀ m, ¬ Released m φ) → ∀ m, a.Owns p m ↔ Took x.history m :=
    fun hφ hfree m => by simp [hx.owns_iff, hφ, hfree]
  generalize hφ : x.phase = φ at ho
  cases ho with
  | granted hw hnot _ =>
    rw [hrec, Process.reply_zero rfl]
    exact Or.inr (ended_cons (granted_documented hx hphase (hφ ▸ hw) hnot))
  | reentered hw hown _ =>
    rw [hrec, Process.reply_EPERM rfl]
    exact Or.inr (ended_cons (reentered_documented hx hphase (hφ ▸ hw) hown))
  | @interrupted site₁ site' hr _ =>
    obtain rfl := site_unique hphase (Or.inr hφ)
    rw [hrec, Process.reply_EINTR rfl hr]
    exact Or.inl ⟨rfl, site', retry_call hr, Or.inl rfl⟩
  | @unlocked m hown _ =>
    obtain rfl := site_unique hphase (Or.inl hφ)
    have htook := (hposted hφ (by simp [Released]) m).mp hown
    rw [hrec, Process.reply_zero rfl]
    exact Or.inr (ended_cons ⟨fun _ => rfl, fun h => absurd htook h⟩)
  | @refusedUnlock m hown _ =>
    obtain rfl := site_unique hphase (Or.inl hφ)
    rw [hposted hφ (by simp [Released])] at hown
    rw [hrec, Process.reply_EPERM rfl]
    exact Or.inr (ended_cons ⟨fun h => absurd h hown, fun _ => ⟨rfl, rfl⟩⟩)
  | @refusedWait c m hown _ =>
    obtain rfl := site_unique hphase (Or.inl hφ)
    rw [hposted hφ (by simp [Released])] at hown
    exact absurd ⟨c, m, rfl, hown⟩ hk
  | @announced c _ =>
    obtain rfl := site_unique hphase (Or.inl hφ)
    rw [hrec, Process.reply_zero rfl]
    exact Or.inr (ended_cons rfl)

/-! ## §4 One call, in every run -/

/-- A call `k` of `p`, made with the history `h`: it goes on or has ended as documented. -/
def InProgress (p : ℤ) (k : Call) (h : List Completed) (σ : State) : Prop :=
  ((σ.clients p).history = h ∧ (p ∉ σ.dead → Inside (σ.clients p) k)) ∨ Ended h k (σ.clients p)

theorem documented_congr {owns owns' : ℤ → Prop} (h : ∀ m, owns m ↔ owns' m) {r e : ℤ} :
    Documented owns k r e ↔ Documented owns' k r e := by
  cases k <;> simp [Documented, h]

private theorem change_inProgress {a a' : Manager} {x x' : Process} (hx : Agrees a p x)
    (h : Change a a' p x x') (hin : Inside x k) (hk : ¬ WaitsWithout (Took x.history) k) :
    (x'.history = x.history ∧ Inside x' k) ∨ Ended x.history k x' := by
  obtain ⟨site, hcall, hphase⟩ := hin
  cases h with
  | kept _ _ => exact Or.inl ⟨rfl, site, hcall, hphase⟩
  | queued hposted _ _ _ =>
    obtain rfl := site_unique hphase (Or.inl hposted)
    exact Or.inl ⟨rfl, site, hcall, Or.inr rfl⟩
  | registered hposted _ _ _ =>
    obtain rfl := site_unique hphase (Or.inl hposted)
    exact Or.inl ⟨rfl, _, hcall, Or.inr rfl⟩
  | replied _ ho => exact reply_result hx ho ⟨site, hcall, hphase⟩ hk

/-- **Step lemma**: a call goes on or ends as documented. -/
theorem Step.inProgress (hσ : Inv σ) {e : Event} (h : Step σ e σ') {hist : List Completed}
    (hk : ¬ WaitsWithout (Took hist) k) (hp : InProgress p k hist σ) : InProgress p k hist σ' := by
  rcases h.serves hσ with ⟨q, k', _, hidle, rfl⟩ | ⟨r, out, hserves⟩
  · rcases hp with ⟨hhist, hin⟩ | ⟨d, hcall, hdoc, hsuffix⟩
    · refine Or.inl ⟨by rw [call_history, hhist], fun hlive => ?_⟩
      -- a process inside a call does not make another one
      have hpq : p ≠ q := by
        intro heq
        subst heq
        obtain ⟨site, _, hphase | hphase⟩ := hin hlive <;> simp [hidle] at hphase
      have hsame : (σ.call q k').clients p = σ.clients p := by simp [State.call, hpq]
      rw [hsame]
      exact hin hlive
    · exact Or.inr ⟨d, hcall, hdoc, by rwa [call_history]⟩
  · rcases hp with ⟨hhist, hin⟩ | ⟨d, hcall, hdoc, hsuffix⟩
    · -- the dead stop where they are; the others are changed by the message
      by_cases hdead : p ∈ σ'.dead
      · exact Or.inl ⟨by rw [hserves.history_dead hdead, hhist], fun h => absurd hdead h⟩
      · subst hhist
        have hlive := (hserves.dead p hdead).1
        rcases change_inProgress (hσ.agrees p hlive) (hserves.client hσ hdead) (hin hlive) hk with
          ⟨hsame, hinside⟩ | hended
        · exact Or.inl ⟨hsame, fun _ => hinside⟩
        · exact Or.inr hended
    · exact Or.inr ⟨d, hcall, hdoc, hsuffix.trans (hserves.history p)⟩

/-- **Run lemma**: so it does in every run. -/
theorem run_inProgress {es : List Event} (h : Run Step σ es σ') (hσ : Inv σ)
    {hist : List Completed} (hk : ¬ WaitsWithout (Took hist) k) (hp : InProgress p k hist σ) :
    Inv σ' ∧ InProgress p k hist σ' :=
  h.invariant (I := fun σ => Inv σ ∧ InProgress p k hist σ)
    (fun _ _ _ hs hstep => ⟨hstep.inv hs.1, hstep.inProgress hs.1 hk hs.2⟩) ⟨hσ, hp⟩

omit [Minix] in
/-- A blocked call is listed where it should be. -/
theorem Inv.pending (hσ : Inv σ) (hlive : p ∉ σ.dead) {site : Site}
    (hphase : (σ.clients p).phase = .blocked site) : Pending σ.server p site.call := by
  have hlisted := (hσ.agrees p hlive).listed
  rw [hphase] at hlisted
  cases site with
  | lock m => exact (queued_iff hσ.tables).mpr hlisted
  | relock c m => exact Or.inr ((queued_iff hσ.tables).mpr hlisted)
  | wait c m =>
    rcases hlisted with h | h
    · exact Or.inl ((registered_iff hσ.tables).mpr h)
    · exact Or.inr ((queued_iff hσ.tables).mpr h)
  | unlock m => exact hlisted.elim
  | broadcast c => exact hlisted.elim

omit [Minix] in
/-- Outside the library a process owns what it believes to hold. -/
theorem Inv.took_iff (hσ : Inv σ) (hlive : p ∉ σ.dead) (hidle : (σ.clients p).phase = .idle)
    (m : ℤ) : Took (σ.clients p).history m ↔ σ.server.Owns p m := by
  have hout : ¬ Released m .idle := id
  rw [owns_iff hσ.tables, (hσ.agrees p hlive).owns_iff, hidle]
  simp only [hout, not_false_eq_true, and_true]

omit [Minix] in
theorem call_posted (σ : State) (p : ℤ) (k : Call) :
    ((σ.call p k).clients p).phase = .posted k.site := by
  simp [State.call, Process.enter]

/-- A `cs_wait` without the mutex returns the positive `EINVAL` and sets nothing. -/
theorem wait_without_returns (hσ : Inv σ) (hlive : p ∉ σ.dead)
    (hidle : (σ.clients p).phase = .idle) {c m : ℤ} (hown : ¬ σ.server.Owns p m) :
    ∃ σ', Step (σ.call p (.csWait c m)) (.receive p) σ' ∧
      (σ'.clients p).history =
        ⟨.csWait c m, Minix.EINVAL, (σ.clients p).errno⟩ :: (σ.clients p).history := by
  have hσ₁ := hσ.call hidle (.csWait c m)
  have hposted : ((σ.call p (.csWait c m)).clients p).phase = .posted (.wait c m) :=
    call_posted σ p _
  rw [owns_iff hσ.tables] at hown
  -- the server refuses, with the negative number that the library negates
  have hwait : (abs (σ.call p (.csWait c m)).server).wait p c m =
      (abs σ.server, [⟨-EINVAL, p⟩]) := Manager.wait_of_not_owns hown
  have hfits : Fits ((abs (σ.call p (.csWait c m)).server).next (siteRequest p (.wait c m))) := by
    rw [siteRequest, Manager.next, hwait]
    exact hσ.tables.fits
  obtain ⟨s, out, hstep, hserves⟩ := exists_receive hσ₁ hposted hfits
  have hrep := hserves.replies
  rw [siteRequest, Manager.Replies, hwait] at hrep
  have hout : ⟨-EINVAL, p⟩ ∈ out := by simp [hrep]
  refine ⟨_, hstep, ?_⟩
  rw [hserves.client_of_mem hσ₁ hlive hout, siteRequest_sender, if_pos rfl,
    Process.received_of_posted hposted, Process.reply_neg_EINVAL rfl]
  simp [State.call, Process.enter]

/-! ## §5 When the results are the documented ones -/

/-- **Results of the calls**: in every state reached, a call of a live process ends as
documented in every run that goes on from there, however often it is interrupted, if and
only if it is not a `cs_wait` with a mutex that the process does not own. -/
theorem results_documented_iff (hσ : Reachable σ) (hlive : p ∉ σ.dead)
    (hidle : (σ.clients p).phase = .idle) (k : Call) :
    ResultsDocumented σ p k ↔ ¬ ∃ c m, k = .csWait c m ∧ ¬ σ.server.Owns p m := by
  have hinv := hσ.inv
  have htook := hinv.took_iff hlive hidle
  constructor
  · intro hdoc hex
    obtain ⟨c, m, rfl, hown⟩ := hex
    obtain ⟨σ', hstep, hhist⟩ := wait_without_returns (c := c) hinv hlive hidle hown
    obtain ⟨_, _, hresult⟩ := hdoc.result _ σ' (.cons hstep (.nil σ')) _ hhist
    have hpos := Minix.EINVAL_pos
    have hneg : Minix.EINVAL = -1 := (hresult hown).1
    omega
  · intro hk
    have hk' : ¬ WaitsWithout (Took (σ.clients p).history) k := by
      intro hex
      obtain ⟨c, m, rfl, hnot⟩ := hex
      exact hk ⟨c, m, rfl, fun h => hnot ((htook m).mpr h)⟩
    -- the call starts with its first message posted
    have hstart : InProgress p k (σ.clients p).history (σ.call p k) := by
      refine Or.inl ⟨call_history p k, fun _ => ⟨k.site, ?_, Or.inl (call_posted σ p k)⟩⟩
      cases k <;> rfl
    have hrun := fun {es σ'} (h : Run Step (σ.call p k) es σ') =>
      run_inProgress h (hinv.call hidle k) hk' hstart
    constructor
    · intro es σ' h d hd
      rcases (hrun h).2 with ⟨hsame, _⟩ | ⟨d', hcall, hdoc, hsuffix⟩
      · simp [hd] at hsame
      · rw [hd] at hsuffix
        obtain ⟨rfl, _⟩ := List.cons.inj (hsuffix.eq_of_length rfl)
        exact ⟨hcall, (documented_congr htook).mp hdoc⟩
    · intro es σ' h hsame hlive'
      obtain ⟨hinv', ⟨_, hin⟩ | ⟨d, _, _, hsuffix⟩⟩ := hrun h
      · obtain ⟨site, rfl, hposted | hblocked⟩ := hin hlive'
        · exact Or.inl ⟨site, rfl, hposted⟩
        · exact Or.inr (hinv'.pending hlive' hblocked)
      · -- an ended call has left its entry behind
        rw [hsame] at hsuffix
        have hlen := hsuffix.length_le
        simp at hlen

end Results

theorem results_documented_unlock :
    letI := Minix.v321
    ∃ σ, Reachable σ ∧ σ.server.Owns 1 7 ∧ ResultsDocumented σ 1 (.csUnlock 7) := by
  let _ := Minix.v321
  obtain ⟨σ, hσ, hlive, hidle, hown⟩ := exists_owner 1 7
  refine ⟨σ, hσ, hown, (results_documented_iff hσ hlive hidle (.csUnlock 7)).mpr ?_⟩
  intro hex
  obtain ⟨c, m, h, _⟩ := hex
  simp at h

/-- The first process of a fresh system calls `cs_wait(3, 7)` with a mutex nobody has locked:
the call returns 22 and leaves `errno` alone. -/
theorem wait_without_mutex_returns_22 :
    letI := Minix.v321
    ∃ σ, Run Step (State.initial (fun _ => 0) (fun _ => 0) (fun _ => 0))
        [.call 1 (.csWait 3 7), .receive 1] σ ∧
      (σ.clients 1).history = [⟨.csWait 3 7, 22, 0⟩] ∧
      ¬ Documented ((State.initial (fun _ => 0) (fun _ => 0) (fun _ => 0)).server.Owns 1)
        (.csWait 3 7) 22 0 := by
  let _ := Minix.v321
  have hinv := initial_inv (fun _ => 0) (fun _ => 0) (fun _ => 0)
  have hown : ¬ (State.initial (fun _ => 0) (fun _ => 0) (fun _ => 0)).server.Owns 1 7 := by
    rw [owns_iff hinv.tables, State.initial, abs_initial]
    simp [Manager.Owns, Manager.empty]
  obtain ⟨σ, hstep, hhist⟩ := wait_without_returns (c := 3) hinv (Finset.notMem_empty 1) rfl hown
  refine ⟨σ, .cons (.call (Finset.notMem_empty 1) rfl) (.cons hstep (.nil σ)), hhist, ?_⟩
  intro hboth
  obtain ⟨_, h⟩ := hboth
  simpa using (h hown).1

end MinixCv.System

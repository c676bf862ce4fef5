import MinixCv.Lib.Monitor
import MinixCv.Lib.Run
import MinixCv.System.Agreement

/-!
# Programs On The Server

A program with one mutex and condition variables, whose processes call the library and ignore
what it returns, together with the server, PM and any other processes.

- `Step`: the processes of the program, the server, and everybody else
- `Fate`: what a message handled by the server does to a process of the program
- `Fate.agrees`: where the process goes on
-/

namespace MinixCv.Programs

open MinixCv.Lib MinixCv.Lib.Monitor MinixCv.LockManager MinixCv.Server MinixCv.Client

universe u v

variable {L : Type u} {S : Type v}

/-! ## §1 States and steps -/

/-- The call of the library behind an action, with the mutex `m`. -/
def libraryCall (m : ℤ) : Action ℤ L → Option Call
  | .lock _ => some (.csLock m)
  | .unlock _ => some (.csUnlock m)
  | .wait c _ => some (.csWait c m)
  | .broadcast c _ => some (.csBroadcast c)
  | .own => none

/-- The server with all its clients, where the processes of the program are, and the data. -/
structure State (L : Type u) (S : Type v) where
  sys : System.State
  place : ℤ → Option L
  shared : S

/-- A process whose call has returned in the step from `σ` to `σ'` goes on behind the call. -/
def advance (prog : Program ℤ L S) (σ σ' : System.State) (place : ℤ → Option L) (p : ℤ) :
    Option L :=
  if (σ.clients p).phase ≠ .idle ∧ (σ'.clients p).phase = .idle then
    (place p).map fun l => (prog.action l).next.getD l
  else place p

inductive Event where
  | own (p : ℤ)
  | fork (p q : ℤ)
  | call (p : ℤ)
  | other (p : ℤ) (k : Call)
  | serve (e : System.Event)
  | die (p : ℤ)
  deriving DecidableEq, Repr

/-- `p` is alive and has not called the library yet. -/
def Untouched (σ : System.State) (p : ℤ) : Prop :=
  p ∉ σ.dead ∧ (σ.clients p).phase = .idle ∧ (σ.clients p).history = []

/-- One step.  The server's steps are those of `System.Step`: its tables have room for every
    message, whoever sends it, no notification is led astray by a sentinel, and others only call
    the library.  A process outside the library takes a step of its own, perhaps a fork, or calls
    the library; any other process calls what it likes; the server handles a message.  A
    process of the program may be killed unless it holds the mutex, and the server is told of
    it later. -/
inductive Step [Minix] (prog : Program ℤ L S) (m : ℤ) (τ : State L S) :
    Event → State L S → Prop where
  | own {p : ℤ} {l l' : L} {s : S} : τ.place p = some l → (τ.sys.clients p).phase = .idle →
      prog.action l = .own → prog.step l τ.shared l' none s →
      Step prog m τ (.own p)
        { τ with place := Function.update τ.place p (some l'), shared := s }
  | fork {p q : ℤ} {l l' k : L} {s : S} : τ.place p = some l →
      (τ.sys.clients p).phase = .idle → prog.action l = .own →
      prog.step l τ.shared l' (some k) s → τ.place q = none → Untouched τ.sys q →
      Step prog m τ (.fork p q) { τ with
        place := Function.update (Function.update τ.place p (some l')) q (some k), shared := s }
  | call {p : ℤ} {l : L} {k : Call} {σ : System.State} : τ.place p = some l →
      libraryCall m (prog.action l) = some k → System.Step τ.sys (.call p k) σ →
      Step prog m τ (.call p) { τ with sys := σ }
  | other {p : ℤ} {k : Call} {σ : System.State} : τ.place p = none →
      System.Step τ.sys (.call p k) σ → Step prog m τ (.other p k) { τ with sys := σ }
  | serve {e : System.Event} {σ : System.State} : (∀ p k, e ≠ .call p k) →
      (∀ p, e = .exit p → τ.place p = none) → System.Step τ.sys e σ →
      Step prog m τ (.serve e) ⟨σ, advance prog τ.sys σ τ.place, τ.shared⟩
  | die {p : ℤ} {l : L} : τ.place p = some l → prog.ends l → ¬(τ.sys.clients p).Holds m →
      Step prog m τ (.die p) { τ with
        place := Function.update τ.place p none, shared := prog.death l τ.shared }

/-- The program has just been started as process `p` at `l`, and nobody asks for its mutex or
    its conditions in its name. -/
structure Starts [Minix] (p : ℤ) (l : L) (s : S) (τ : State L S) : Prop where
  sys : System.Reachable τ.sys
  untouched : Untouched τ.sys p
  place : τ.place = Function.update (fun _ => none) p (some l)
  shared : τ.shared = s

/-! ## §2 The processes of the program and the library -/

/-- The process is outside the library, or inside the call of its place. -/
def InCall (prog : Program ℤ L S) (m : ℤ) (l : L) (x : Process) : Prop :=
  x.phase ≠ .idle → ∃ site, (x.phase = .posted site ∨ x.phase = .blocked site) ∧
    libraryCall m (prog.action l) = some site.call

/-- What is known of the processes of the program. -/
structure Inv [Minix] {prog : Program ℤ L S} (d : Discipline prog) (m : ℤ) (τ : State L S) :
    Prop where
  reachable : System.Reachable τ.sys
  alive : ∀ {p l}, τ.place p = some l → p ∉ τ.sys.dead
  inCall : ∀ {p l}, τ.place p = some l → InCall prog m l (τ.sys.clients p)
  took_iff : ∀ {p l}, τ.place p = some l → (Took (τ.sys.clients p).history m ↔ d.inside l)

theorem InCall.site {prog : Program ℤ L S} {m : ℤ} {l : L} {x : Process}
    (h : InCall prog m l x) {site : Site}
    (hphase : x.phase = .posted site ∨ x.phase = .blocked site) :
    x.phase ≠ .idle ∧ libraryCall m (prog.action l) = some site.call := by
  have hne : x.phase ≠ .idle := by
    rcases hphase with hphase | hphase <;> simp [hphase]
  obtain ⟨site', hphase', hcall⟩ := h hne
  obtain rfl : site = site' := by
    rcases hphase with hphase | hphase <;> simpa [hphase] using hphase'
  exact ⟨hne, hcall⟩

theorem libraryCall_lock {m k : ℤ} {a : Action ℤ L} (h : libraryCall m a = some (.csLock k)) :
    k = m ∧ ∃ l, a = .lock l := by
  cases a <;> simp_all [libraryCall]

theorem libraryCall_unlock {m k : ℤ} {a : Action ℤ L}
    (h : libraryCall m a = some (.csUnlock k)) : k = m ∧ ∃ l, a = .unlock l := by
  cases a <;> simp_all [libraryCall]

theorem libraryCall_wait {m c k : ℤ} {a : Action ℤ L}
    (h : libraryCall m a = some (.csWait c k)) : k = m ∧ ∃ l, a = .wait c l := by
  cases a <;> simp_all [libraryCall]

theorem libraryCall_broadcast {m c : ℤ} {a : Action ℤ L}
    (h : libraryCall m a = some (.csBroadcast c)) : ∃ l, a = .broadcast c l := by
  cases a <;> simp_all [libraryCall]

/-- Where the library is not called, a process takes steps of its own. -/
theorem own_of_no_call {m : ℤ} {a : Action ℤ L} (h : ∀ k, libraryCall m a ≠ some k) :
    a = .own := by
  cases a with
  | own => rfl
  | lock _ => exact absurd rfl (h (.csLock m))
  | unlock _ => exact absurd rfl (h (.csUnlock m))
  | wait c _ => exact absurd rfl (h (.csWait c m))
  | broadcast c _ => exact absurd rfl (h (.csBroadcast c))

/-- Nothing happens to a process that stays where it is, or its message is put into the queue of
    the mutex, or it is interrupted. -/
def Lingers (m : ℤ) (a' : Manager) (r : Request) (q : ℤ) (x x' : Process) : Prop :=
  x' = x ∨ (∃ site, x.phase = .posted site ∧ System.wants (.posted site) = some m ∧
    x'.phase = .blocked site ∧ q ∈ a'.queue m) ∨ r = .interrupt q

/-- What a message handled by the server does to a process `q` of the program at `l`.  The
    last four say that `q` returns from its call, except that `sleeps` leaves it there. -/
inductive Fate (prog : Program ℤ L S) (m : ℤ) (a a' : Manager) (r : Request) (q : ℤ) (l : L)
    (x x' : Process) : Prop where
  | stays : (x'.phase = .idle ↔ x.phase = .idle) → InCall prog m l x' → x'.history = x.history →
      (a'.Owns q m ↔ a.Owns q m) → Lingers m a' r q x x' → Fate prog m a a' r q l x x'
  | takes {l' : L} : (prog.action l = .lock l' ∨ ∃ c, prog.action l = .wait c l') →
      x.phase ≠ .idle → x'.phase = .idle → ¬a.Owns q m → a'.Owns q m → Took x'.history m →
      System.wants x.phase = some m → Fate prog m a a' r q l x x'
  | frees {l' : L} : r = .unlock q m → prog.action l = .unlock l' → x.phase ≠ .idle →
      x'.phase = .idle → a.Owns q m → ¬a'.Owns q m → ¬Took x'.history m →
      Fate prog m a a' r q l x x'
  | sleeps {c : ℤ} {l' : L} : r = .wait q c m → prog.action l = .wait c l' →
      x.phase ≠ .idle → x'.phase ≠ .idle → InCall prog m l x' → x'.history = x.history →
      a.Owns q m → ¬a'.Owns q m → x'.phase = .blocked (.wait c m) → (q, m) ∈ a'.waiters c →
      Fate prog m a a' r q l x x'
  | announces {c : ℤ} {l' : L} : r = .broadcast q c → prog.action l = .broadcast c l' →
      x.phase ≠ .idle → x'.phase = .idle → (a'.Owns q m ↔ a.Owns q m) →
      (Took x'.history m ↔ Took x.history m) → Fate prog m a a' r q l x x'

section Fates

variable [Minix] {prog : Program ℤ L S} {d : Discipline prog} {m : ℤ} {τ : State L S}
  {σ' : System.State} {r : Request} {out : List Reply} {q : ℤ} {l : L}

/-- A process whose message has not been received is sent nothing. -/
theorem posted_bystander {σ : System.State} (hσ : System.Inv σ) (h : System.Serves σ r out σ')
    (hs : r.sender ≠ some q) {site : Site} (hposted : (σ.clients q).phase = .posted site) :
    σ'.clients q = σ.clients q := by
  have hmem : q ∉ out.map (·.dokad) := by
    intro hmem
    rcases ((h.answers hσ).recipient q hmem).1 with hw | hsender
    · obtain ⟨site', hblocked⟩ := hσ.blocked q hw
      simp [hposted] at hblocked
    · exact hs hsender
  rw [h.client_of_not_mem hmem, if_neg hs]

omit [Minix] in
/-- Who sits at this place of the library has given up the mutex only inside `cs_wait`. -/
theorem owns_of_posted {a : Manager} {x : Process} (hx : System.Agrees a q x) {site : Site}
    (hposted : x.phase = .posted site) (hsite : ∀ c k, site ≠ .relock c k)
    (htook : Took x.history m) : a.Owns q m := by
  rw [hx.owns_iff, hposted]
  refine ⟨htook, ?_⟩
  cases site <;> simp_all [System.Released]

/-- The owner of the mutex that asks again at a place of the program: there is no such place. -/
theorem not_reentered (hτ : Inv d m τ) (hq : τ.place q = some l) {k : ℤ}
    (hw : System.wants (τ.sys.clients q).phase = some k) : ¬(abs τ.sys.server).Owns q m := by
  have hx := hτ.reachable.inv.agrees q (hτ.alive hq)
  intro hown
  obtain ⟨htook, hfree⟩ := (hx.owns_iff m).mp hown
  have hne : (τ.sys.clients q).phase ≠ .idle := by
    intro hidle
    simp [hidle, System.wants] at hw
  obtain ⟨site, hphase, hcall⟩ := hτ.inCall hq hne
  cases site with
  | lock j =>
    obtain ⟨-, l', ha⟩ := libraryCall_lock hcall
    exact (d.lock ha).1 ((hτ.took_iff hq).mp htook)
  | relock c j =>
    obtain ⟨rfl, -⟩ := libraryCall_wait hcall
    rcases hphase with hphase | hphase <;> simp [hphase, System.Released] at hfree
  | wait c j =>
    obtain ⟨rfl, -⟩ := libraryCall_wait hcall
    rcases hphase with hphase | hphase
    · simp [hphase, System.wants] at hw
    · simp [hphase, System.Released] at hfree
  | unlock j => rcases hphase with hphase | hphase <;> simp [hphase, System.wants] at hw
  | broadcast c => rcases hphase with hphase | hphase <;> simp [hphase, System.wants] at hw

omit [Minix] in
theorem received_eq {x : Process} {site : Site}
    (h : x.phase = .posted site ∨ x.phase = .blocked site) :
    x.received = { x with phase := .blocked site } := by
  rcases h with h | h
  · exact Process.received_of_posted h
  · rw [Process.received_of_blocked h, ← h]

omit [Minix] in
/-- The places of the library from which the mutex is asked for. -/
theorem asks_of_wants {x : Process} {site : Site}
    (hphase : x.phase = .posted site ∨ x.phase = .blocked site) {k : ℤ}
    (hw : System.wants x.phase = some k) :
    site.call = .csLock k ∨ ∃ c, site.call = .csWait c k := by
  cases site <;> rcases hphase with h | h <;> simp_all [System.wants, Site.call]

omit [Minix] in
/-- The mutex that a process of the program asks for is that of the program. -/
theorem wanted_eq {x : Process} {site : Site}
    (hphase : x.phase = .posted site ∨ x.phase = .blocked site)
    (hcall : libraryCall m (prog.action l) = some site.call) {k : ℤ}
    (hw : System.wants x.phase = some k) : k = m := by
  rcases asks_of_wants hphase hw with hsite | ⟨c, hsite⟩
  · exact (libraryCall_lock (hsite ▸ hcall)).1
  · exact (libraryCall_wait (hsite ▸ hcall)).1

/-- Who waits no more and has not got its mutex has been interrupted. -/
theorem interrupt_of_gone {σ : System.State} (hσ : System.Inv σ) (h : System.Serves σ r out σ')
    (hlive : q ∉ σ'.dead) (hw : (abs σ.server).Waiting q) (hgone : ¬(abs σ'.server).Waiting q)
    (howns : ∀ k, (abs σ'.server).Owns q k ↔ (abs σ.server).Owns q k) : r = .interrupt q := by
  rw [h.next] at hgone howns
  have hexit := (h.dead q hlive).2
  -- the mutex it has waited for is not its own, before or after
  have hnot : ∀ {k}, (q ∈ (abs σ.server).queue k ∨ ∃ c, (q, k) ∈ (abs σ.server).waiters c) →
      ¬((abs σ.server).next r).Owns q k := by
    intro k hk hown
    exact hσ.manager.wanted_not_owned hk ((howns k).mp hown)
  rcases Manager.waiting_iff.mp hw with ⟨k, hq⟩ | ⟨c, k, hc⟩
  · rcases Manager.next_queue h.replies hq with hq' | ⟨hown, -⟩ | hr | hr
    · exact absurd (Manager.waiting_of_queue hq') hgone
    · exact absurd hown (hnot (.inl hq))
    · exact hr
    · exact absurd hr hexit
  · rcases Manager.next_waiters h.replies hc with hc' | ⟨-, ⟨hown, -⟩ | hq'⟩ | hr | hr
    · exact absurd (Manager.waiting_of_waiters hc') hgone
    · exact absurd hown (hnot (.inr ⟨c, hc⟩))
    · exact absurd (Manager.waiting_of_queue hq') hgone
    · exact hr
    · exact absurd hr hexit

/-- **What a handled message does to a process of the program.** -/
theorem fate (hτ : Inv d m τ) (h : System.Serves τ.sys r out σ') (hq : τ.place q = some l)
    (hlive : q ∉ σ'.dead) :
    Fate prog m (abs τ.sys.server) (abs σ'.server) r q l (τ.sys.clients q) (σ'.clients q) := by
  have hσ := hτ.reachable.inv
  have hx := hσ.agrees q (hτ.alive hq)
  have hin := hτ.inCall hq
  -- who gives the mutex up has sent the request
  have hsender : ∀ {site}, (τ.sys.clients q).phase = .posted site →
      (abs τ.sys.server).Owns q m → ¬(abs σ'.server).Owns q m → r = System.siteRequest q site := by
    intro site hposted hown hlost
    have hs : r.sender = some q := by
      rw [h.next] at hlost
      rcases Manager.next_owns (r := r) hown with hkept | rfl | ⟨c, rfl⟩ | rfl
      · exact absurd hkept hlost
      · rfl
      · rfl
      · exact absurd rfl (h.dead q hlive).2
    obtain ⟨site', hposted', hr⟩ := h.sender q hs
    rw [hposted, Phase.posted.injEq] at hposted'
    rwa [hposted']
  generalize hx' : σ'.clients q = x'
  have hchange := h.client hσ hlive
  rw [hx'] at hchange
  cases hchange with
  | kept howns _ => exact .stays Iff.rfl hin rfl (howns m) (.inl rfl)
  | @queued site k hposted hw hqueue howns =>
    obtain ⟨hne, hcall⟩ := hin.site (.inl hposted)
    obtain rfl := wanted_eq (.inl hposted) hcall (hposted.symm ▸ hw)
    exact .stays (by simp [hposted]) (fun _ => ⟨site, .inr rfl, hcall⟩) rfl (howns k)
      (.inr (.inl ⟨site, hposted, hw, rfl, hqueue⟩))
  | @registered c k hposted hown hreg howns =>
    obtain ⟨hne, hcall⟩ := hin.site (.inl hposted)
    obtain ⟨rfl, l', ha⟩ := libraryCall_wait hcall
    have hlost : ¬(abs σ'.server).Owns q k := by simp [howns]
    exact .sleeps (hsender hposted hown hlost) ha hne (by simp)
      (fun _ => ⟨_, .inr rfl, hcall⟩) rfl hown hlost rfl hreg
  | @replied typ hgone ho =>
    generalize hφ : (τ.sys.clients q).phase = φ at ho
    cases ho with
    | @granted _ k hw hnot howns =>
      rw [← hφ] at hw
      have hne : (τ.sys.clients q).phase ≠ .idle := by
        intro hidle
        simp [hidle, System.wants] at hw
      obtain ⟨site, hphase, hcall⟩ := hin hne
      rw [received_eq hphase, Process.reply_zero rfl]
      rcases asks_of_wants hphase hw with hsite | ⟨c, hsite⟩
      · rw [hsite] at hcall ⊢
        obtain ⟨rfl, l', ha⟩ := libraryCall_lock hcall
        exact .takes (.inl ha) hne rfl hnot (by simp [howns])
          (by simp [took_cons, Call.mutex, Call.takes]) hw
      · rw [hsite] at hcall ⊢
        obtain ⟨rfl, l', ha⟩ := libraryCall_wait hcall
        exact .takes (.inr ⟨c, ha⟩) hne rfl hnot (by simp [howns])
          (by simp [took_cons, Call.mutex, Call.takes]) hw
    | @reentered _ k hw hown howns =>
      rw [← hφ] at hw
      have hne : (τ.sys.clients q).phase ≠ .idle := by
        intro hidle
        simp [hidle, System.wants] at hw
      obtain ⟨site, hphase, hcall⟩ := hin hne
      obtain rfl := wanted_eq hphase hcall hw
      exact absurd hown (not_reentered hτ hq hw)
    | @interrupted site site' hr howns =>
      obtain ⟨hne, hcall⟩ := hin.site (.inr hφ)
      rw [Process.received_of_blocked hφ, Process.reply_EINTR hφ hr]
      have hwaits : (abs τ.sys.server).Waiting q := by
        have hlisted := hx.listed
        rw [hφ] at hlisted
        cases site with
        | lock k => exact Manager.waiting_of_queue hlisted
        | relock c k => exact Manager.waiting_of_queue hlisted
        | wait c k =>
          rcases hlisted with hc | hk
          · exact Manager.waiting_of_waiters hc
          · exact Manager.waiting_of_queue hk
        | unlock k => exact hlisted.elim
        | broadcast c => exact hlisted.elim
      refine .stays (by simp [hφ]) (fun _ => ⟨site', .inl rfl, ?_⟩) rfl (howns m)
        (.inr (.inr (interrupt_of_gone hσ h hlive hwaits hgone howns)))
      rw [hcall]
      cases site <;> simp only [Site.retry, Option.some.injEq, reduceCtorEq] at hr <;>
        subst hr <;> rfl
    | @unlocked k hown howns =>
      obtain ⟨hne, hcall⟩ := hin.site (.inl hφ)
      obtain ⟨rfl, l', ha⟩ := libraryCall_unlock hcall
      have hlost : ¬(abs σ'.server).Owns q k := by simp [howns]
      rw [Process.received_of_posted hφ, Process.reply_zero rfl]
      exact .frees (hsender hφ hown hlost) ha hne rfl hown hlost
        (by simp [took_cons, Site.call, Call.mutex, Call.takes])
    | @refusedUnlock k hnot howns =>
      obtain ⟨hne, hcall⟩ := hin.site (.inl hφ)
      obtain ⟨rfl, l', ha⟩ := libraryCall_unlock hcall
      exact absurd (owns_of_posted hx hφ (by simp) ((hτ.took_iff hq).mpr (d.unlock ha).1)) hnot
    | @refusedWait c k hnot howns =>
      obtain ⟨hne, hcall⟩ := hin.site (.inl hφ)
      obtain ⟨rfl, l', ha⟩ := libraryCall_wait hcall
      exact absurd (owns_of_posted hx hφ (by simp) ((hτ.took_iff hq).mpr (d.wait ha).1)) hnot
    | @announced c howns =>
      obtain ⟨hne, hcall⟩ := hin.site (.inl hφ)
      obtain ⟨l', ha⟩ := libraryCall_broadcast hcall
      rw [Process.received_of_posted hφ, Process.reply_zero rfl] at hx' ⊢
      -- it has been answered, so the request is its own
      have hs : r.sender = some q := by
        by_contra hs
        have hsame := posted_bystander hσ h hs hφ
        rw [hx'] at hsame
        rw [← hsame] at hφ
        simp at hφ
      obtain ⟨site', hposted, hr⟩ := h.sender q hs
      obtain rfl : .broadcast c = site' := by simpa [hφ] using hposted
      exact .announces hr ha hne rfl (howns m) (by simp [took_cons, Site.call, Call.mutex])

end Fates

/-! ## §3 Where a process goes on -/

section Advance

variable {prog : Program ℤ L S} {σ σ' : System.State} {place : ℤ → Option L} {p : ℤ} {l l' : L}

theorem advance_isSome : (∃ l, advance prog σ σ' place p = some l) ↔ ∃ l, place p = some l := by
  unfold advance
  split_ifs
  · simp
  · exact Iff.rfl

theorem advance_same (h : (σ'.clients p).phase = .idle → (σ.clients p).phase = .idle) :
    advance prog σ σ' place p = place p := by
  unfold advance
  rw [if_neg]
  rintro ⟨hne, hidle⟩
  exact hne (h hidle)

theorem advance_next (hp : place p = some l) (hne : (σ.clients p).phase ≠ .idle)
    (hidle : (σ'.clients p).phase = .idle) (ha : (prog.action l).next = some l') :
    advance prog σ σ' place p = some l' := by
  unfold advance
  rw [if_pos ⟨hne, hidle⟩, hp]
  simp [ha]

variable [Minix] {m : ℤ} {d : Discipline prog} {a a' : Manager} {r : Request}

omit [Minix] in
/-- The process after the message agrees with its new place. -/
theorem Fate.agrees (h : Fate prog m a a' r p l (σ.clients p) (σ'.clients p))
    (hp : place p = some l) (htook : Took (σ.clients p).history m ↔ d.inside l) :
    ∃ l', advance prog σ σ' place p = some l' ∧ InCall prog m l' (σ'.clients p) ∧
      (Took (σ'.clients p).history m ↔ d.inside l') := by
  cases h with
  | stays hidle hin hhist _ =>
    refine ⟨l, (advance_same hidle.mp).trans hp, hin, ?_⟩
    rw [hhist, htook]
  | @takes l' ha hne hidle _ _ htook' =>
    have hnext : (prog.action l).next = some l' ∧ d.inside l' := by
      rcases ha with ha | ⟨c, ha⟩
      · exact ⟨by rw [ha]; rfl, (d.lock ha).2⟩
      · exact ⟨by rw [ha]; rfl, (d.wait ha).2⟩
    exact ⟨l', advance_next hp hne hidle hnext.1, fun h => absurd hidle h,
      iff_of_true htook' hnext.2⟩
  | @frees l' _ ha hne hidle _ _ htook' =>
    exact ⟨l', advance_next hp hne hidle (by rw [ha]; rfl), fun h => absurd hidle h,
      iff_of_false htook' (d.unlock ha).2⟩
  | sleeps _ _ _ hne hin hhist _ _ =>
    refine ⟨l, (advance_same fun h => absurd h hne).trans hp, hin, ?_⟩
    rw [hhist, htook]
  | @announces c l' _ ha hne hidle _ htook' =>
    refine ⟨l', advance_next hp hne hidle (by rw [ha]; rfl), fun h => absurd hidle h, ?_⟩
    rw [htook', htook, d.broadcast ha]

omit [Minix] in
/-- A process that is not the sender stays where it is, or it gets the mutex. -/
theorem Fate.bystander (h : Fate prog m a a' r p l (σ.clients p) (σ'.clients p))
    (hs : r.sender ≠ some p) :
    (advance prog σ σ' place p = place p ∧ (a'.Owns p m ↔ a.Owns p m)) ∨
      (¬a.Owns p m ∧ a'.Owns p m) := by
  cases h with
  | stays hidle _ _ howns => exact .inl ⟨advance_same hidle.mp, howns⟩
  | takes _ _ _ hnot hown _ => exact .inr ⟨hnot, hown⟩
  | frees hr _ _ _ _ _ _ =>
    subst hr
    exact absurd rfl hs
  | sleeps hr _ _ _ _ _ _ _ =>
    subst hr
    exact absurd rfl hs
  | announces hr _ _ _ _ _ =>
    subst hr
    exact absurd rfl hs

end Advance

end MinixCv.Programs

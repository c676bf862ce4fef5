import MinixCv.System.Programs

/-!
# The Server Is A Monitor

The processes of a program that shares one mutex see a monitor, whatever else the server is
doing: the owner, the waiters of each condition, and the processes that come and go.

- `Shows`: the monitor that the program sees
- `exists_half`, `Half.finish`: a handled message is the part of its sender and a hand-over
- `simulates`: the server and the library are that monitor
- `monitor_rule`: a proof outline holds on the server
-/

namespace MinixCv.Programs

open MinixCv.Lib MinixCv.Lib.Monitor MinixCv.LockManager MinixCv.Server MinixCv.Client

universe u v

variable {L : Type u} {S : Type v}

/-! ## §1 The monitor that the program sees -/

/-- The monitor: its owner is the process of the program that owns the mutex, its waiters are
    those that are registered with it. -/
structure Shows (m : ℤ) (τ : State L S) (μ : Monitor.State ℤ ℤ L S) : Prop where
  place : μ.place = τ.place
  shared : μ.shared = τ.shared
  owner_iff : ∀ p, μ.owner = some p ↔
    (∃ l, τ.place p = some l) ∧ (abs τ.sys.server).Owns p m
  waiters_iff : ∀ c q, q ∈ μ.waiters c ↔
    (∃ l, τ.place q = some l) ∧ (q, m) ∈ (abs τ.sys.server).waiters c

section Serve

variable [Minix] {prog : Program ℤ L S} {d : Discipline prog} {m : ℤ} {τ : State L S}
  {σ' : System.State} {r : Request} {out : List Reply} {μ μ₁ : Monitor.State ℤ ℤ L S}

/-- A process of the program gets the mutex. -/
def Taker (m : ℤ) (τ : State L S) (σ' : System.State) (p : ℤ) : Prop :=
  (∃ l, τ.place p = some l) ∧ ¬(abs τ.sys.server).Owns p m ∧ (abs σ'.server).Owns p m

/-- The monitor after the sender of the message has done its part, and before anybody has been
    woken or has got the mutex. -/
structure Half (prog : Program ℤ L S) (m : ℤ) (τ : State L S) (σ' : System.State)
    (μ : Monitor.State ℤ ℤ L S) : Prop where
  shared : μ.shared = τ.shared
  owner_iff : ∀ p, μ.owner = some p ↔
    (∃ l, τ.place p = some l) ∧ (abs τ.sys.server).Owns p m ∧ (abs σ'.server).Owns p m
  waiters : ∀ c q, (∃ l, τ.place q = some l) → (q, m) ∈ (abs σ'.server).waiters c →
    q ∈ μ.waiters c
  taker : ∀ p, Taker m τ σ' p → μ.place p = τ.place p
  rest : ∀ p, ¬Taker m τ σ' p → μ.place p = advance prog τ.sys σ' τ.place p

omit [Minix] in
/-- Somebody else's place does not change before the hand-over. -/
theorem place_bystander {p : ℤ} (hs : r.sender ≠ some p)
    (hfate : ∀ l, τ.place p = some l → Fate prog m (abs τ.sys.server) (abs σ'.server) r p l
      (τ.sys.clients p) (σ'.clients p)) (hnot : ¬Taker m τ σ' p) :
    τ.place p = advance prog τ.sys σ' τ.place p := by
  cases hp : τ.place p with
  | none => simp [advance, hp]
  | some l =>
    have hcases : (advance prog τ.sys σ' τ.place p = τ.place p ∧
          ((abs σ'.server).Owns p m ↔ (abs τ.sys.server).Owns p m)) ∨
        (¬(abs τ.sys.server).Owns p m ∧ (abs σ'.server).Owns p m) := (hfate l hp).bystander hs
    rcases hcases with ⟨hsame, -⟩ | htaker
    · rw [hsame, hp]
    · exact absurd ⟨⟨l, hp⟩, htaker⟩ hnot

/-- The sender has nothing to do, or it is no process of the program. -/
theorem half_refl (hτ : Inv d m τ) (h : System.Serves τ.sys r out σ') (hμ : Shows m τ μ)
    (hall : ∀ p l, τ.place p = some l →
      (advance prog τ.sys σ' τ.place p = τ.place p ∧
        ((abs σ'.server).Owns p m ↔ (abs τ.sys.server).Owns p m)) ∨
      (¬(abs τ.sys.server).Owns p m ∧ (abs σ'.server).Owns p m)) :
    Half prog m τ σ' μ := by
  have hkeeps : ∀ p l, τ.place p = some l → (abs τ.sys.server).Owns p m →
      (abs σ'.server).Owns p m := by
    intro p l hp hown
    rcases hall p l hp with ⟨-, howns⟩ | ⟨hnot, -⟩
    · exact howns.mpr hown
    · exact absurd hown hnot
  refine ⟨hμ.shared, fun p => ?_, fun c q hq hw => ?_, fun p _ => by rw [hμ.place],
    fun p hp => ?_⟩
  · rw [hμ.owner_iff]
    constructor
    · rintro ⟨⟨l, hp⟩, hown⟩
      exact ⟨⟨l, hp⟩, hown, hkeeps p l hp hown⟩
    · rintro ⟨hp, hown, -⟩
      exact ⟨hp, hown⟩
  · rw [hμ.waiters_iff]
    rw [h.next] at hw
    rcases Manager.waiters_of_next hw with hw | ⟨hr, hown⟩
    · exact ⟨hq, hw⟩
    -- an accepted wait gives the mutex up
    · obtain ⟨l, hl⟩ := hq
      have hlost := Manager.not_owns_of_givesUp hτ.reachable.inv.manager hown
        (.inr (.inl ⟨c, hr⟩))
      rw [← h.next] at hlost
      exact absurd (hkeeps q l hl hown) hlost
  · rw [hμ.place]
    cases hl : τ.place p with
    | none => simp [advance, hl]
    | some l =>
      rcases hall p l hl with ⟨hsame, -⟩ | htaker
      · rw [hsame, hl]
      · exact absurd ⟨⟨l, hl⟩, htaker⟩ hp

omit [Minix] in
/-- The sender is a process of the program that gives up the mutex. -/
theorem half_released (hμ : Shows m τ μ)
    (hfate : ∀ p l, τ.place p = some l → Fate prog m (abs τ.sys.server) (abs σ'.server) r p l
      (τ.sys.clients p) (σ'.clients p))
    {p : ℤ} (hs : r.sender = some p) (hown : (abs τ.sys.server).Owns p m)
    (hlost : ¬(abs σ'.server).Owns p m) (hshared : μ₁.shared = μ.shared)
    (howner : μ₁.owner = none) (hplace : μ₁.place p = advance prog τ.sys σ' τ.place p)
    (hothers : ∀ q, q ≠ p → μ₁.place q = μ.place q)
    (hwaiters : ∀ c q, (∃ l, τ.place q = some l) → (q, m) ∈ (abs σ'.server).waiters c →
      q ∈ μ₁.waiters c) :
    Half prog m τ σ' μ₁ := by
  have hne : ∀ q, Taker m τ σ' q → q ≠ p := by
    rintro q ⟨-, hnot, -⟩ rfl
    exact hnot hown
  refine ⟨hshared.trans hμ.shared, fun q => ?_, hwaiters, fun q hq => ?_, fun q hq => ?_⟩
  · rw [howner]
    simp only [reduceCtorEq, false_iff, not_and]
    rintro - hown'
    rwa [hown'.unique hown]
  · rw [hothers q (hne q hq), hμ.place]
  · by_cases hqp : q = p
    · rw [hqp, hplace]
    · rw [hothers q hqp, hμ.place]
      refine place_bystander (r := r) ?_ (hfate q) hq
      rw [hs]
      simpa using Ne.symm hqp

/-- **The part of the sender.** -/
theorem exists_half (hτ : Inv d m τ) (h : System.Serves τ.sys r out σ') (hμ : Shows m τ μ)
    (hlive : ∀ {p l}, τ.place p = some l → p ∉ σ'.dead) :
    ∃ μ₁, Relation.ReflTransGen (Monitor.Step prog) μ μ₁ ∧ Half prog m τ σ' μ₁ := by
  have hfate : ∀ p l, τ.place p = some l → Fate prog m (abs τ.sys.server) (abs σ'.server) r p l
      (τ.sys.clients p) (σ'.clients p) := fun p l hp => fate hτ h hp (hlive hp)
  have hother : ∀ p l, τ.place p = some l → r.sender ≠ some p →
      (advance prog τ.sys σ' τ.place p = τ.place p ∧
        ((abs σ'.server).Owns p m ↔ (abs τ.sys.server).Owns p m)) ∨
      (¬(abs τ.sys.server).Owns p m ∧ (abs σ'.server).Owns p m) :=
    fun p l hp hs => (hfate p l hp).bystander hs
  by_cases hs : ∃ p l, r.sender = some p ∧ τ.place p = some l
  swap
  · refine ⟨μ, .refl, half_refl hτ h hμ fun p l hp => hother p l hp fun hsender => ?_⟩
    exact hs ⟨p, l, hsender, hp⟩
  obtain ⟨p, l, hs, hp⟩ := hs
  -- with nothing to do for the sender, it is like everybody else
  have hrefl : ((advance prog τ.sys σ' τ.place p = τ.place p ∧
        ((abs σ'.server).Owns p m ↔ (abs τ.sys.server).Owns p m)) ∨
      (¬(abs τ.sys.server).Owns p m ∧ (abs σ'.server).Owns p m)) → Half prog m τ σ' μ := by
    intro hsender
    refine half_refl hτ h hμ fun q k hq => ?_
    by_cases hqp : q = p
    · exact hqp ▸ hsender
    · refine hother q k hq ?_
      rw [hs]
      simpa using Ne.symm hqp
  have hμp : μ.place p = some l := by rw [hμ.place, hp]
  have hμowner : (abs τ.sys.server).Owns p m → μ.owner = some p :=
    fun hown => (hμ.owner_iff p).mpr ⟨⟨l, hp⟩, hown⟩
  cases hfate p l hp with
  | stays hidle _ _ howns => exact ⟨μ, .refl, hrefl (.inl ⟨advance_same hidle.mp, howns⟩)⟩
  | takes _ _ _ hnot hown _ => exact ⟨μ, .refl, hrefl (.inr ⟨hnot, hown⟩)⟩
  | @frees l' hr ha hne hidle hown hlost _ =>
    refine ⟨_, .single (.unlock hμp ha (hμowner hown)), ?_⟩
    refine half_released hμ hfate hs hown hlost rfl rfl ?_ (fun q hq => Function.update_of_ne hq ..)
      fun c q hq hw => ?_
    · rw [advance_next hp hne hidle (by rw [ha]; rfl)]
      exact Function.update_self ..
    · refine (hμ.waiters_iff c q).mpr ⟨hq, ?_⟩
      rw [h.next] at hw
      rcases Manager.waiters_of_next hw with hw | ⟨hr', -⟩
      · exact hw
      · simp [hr] at hr'
  | @sleeps c l' hr ha hne hne' _ _ hown hlost =>
    refine ⟨_, .single (.wait hμp ha (hμowner hown)), ?_⟩
    refine half_released hμ hfate hs hown hlost rfl rfl ?_ (fun q _ => rfl) fun k q hq hw => ?_
    · rw [advance_same fun hidle => absurd hidle hne', ← hμ.place]
    · change q ∈ Function.update μ.waiters c (insert p (μ.waiters c)) k
      rw [h.next] at hw
      rcases Manager.waiters_of_next hw with hw | ⟨hr', -⟩
      · have hmem := (hμ.waiters_iff k q).mpr ⟨hq, hw⟩
        by_cases hk : k = c
        · subst hk
          rw [Function.update_self]
          exact Set.mem_insert_of_mem p hmem
        · rw [Function.update_of_ne hk]
          exact hmem
      · -- the new registration is that of the sender
        simp only [hr, Request.wait.injEq] at hr'
        obtain ⟨rfl, rfl, -⟩ := hr'
        rw [Function.update_self]
        exact Set.mem_insert p _
  | @announces c l' hr ha hne hidle howns _ =>
    refine ⟨_, .single (.broadcast hμp ha), hμ.shared, fun q => ?_, fun k q hq hw => ?_,
      fun q hq => ?_, fun q hq => ?_⟩
    · change μ.owner = some q ↔ _
      rw [hμ.owner_iff]
      refine ⟨fun hq => ⟨hq.1, hq.2, ?_⟩, fun hq => ⟨hq.1, hq.2.1⟩⟩
      obtain ⟨⟨k, hk⟩, hown⟩ := hq
      by_cases hqp : q = p
      · subst hqp
        exact howns.mpr hown
      · rcases hother q k hk (by rw [hs]; simpa using Ne.symm hqp) with ⟨-, howns'⟩ | ⟨hnot, -⟩
        · exact howns'.mpr hown
        · exact absurd hown hnot
    · change q ∈ Function.update μ.waiters c ∅ k
      rw [h.next, hr, Manager.next, Manager.broadcast_waiters] at hw
      by_cases hk : k = c
      · simp [hk] at hw
      · rw [if_neg hk] at hw
        rw [Function.update_of_ne hk]
        exact (hμ.waiters_iff k q).mpr ⟨hq, hw⟩
    · have hqp : q ≠ p := by
        rintro rfl
        exact hq.2.1 (howns.mp hq.2.2)
      exact (Function.update_of_ne hqp ..).trans (by rw [hμ.place])
    · by_cases hqp : q = p
      · subst hqp
        rw [advance_next hp hne hidle (by rw [ha]; rfl)]
        exact Function.update_self ..
      · refine (Function.update_of_ne hqp ..).trans ?_
        rw [hμ.place]
        exact place_bystander (r := r) (by rw [hs]; simpa using Ne.symm hqp) (hfate q) hq

/-- **The hand-over**: whoever is not registered any more is woken, and then at most one
process of the program gets the mutex. -/
theorem Half.finish (hτ : Inv d m τ) (h : System.Serves τ.sys r out σ')
    (hlive : ∀ {p l}, τ.place p = some l → p ∉ σ'.dead) (hμ : Half prog m τ σ' μ) :
    ∃ μ', Relation.ReflTransGen (Monitor.Step prog) μ μ' ∧
      Shows m ⟨σ', advance prog τ.sys σ' τ.place, τ.shared⟩ μ' := by
  have hwell := h.manager hτ.reachable.inv
  let ws : ℤ → Set ℤ := fun c => {q | (∃ l, τ.place q = some l) ∧
    (q, m) ∈ (abs σ'.server).waiters c}
  have hwake : Monitor.Step prog μ { μ with waiters := ws } :=
    .wake fun c q hq => hμ.waiters c q hq.1 hq.2
  have hws : ∀ c q, q ∈ ws c ↔ (∃ l, advance prog τ.sys σ' τ.place q = some l) ∧
      (q, m) ∈ (abs σ'.server).waiters c := by
    intro c q
    rw [advance_isSome]
    exact Iff.rfl
  by_cases ht : ∃ q, Taker m τ σ' q
  · obtain ⟨q, htaker⟩ := ht
    obtain ⟨⟨l, hq⟩, hnot, hown⟩ := htaker
    have hμq : μ.place q = some l := by rw [hμ.taker q ⟨⟨l, hq⟩, hnot, hown⟩, hq]
    have hunique : ∀ p, Taker m τ σ' p → p = q := fun p hp => hp.2.2.unique hown
    have hfree : μ.owner = none := by
      rw [Option.eq_none_iff_forall_ne_some]
      intro o ho
      obtain ⟨-, hown', hown''⟩ := (hμ.owner_iff o).mp ho
      exact hnot (hown''.unique hown ▸ hown')
    -- the process that gets the mutex was at a lock or at a wait
    have hnext : ∃ l', (prog.action l = .lock l' ∨ ∃ c, prog.action l = .wait c l') ∧
        advance prog τ.sys σ' τ.place q = some l' := by
      cases fate hτ h hq (hlive hq) with
      | stays _ _ _ howns => exact absurd (howns.mp hown) hnot
      | @takes l' ha hne hidle _ _ _ =>
        refine ⟨l', ha, advance_next hq hne hidle ?_⟩
        rcases ha with ha | ⟨c, ha⟩ <;> rw [ha] <;> rfl
      | frees _ _ _ _ hown' _ _ => exact absurd hown' hnot
      | sleeps _ _ _ _ _ _ hown' _ => exact absurd hown' hnot
      | announces _ _ _ _ howns _ => exact absurd (howns.mp hown) hnot
    obtain ⟨l', ha, hadv⟩ := hnext
    have hstep : Monitor.Step prog { μ with waiters := ws }
        { μ with waiters := ws, place := Function.update μ.place q (some l'), owner := some q } := by
      rcases ha with ha | ⟨c, ha⟩
      · exact .lock hμq ha hfree
      · exact .resume hμq ha hfree fun hmem => hwell.waiter_not_owner hmem.2 hown
    refine ⟨_, (Relation.ReflTransGen.single hwake).tail hstep, ?_, hμ.shared, fun p => ?_, hws⟩
    · funext p
      by_cases hp : p = q
      · subst hp
        exact (Function.update_self ..).trans hadv.symm
      · exact (Function.update_of_ne hp ..).trans (hμ.rest p fun h' => hp (hunique p h'))
    · change some q = some p ↔ _
      rw [Option.some.injEq, advance_isSome]
      constructor
      · rintro rfl
        exact ⟨⟨l, hq⟩, hown⟩
      · rintro ⟨-, hown'⟩
        exact hown.unique hown'
  · refine ⟨_, .single hwake, ?_, hμ.shared, fun p => ?_, hws⟩
    · funext p
      exact hμ.rest p fun h' => ht ⟨p, h'⟩
    · change μ.owner = some p ↔ _
      rw [hμ.owner_iff, advance_isSome]
      constructor
      · rintro ⟨hp, -, hown⟩
        exact ⟨hp, hown⟩
      · rintro ⟨hp, hown⟩
        refine ⟨hp, ?_, hown⟩
        by_contra hnot
        exact ht ⟨p, hp, hnot, hown⟩

end Serve

/-! ## §2 The server and the library are a monitor -/

section Simulation

variable [Minix] {prog : Program ℤ L S} {d : Discipline prog} {m : ℤ} {τ τ' : State L S}
  {μ : Monitor.State ℤ ℤ L S}

/-- The request behind a step that is no call. -/
def Requests (σ : System.State) (r : Request) : System.Event → Prop
  | .call _ _ => False
  | .receive p => ∃ site, (σ.clients p).phase = .posted site ∧ r = System.siteRequest p site
  | .eintr p => r = .interrupt p
  | .exit p => r = .exit p

/-- A step that is no call lets the server handle a request. -/
theorem served {σ σ' : System.State} {e : System.Event} (hσ : System.Inv σ)
    (h : System.Step σ e σ') (he : ∀ p k, e ≠ .call p k) :
    ∃ r out, System.Serves σ r out σ' ∧ Requests σ r e := by
  cases h with
  | @call p k _ _ => exact absurd rfl (he p k)
  | @receive p site s out hposted hok =>
    exact ⟨_, _, System.serves_of_receive hσ hposted hok, site, hposted, rfl⟩
  | @eintr p x s out hst hok =>
    have hh := Handled.of_ok hσ.tables (System.eintr_blind hst) hok
    rw [System.eintrMessage, request_eintr] at hh
    refine ⟨.interrupt p, out, ⟨hh.tableInv, hh.abs_eq, hh.replies hσ.manager, ?_, ?_, ?_⟩, rfl⟩
    · simp [Request.sender]
    · simp [System.State.notify, Request.sender]
    · exact fun q hq => ⟨hq, by simp⟩
  | @exit p x s out hst hok =>
    have hh := Handled.of_ok hσ.tables (System.exit_blind hst) hok
    rw [System.exitMessage, request_exit] at hh
    refine ⟨.exit p, out, ⟨hh.tableInv, hh.abs_eq, hh.replies hσ.manager, ?_, ?_, ?_⟩, rfl⟩
    · simp [Request.sender]
    · simp [System.State.notify, Request.sender]
    · intro q hq
      simp only [System.State.notify, Finset.mem_insert, not_or] at hq
      exact ⟨hq.2, by simpa using Ne.symm hq.1⟩

/-- Only the notice of its death makes the server take a process for dead. -/
theorem not_dead_step {σ σ' : System.State} {e : System.Event} (h : System.Step σ e σ') {p : ℤ}
    (hp : p ∉ σ.dead) (he : e ≠ .exit p) : p ∉ σ'.dead := by
  cases h with
  | call _ _ => exact hp
  | receive _ _ => exact hp
  | eintr _ _ => exact hp
  | @exit q _ _ _ _ _ =>
    have hne : p ≠ q := by
      rintro rfl
      exact he rfl
    simpa [System.State.notify, hne] using hp

omit [Minix] in
/-- A call changes nothing but the phase of the caller. -/
theorem call_clients {σ : System.State} (p : ℤ) (k : Call) (q : ℤ) :
    ((σ.call p k).clients q).history = (σ.clients q).history ∧
      (q ≠ p → (σ.call p k).clients q = σ.clients q) := by
  by_cases hq : q = p
  · subst hq
    simp [System.State.call, Process.enter]
  · simp [System.State.call, hq]

/-- A process of the program is alive after a step of the server. -/
theorem Inv.live {e : System.Event} {σ : System.State} (hτ : Inv d m τ)
    (hexit : ∀ p, e = .exit p → τ.place p = none) (hstep : System.Step τ.sys e σ) {p : ℤ} {l : L}
    (hp : τ.place p = some l) : p ∉ σ.dead := by
  refine not_dead_step hstep (hτ.alive hp) fun he => ?_
  exact ne_of_place (hexit p he) hp rfl

theorem Inv.call {p : ℤ} {k : Call} {σ : System.State} (hτ : Inv d m τ)
    (hstep : System.Step τ.sys (.call p k) σ)
    (hk : ∀ l, τ.place p = some l → libraryCall m (prog.action l) = some k) :
    Inv d m { τ with sys := σ } := by
  have hreach := hτ.reachable.snoc hstep
  cases hstep
  refine ⟨hreach, fun hq => hτ.alive hq, fun {q l} hq => ?_, fun {q l} hq => ?_⟩
  · by_cases hqp : q = p
    · subst hqp
      refine fun _ => ⟨k.site, .inl ?_, ?_⟩
      · simp [System.State.call, Process.enter]
      · rw [hk l hq]
        cases k <;> rfl
    · rw [(call_clients p k q).2 hqp]
      exact hτ.inCall hq
  · rw [(call_clients p k q).1]
    exact hτ.took_iff hq

/-- A process moves or starts: what is known of the others stays. -/
theorem Inv.place {p : ℤ} {l : Option L} {s : S} (hτ : Inv d m τ)
    (hp : ∀ k, l = some k → p ∉ τ.sys.dead ∧ (τ.sys.clients p).phase = .idle ∧
      (Took (τ.sys.clients p).history m ↔ d.inside k)) :
    Inv d m { τ with place := Function.update τ.place p l, shared := s } := by
  refine ⟨hτ.reachable, fun {q k} hq => ?_, fun {q k} hq => ?_, fun {q k} hq => ?_⟩
  · rcases place_update hq with ⟨rfl, hl⟩ | ⟨-, hq⟩
    · exact (hp k hl).1
    · exact hτ.alive hq
  · rcases place_update hq with ⟨rfl, hl⟩ | ⟨-, hq⟩
    · exact fun hne => absurd (hp k hl).2.1 hne
    · exact hτ.inCall hq
  · rcases place_update hq with ⟨rfl, hl⟩ | ⟨-, hq⟩
    · exact (hp k hl).2.2
    · exact hτ.took_iff hq

theorem Step.inv {e : Event} (hτ : Inv d m τ) (h : Step prog m τ e τ') : Inv d m τ' := by
  cases h with
  | @own p l l' s hp hidle ha hstep =>
    refine hτ.place fun k hk => ⟨hτ.alive hp, hidle, ?_⟩
    cases hk
    rw [hτ.took_iff hp, (d.own ha hstep).1]
  | @fork p q l l' k s hp hidle ha hstep hq huntouched =>
    have hside := d.own ha hstep
    have hτ₁ : Inv d m { τ with place := Function.update τ.place p (some l'), shared := s } := by
      refine hτ.place fun j hj => ⟨hτ.alive hp, hidle, ?_⟩
      cases hj
      rw [hτ.took_iff hp, hside.1]
    refine hτ₁.place fun j hj => ⟨huntouched.1, huntouched.2.1, ?_⟩
    cases hj
    change Took (τ.sys.clients q).history m ↔ _
    rw [huntouched.2.2]
    exact iff_of_false (by simp [Took]) (hside.2 k rfl)
  | call hp hk hstep =>
    refine hτ.call hstep fun l hl => ?_
    rw [hp, Option.some.injEq] at hl
    rw [← hl, hk]
  | other hp hstep =>
    refine hτ.call hstep fun l hl => ?_
    rw [hp] at hl
    cases hl
  | @serve e σ hcall hexit hstep =>
    obtain ⟨r, out, hserves, -⟩ := served hτ.reachable.inv hstep hcall
    have hlive : ∀ {p l}, τ.place p = some l → p ∉ σ.dead := fun hp => hτ.live hexit hstep hp
    -- everybody goes on from where its fate leaves it
    have hafter : ∀ {p l}, advance prog τ.sys σ τ.place p = some l →
        p ∉ σ.dead ∧ InCall prog m l (σ.clients p) ∧
          (Took (σ.clients p).history m ↔ d.inside l) := by
      intro p l hp
      obtain ⟨k, hk⟩ := advance_isSome.mp ⟨l, hp⟩
      obtain ⟨l', hl', hrest⟩ := (fate hτ hserves hk (hlive hk)).agrees hk (hτ.took_iff hk)
      rw [hp, Option.some.injEq] at hl'
      subst hl'
      exact ⟨hlive hk, hrest⟩
    exact ⟨hτ.reachable.snoc hstep, fun hp => (hafter hp).1, fun hp => (hafter hp).2.1,
      fun hp => (hafter hp).2.2⟩
  | die _ _ _ => exact hτ.place fun k hk => (by cases hk)

omit [Minix] in
theorem update_isSome {place : ℤ → Option L} {p : ℤ} {l l' : L} (hp : place p = some l) (q : ℤ) :
    (∃ k, Function.update place p (some l') q = some k) ↔ ∃ k, place q = some k := by
  by_cases hq : q = p
  · subst hq
    simp [hp]
  · simp [hq]

omit [Minix] in
/-- Who has not called the library is unknown to the server. -/
theorem Untouched.forgets {σ : System.State} (hσ : System.Inv σ) {p : ℤ} (h : Untouched σ p) :
    (abs σ.server).Forgets p := by
  have hx := hσ.agrees p h.1
  refine ⟨fun k hown => ?_, ?_⟩
  · have htook := ((hx.owns_iff k).mp hown).1
    rw [h.2.2] at htook
    simp [Took] at htook
  · have hlisted := hx.listed
    rw [h.2.1] at hlisted
    exact hlisted

/-- Who dies with the mutex is at a wait: it does not hold it. -/
theorem wait_of_not_holds (hτ : Inv d m τ) {p : ℤ} {l : L} (hp : τ.place p = some l)
    (hown : (abs τ.sys.server).Owns p m) (hnot : ¬(τ.sys.clients p).Holds m) :
    ∃ c l', prog.action l = .wait c l' := by
  have htook := ((hτ.reachable.inv.agrees p (hτ.alive hp)).owns_iff m).mp hown
  have hwait : (τ.sys.clients p).InWait m := by
    by_contra hwait
    exact hnot ⟨hwait, htook.1⟩
  obtain ⟨site, c, hphase, hcall⟩ := hwait
  obtain ⟨-, hcall'⟩ := (hτ.inCall hp).site hphase
  rw [hcall] at hcall'
  obtain ⟨-, l', ha⟩ := libraryCall_wait hcall'
  exact ⟨c, l', ha⟩

/-- **The server and the library are a monitor**: what the program, the server and everybody
else do in a step, the monitor does in some. -/
theorem simulates {e : Event} (hτ : Inv d m τ) (h : Step prog m τ e τ') (hμ : Shows m τ μ) :
    ∃ μ', Relation.ReflTransGen (Monitor.Step prog) μ μ' ∧ Shows m τ' μ' := by
  cases h with
  | @own p l l' s hp hidle ha hstep =>
    rw [← hμ.shared] at hstep
    refine ⟨_, .single (.own (by rw [hμ.place, hp]) ha hstep), ?_, rfl, fun q => ?_,
      fun c q => ?_⟩
    · rw [hμ.place]
    · rw [update_isSome hp]
      exact hμ.owner_iff q
    · rw [update_isSome hp]
      exact hμ.waiters_iff c q
  | @fork p q l l' k s hp hidle ha hstep hq huntouched =>
    rw [← hμ.shared] at hstep
    have hforgets := huntouched.forgets hτ.reachable.inv
    -- the child neither owns the mutex nor waits
    have hmember : ∀ x, (∃ j, Function.update (Function.update τ.place p (some l')) q (some k) x =
        some j) ↔ x = q ∨ ∃ j, τ.place x = some j := by
      intro x
      by_cases hx : x = q
      · simp [hx]
      · rw [Function.update_of_ne hx, update_isSome hp]
        simp [hx]
    refine ⟨_, .single (.fork (by rw [hμ.place, hp]) ha hstep (by rw [hμ.place, hq])), ?_, rfl,
      fun x => ?_, fun c x => ?_⟩
    · rw [hμ.place]
    · change μ.owner = some x ↔ _
      rw [hmember, hμ.owner_iff]
      constructor
      · exact fun hx => ⟨.inr hx.1, hx.2⟩
      · rintro ⟨rfl | hx, hown⟩
        · exact absurd hown (hforgets.1 m)
        · exact ⟨hx, hown⟩
    · change x ∈ μ.waiters c ↔ _
      rw [hmember, hμ.waiters_iff]
      constructor
      · exact fun hx => ⟨.inr hx.1, hx.2⟩
      · rintro ⟨rfl | hx, hw⟩
        · exact absurd (Manager.waiting_of_waiters hw) hforgets.2
        · exact ⟨hx, hw⟩
  | call hp hk hstep =>
    cases hstep
    exact ⟨μ, .refl, hμ.place, hμ.shared, hμ.owner_iff, hμ.waiters_iff⟩
  | other hp hstep =>
    cases hstep
    exact ⟨μ, .refl, hμ.place, hμ.shared, hμ.owner_iff, hμ.waiters_iff⟩
  | @serve e σ hcall hexit hstep =>
    obtain ⟨r, out, hserves, -⟩ := served hτ.reachable.inv hstep hcall
    have hlive : ∀ {p l}, τ.place p = some l → p ∉ σ.dead := fun hp => hτ.live hexit hstep hp
    obtain ⟨μ₁, hsteps, hhalf⟩ := exists_half hτ hserves hμ hlive
    obtain ⟨μ', hsteps', hshows⟩ := hhalf.finish hτ hserves hlive
    exact ⟨μ', hsteps.trans hsteps', hshows⟩
  | @die p l hp hends hnot =>
    have hwait : μ.owner = some p → ∃ c l', prog.action l = .wait c l' := fun howner =>
      wait_of_not_holds hτ hp ((hμ.owner_iff p).mp howner).2 hnot
    have hgone : ∀ q, (∃ k, Function.update τ.place p none q = some k) ↔
        q ≠ p ∧ ∃ k, τ.place q = some k := by
      intro q
      by_cases hq : q = p
      · simp [hq]
      · simp [hq]
    refine ⟨_, .single (@Monitor.Step.die _ _ _ _ _ _ prog μ p l (fun c => μ.waiters c \ {p}) _
      (by rw [hμ.place, hp]) hends hwait rfl fun c => Set.sdiff_subset), ?_, ?_, fun q => ?_,
      fun c q => ?_⟩
    · rw [hμ.place]
    · rw [hμ.shared]
    · dsimp only
      rw [hgone]
      split_ifs with howner
      · simp only [false_iff, not_and, and_imp]
        rintro hne - hown
        exact hne (hown.unique ((hμ.owner_iff p).mp howner).2)
      · rw [hμ.owner_iff]
        constructor
        · rintro ⟨hq, hown⟩
          refine ⟨⟨?_, hq⟩, hown⟩
          rintro rfl
          exact howner ((hμ.owner_iff q).mpr ⟨hq, hown⟩)
        · exact fun hq => ⟨hq.1.2, hq.2⟩
    · rw [hgone]
      change q ∈ μ.waiters c \ {p} ↔ _
      rw [Set.mem_sdiff, hμ.waiters_iff, Set.mem_singleton_iff]
      constructor
      · exact fun hq => ⟨⟨hq.2, hq.1.1⟩, hq.1.2⟩
      · exact fun hq => ⟨⟨hq.1.2, hq.2⟩, hq.1.1⟩

end Simulation

/-! ## §3 Runs -/

section Runs

variable [Minix] {prog : Program ℤ L S} {m : ℤ} {τ₀ τ : State L S} {p₀ : ℤ} {l₀ : L} {s₀ : S}
  {es : List Event}

theorem Starts.inv {d : Discipline prog} (h : Starts p₀ l₀ s₀ τ₀) (hl₀ : ¬d.inside l₀) :
    Inv d m τ₀ := by
  have hsplit : ∀ {p l}, τ₀.place p = some l → p = p₀ ∧ l = l₀ := by
    intro p l hp
    rw [h.place] at hp
    exact place_first hp
  obtain ⟨hlive, hidle, hhistory⟩ := h.untouched
  refine ⟨h.sys, fun {p l} hp => ?_, fun {p l} hp => ?_, fun {p l} hp => ?_⟩
  · obtain ⟨rfl, -⟩ := hsplit hp
    exact hlive
  · obtain ⟨rfl, -⟩ := hsplit hp
    exact fun hne => absurd hidle hne
  · obtain ⟨rfl, rfl⟩ := hsplit hp
    rw [hhistory]
    exact iff_of_false (by simp [Took]) hl₀

theorem Starts.shows (h : Starts p₀ l₀ s₀ τ₀) : Shows m τ₀ (Monitor.State.first p₀ l₀ s₀) := by
  have hforgets := h.untouched.forgets h.sys.inv
  have hmember : ∀ {p}, (∃ l, τ₀.place p = some l) → p = p₀ := by
    rintro p ⟨l, hp⟩
    rw [h.place] at hp
    exact (place_first hp).1
  refine ⟨h.place.symm, h.shared.symm, fun p => ?_, fun c q => ?_⟩
  · refine iff_of_false (by simp [Monitor.State.first]) fun hp => ?_
    obtain rfl := hmember hp.1
    exact hforgets.1 m hp.2
  · refine iff_of_false (Set.notMem_empty q) fun hq => ?_
    obtain rfl := hmember hq.1
    exact hforgets.2 (Manager.waiting_of_waiters hq.2)

/-- Every run of the program on the server is a run of the monitor. -/
theorem run_simulates (d : Discipline prog) (hstart : Starts p₀ l₀ s₀ τ₀) (hl₀ : ¬d.inside l₀)
    (hrun : Run (Step prog m) τ₀ es τ) :
    Inv d m τ ∧ ∃ μ, Relation.ReflTransGen (Monitor.Step prog) (Monitor.State.first p₀ l₀ s₀) μ ∧
      Shows m τ μ := by
  refine hrun.invariant (I := fun τ => Inv d m τ ∧
    ∃ μ, Relation.ReflTransGen (Monitor.Step prog) (Monitor.State.first p₀ l₀ s₀) μ ∧ Shows m τ μ) ?_
    ⟨hstart.inv hl₀, _, .refl, hstart.shows⟩
  rintro τ e τ' ⟨hτ, μ, hsteps, hμ⟩ hstep
  obtain ⟨μ', hsteps', hμ'⟩ := simulates hτ hstep hμ
  exact ⟨hstep.inv hτ, μ', hsteps.trans hsteps', hμ'⟩

/-- The conditions on which a process of the program waits with the mutex `m`. -/
def waited (m : ℤ) (τ : State L S) : Set ℤ :=
  {c | ∃ q, (∃ l, τ.place q = some l) ∧ τ.sys.server.Registered q c m}

omit [Minix] in
theorem Shows.waited_eq {μ : Monitor.State ℤ ℤ L S} (h : Shows m τ μ)
    (hσ : System.Inv τ.sys) : μ.waited = waited m τ := by
  ext c
  constructor
  · rintro ⟨q, hq⟩
    obtain ⟨hl, hw⟩ := (h.waiters_iff c q).mp hq
    exact ⟨q, hl, (registered_iff hσ.tables).mpr hw⟩
  · rintro ⟨q, hl, hw⟩
    exact ⟨q, (h.waiters_iff c q).mpr ⟨hl, (registered_iff hσ.tables).mp hw⟩⟩

/-- Who holds the mutex finds what an outline asserts. -/
theorem Shows.holds {o : Outline prog} {μ : Monitor.State ℤ ℤ L S} (hτ : Inv o.toDiscipline m τ)
    (hμ : Shows m τ μ) (hvalid : o.Valid μ) {p : ℤ} {l : L} (hp : τ.place p = some l)
    (hholds : (τ.sys.clients p).Holds m) : o.inside l ∧ o.holds l τ.shared (waited m τ) := by
  have hσ := hτ.reachable.inv
  have hown := (owns_iff hσ.tables).mp (hσ.owns_of_holds (hτ.alive hp) hholds)
  obtain ⟨k, hk, hrest⟩ := hvalid.owner ((hμ.owner_iff p).mpr ⟨⟨l, hp⟩, hown⟩)
  rw [hμ.place, hp, Option.some.injEq] at hk
  rw [← hμ.waited_eq hσ, ← hμ.shared]
  exact hk ▸ hrest

/-- While the program does not own the mutex, the invariant holds. -/
theorem Shows.rest {o : Outline prog} {μ : Monitor.State ℤ ℤ L S} (hτ : Inv o.toDiscipline m τ)
    (hμ : Shows m τ μ) (hvalid : o.Valid μ)
    (hfree : ∀ p l, τ.place p = some l → ¬τ.sys.server.Owns p m) :
    o.inv τ.shared (waited m τ) := by
  have hσ := hτ.reachable.inv
  rw [← hμ.waited_eq hσ, ← hμ.shared]
  apply hvalid.free
  rw [Option.eq_none_iff_forall_ne_some]
  intro p howner
  obtain ⟨⟨l, hp⟩, hown⟩ := (hμ.owner_iff p).mp howner
  exact hfree p l hp ((owns_iff hσ.tables).mpr hown)

/-- **The monitor rule.**  Whatever the processes of a program and everybody else do, and
whoever is interrupted or killed outside: a process that holds the mutex finds what the outline
asserts at its place, for the data and for the conditions that the server has waiters for;
while no process of the program owns the mutex, the invariant holds; and no two of them hold
the mutex. -/
theorem monitor_rule (o : Outline prog) (hstart : Starts p₀ l₀ s₀ τ₀) (hl₀ : ¬o.inside l₀)
    (hs₀ : o.inv s₀ ∅) (hrun : Run (Step prog m) τ₀ es τ) :
    (∀ p l, τ.place p = some l → (τ.sys.clients p).Holds m →
      o.inside l ∧ o.holds l τ.shared (waited m τ)) ∧
    ((∀ p l, τ.place p = some l → ¬τ.sys.server.Owns p m) → o.inv τ.shared (waited m τ)) ∧
    ∀ p q, (∃ l, τ.place p = some l) → (∃ l, τ.place q = some l) →
      (τ.sys.clients p).Holds m → (τ.sys.clients q).Holds m → p = q := by
  obtain ⟨hτ, μ, hsteps, hμ⟩ := run_simulates o.toDiscipline hstart hl₀ hrun
  have hσ := hτ.reachable.inv
  have hvalid := o.valid hl₀ hs₀ hsteps
  refine ⟨fun p l hp hholds => hμ.holds hτ hvalid hp hholds, hμ.rest hτ hvalid, ?_⟩
  rintro p q ⟨l, hp⟩ ⟨k, hq⟩ hpm hqm
  have hown := (owns_iff hσ.tables).mp (hσ.owns_of_holds (hτ.alive hp) hpm)
  exact hown.unique ((owns_iff hσ.tables).mp (hσ.owns_of_holds (hτ.alive hq) hqm))

end Runs

end MinixCv.Programs

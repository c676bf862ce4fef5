import MinixCv.System.Monitor

/-!
# When A Program Is Stuck

The processes of a program that nobody else shares its mutex with.  If none of them can go on,
the mutex is free, and whoever is inside the library waits on a condition.

- `Private`: nobody else has anything to do with the mutex
- `CanMove`: a process can go on, or the server can go on for it
- `owner_stuck`, `waits_of_stuck`: what it means that nobody can
-/

namespace MinixCv.Programs

open MinixCv.Lib MinixCv.Lib.Monitor MinixCv.LockManager MinixCv.Server MinixCv.Client

universe u v

variable {L : Type u} {S : Type v}

/-! ## §1 A mutex of one's own -/

/-- The process is inside a call about the mutex `m`. -/
def AsksFor (x : Process) (m : ℤ) : Prop :=
  ∃ site, (x.phase = .posted site ∨ x.phase = .blocked site) ∧ site.call.mutex = some m

/-- Nobody but the program has anything to do with the mutex `m`. -/
structure Stranger (m : ℤ) (σ : System.State) (p : ℤ) : Prop where
  not_owns : ¬(abs σ.server).Owns p m
  not_queued : p ∉ (abs σ.server).queue m
  not_registered : ∀ c, (p, m) ∉ (abs σ.server).waiters c
  not_asks : ¬AsksFor (σ.clients p) m

def Private (m : ℤ) (τ : State L S) : Prop := ∀ p, τ.place p = none → Stranger m τ.sys p

/-- The event is no call by somebody else about the mutex. -/
def Event.Leaves (m : ℤ) (e : Event) : Prop := ∀ p k, e = .other p k → k.mutex ≠ some m

section Calls

variable [Minix] {x : Process} {m : ℤ}

/-- The next message of the library is sent from the same call. -/
theorem resume_call {site site' : Site} {result errno : ℤ}
    (h : site.resume result errno = .sends site') : site'.call = site.call := by
  cases site <;> simp only [Site.resume, reduceCtorEq] at h
  case lock k =>
    split at h
    · cases h
      rfl
    · cases h
  case wait c k =>
    split_ifs at h
    cases h
    rfl
  case relock c k =>
    split at h
    · cases h
      rfl
    · cases h

/-- A reply leaves a process in the call it is in. -/
theorem AsksFor.of_reply {typ : ℤ} (h : AsksFor (x.reply typ) m) : AsksFor x m := by
  obtain ⟨site', hphase, hmutex⟩ := h
  unfold Process.reply at hphase
  split at hphase
  · rename_i site hx
    refine ⟨site, .inr hx, ?_⟩
    dsimp only at hphase
    split at hphase
    · rename_i site'' hsends
      have hcall := resume_call hsends
      simp only [Phase.posted.injEq, reduceCtorEq, or_false] at hphase
      rw [← hcall, hphase]
      exact hmutex
    · simp at hphase
  · exact ⟨site', hphase, hmutex⟩

omit [Minix] in
theorem AsksFor.of_received (h : AsksFor x.received m) : AsksFor x m := by
  obtain ⟨site', hphase, hmutex⟩ := h
  unfold Process.received at hphase
  split at hphase
  · rename_i site hx
    simp only [reduceCtorEq, Phase.blocked.injEq, false_or] at hphase
    exact ⟨site, .inl hx, hphase ▸ hmutex⟩
  · exact ⟨site', hphase, hmutex⟩

theorem AsksFor.of_deliverAll {dead : Finset ℤ} {clients : ℤ → Process} {out : List Reply} {q : ℤ}
    (h : AsksFor (System.deliverAll dead clients out q) m) : AsksFor (clients q) m := by
  unfold System.deliverAll at h
  induction out generalizing clients with
  | nil => exact h
  | cons r out ih =>
    have hone := ih h
    unfold System.deliver at hone
    split at hone
    · exact hone
    · by_cases hq : q = r.dokad
      · subst hq
        rw [Function.update_self] at hone
        exact hone.of_reply
      · rwa [Function.update_of_ne hq] at hone

/-- Nobody gets into a call by what the server does. -/
theorem AsksFor.of_serves {σ σ' : System.State} {r : Request} {out : List Reply} {q : ℤ}
    (hserves : System.Serves σ r out σ') (h : AsksFor (σ'.clients q) m) :
    AsksFor (σ.clients q) m := by
  rw [hserves.clients] at h
  have hone := h.of_deliverAll
  split at hone
  · exact hone.of_received
  · exact hone

/-- A stranger to the mutex remains one, whatever the server handles. -/
theorem Stranger.serves {σ σ' : System.State} {r : Request} {out : List Reply} {q : ℤ}
    (h : Stranger m σ q) (hσ : System.Inv σ) (hserves : System.Serves σ r out σ') :
    Stranger m σ' q := by
  -- it asks for the mutex neither by a message of its own nor by waiting
  have hasks : ¬(abs σ.server).Asks r q m := by
    rintro (rfl | ⟨b, c, rfl, hw⟩)
    · obtain ⟨site, hposted, hr⟩ := hserves.sender q rfl
      refine h.not_asks ⟨site, .inl hposted, ?_⟩
      cases site <;> simp_all [System.siteRequest, Site.call, Call.mutex]
    · exact h.not_registered c hw
  refine ⟨fun hown => ?_, fun hq => ?_, fun c hw => ?_, fun hask => h.not_asks (hask.of_serves hserves)⟩
  · rw [hserves.next] at hown
    rcases Manager.owns_of_next hσ.manager hserves.replies hown with hown | ⟨hhead, -⟩ | ⟨-, hask, -⟩
    · exact h.not_owns hown
    · exact h.not_queued (List.mem_of_mem_head? hhead)
    · exact hasks hask
  · rw [hserves.next] at hq
    rcases Manager.queue_of_next hσ.manager (hserves.admits hσ) hq with hq | hask
    · exact h.not_queued hq
    · exact hasks hask
  · rw [hserves.next] at hw
    rcases Manager.waiters_of_next hw with hw | ⟨-, hown⟩
    · exact h.not_registered c hw
    · exact h.not_owns hown

end Calls

section Privacy

variable [Minix] {prog : Program ℤ L S} {d : Discipline prog} {m : ℤ} {τ τ' : State L S}

/-- A process that ends outside the monitor is a stranger to the mutex. -/
theorem stranger_of_end (hτ : Inv d m τ) {p : ℤ} {l : L} (hp : τ.place p = some l)
    (ha : prog.action l = .own) (hout : ¬d.inside l) : Stranger m τ.sys p := by
  have hx := hτ.reachable.inv.agrees p (hτ.alive hp)
  have hidle : (τ.sys.clients p).phase = .idle := by
    by_contra hne
    obtain ⟨site, -, hcall⟩ := hτ.inCall hp hne
    rw [ha] at hcall
    cases hcall
  have hlisted := hx.listed
  rw [hidle] at hlisted
  refine ⟨fun hown => ?_, fun hq => hlisted (Manager.waiting_of_queue hq),
    fun c hw => hlisted (Manager.waiting_of_waiters hw), ?_⟩
  · exact hout ((hτ.took_iff hp).mp ((hx.owns_iff m).mp hown).1)
  · rintro ⟨site, hphase, -⟩
    rw [hidle] at hphase
    simp at hphase

theorem Step.stays_private {e : Event} (hτ : Inv d m τ)
    (hends : ∀ l, prog.ends l → prog.action l = .own ∧ ¬d.inside l) (he : e.Leaves m)
    (h : Private m τ) (hstep : Step prog m τ e τ') : Private m τ' := by
  have hupdate : ∀ {place : ℤ → Option L} {p q : ℤ} {l : L},
      Function.update place p (some l) q = none → place q = none := by
    intro place p q l hq
    by_cases hqp : q = p
    · rw [hqp, Function.update_self] at hq
      cases hq
    · rwa [Function.update_of_ne hqp] at hq
  intro q hq
  cases hstep with
  | own _ _ _ _ => exact h q (hupdate hq)
  | fork _ _ _ _ _ _ => exact h q (hupdate (hupdate hq))
  | @call p l k σ hp _ hstep =>
    cases hstep
    obtain ⟨h1, h2, h3, h4⟩ := h q hq
    refine ⟨h1, h2, h3, ?_⟩
    rwa [(call_clients p k q).2 (ne_of_place hq hp)]
  | @other p k σ hp hstep =>
    cases hstep
    obtain ⟨h1, h2, h3, h4⟩ := h q hq
    refine ⟨h1, h2, h3, ?_⟩
    by_cases hqp : q = p
    · subst hqp
      rintro ⟨site, hphase, hmutex⟩
      refine he q k rfl ?_
      have hsite : site = k.site := by
        simpa [System.State.call, Process.enter, eq_comm] using hphase
      rw [← hmutex, hsite]
      cases k <;> rfl
    · rwa [(call_clients p k q).2 hqp]
  | @serve e σ hcall _ hstep =>
    obtain ⟨r, out, hserves, -⟩ := served hτ.reachable.inv hstep hcall
    have hnone : τ.place q = none := by
      rw [Option.eq_none_iff_forall_ne_some]
      intro l hl
      have hsome : ∃ l', advance prog τ.sys σ τ.place q = some l' := advance_isSome.mpr ⟨l, hl⟩
      obtain ⟨l', hl'⟩ := hsome
      rw [show advance prog τ.sys σ τ.place q = none from hq] at hl'
      cases hl'
    exact (h q hnone).serves hτ.reachable.inv hserves
  | @die p l hp hl _ =>
    by_cases hqp : q = p
    · subst hqp
      obtain ⟨ha, hout⟩ := hends l hl
      exact stranger_of_end hτ hp ha hout
    · have hnone : τ.place q = none := by
        rw [← hq]
        exact (Function.update_of_ne hqp ..).symm
      exact h q hnone

end Privacy

/-! ## §2 Nobody can go on -/

/-- A process can go on: its message can be received, or it is outside the library and calls
    it, ends or takes a step of its own. -/
def CanMove (prog : Program ℤ L S) (m : ℤ) (τ : State L S) (p : ℤ) : Prop :=
  ∃ l, τ.place p = some l ∧ ((∃ site, (τ.sys.clients p).phase = .posted site) ∨
    (τ.sys.clients p).phase = .idle ∧ ((∃ k, libraryCall m (prog.action l) = some k) ∨ prog.ends l ∨
      (prog.action l = .own ∧ ∃ l' k s', prog.step l τ.shared l' k s')))

section Stuck

variable [Minix] {prog : Program ℤ L S} {d : Discipline prog} {m : ℤ} {τ : State L S}
  {μ : Monitor.State ℤ ℤ L S} {p : ℤ} {l : L}

/-- Who is blocked waits for the mutex. -/
theorem wants_of_blocked (hτ : Inv d m τ) (hp : τ.place p = some l) {site : Site}
    (hblocked : (τ.sys.clients p).phase = .blocked site) :
    p ∈ (abs τ.sys.server).queue m ∨
      ∃ c l', prog.action l = .wait c l' ∧ (p, m) ∈ (abs τ.sys.server).waiters c := by
  have hlisted := (hτ.reachable.inv.agrees p (hτ.alive hp)).listed
  rw [hblocked] at hlisted
  obtain ⟨-, hcall⟩ := (hτ.inCall hp).site (.inr hblocked)
  cases site with
  | lock k =>
    obtain ⟨rfl, -⟩ := libraryCall_lock hcall
    exact .inl hlisted
  | relock c k =>
    obtain ⟨rfl, -⟩ := libraryCall_wait hcall
    exact .inl hlisted
  | wait c k =>
    obtain ⟨rfl, l', ha⟩ := libraryCall_wait hcall
    rcases hlisted with hw | hq
    · exact .inr ⟨c, l', ha, hw⟩
    · exact .inl hq
  | unlock k => exact hlisted.elim
  | broadcast c => exact hlisted.elim

/-- If the owner cannot go on, it is at a place of its own where no step can be taken. -/
theorem owner_stuck (hτ : Inv d m τ) (hμ : Shows m τ μ) (hstuck : ¬CanMove prog m τ p)
    (howner : μ.owner = some p) :
    ∃ l, τ.place p = some l ∧ prog.action l = .own ∧ ∀ l' k s', ¬prog.step l τ.shared l' k s' := by
  obtain ⟨⟨l, hp⟩, hown⟩ := (hμ.owner_iff p).mp howner
  have hidle : (τ.sys.clients p).phase = .idle := by
    cases hphase : (τ.sys.clients p).phase with
    | idle => rfl
    | posted site => exact absurd ⟨l, hp, .inl ⟨site, hphase⟩⟩ hstuck
    | blocked site =>
      -- nobody waits for what it owns
      have hwant : p ∈ (abs τ.sys.server).queue m ∨ ∃ c, (p, m) ∈ (abs τ.sys.server).waiters c := by
        rcases wants_of_blocked hτ hp hphase with hq | ⟨c, -, -, hw⟩
        · exact .inl hq
        · exact .inr ⟨c, hw⟩
      exact absurd hown (hτ.reachable.inv.manager.wanted_not_owned hwant)
  have hcall : ∀ k, libraryCall m (prog.action l) ≠ some k := fun k hk =>
    hstuck ⟨l, hp, .inr ⟨hidle, .inl ⟨k, hk⟩⟩⟩
  have ha := own_of_no_call hcall
  exact ⟨l, hp, ha, fun l' k s' hs => hstuck ⟨l, hp, .inr ⟨hidle, .inr (.inr ⟨ha, l', k, s', hs⟩)⟩⟩⟩

/-- If the mutex is free for the program and nobody can go on, whoever is inside the library
waits on a condition. -/
theorem waits_of_stuck (hτ : Inv d m τ) (hprivate : Private m τ) (hμ : Shows m τ μ)
    (hstuck : ¬CanMove prog m τ p) (hfree : μ.owner = none) (hp : τ.place p = some l) :
    (τ.sys.clients p).phase = .idle ∨ ∃ c l', prog.action l = .wait c l' ∧ p ∈ μ.waiters c := by
  cases hphase : (τ.sys.clients p).phase with
  | idle => exact .inl rfl
  | posted site => exact absurd ⟨l, hp, .inl ⟨site, hphase⟩⟩ hstuck
  | blocked site =>
    rcases wants_of_blocked hτ hp hphase with hq | ⟨c, l', ha, hw⟩
    · -- a queue has an owner at its head, and that is a process of the program
      obtain ⟨o, q, hget, -⟩ := Manager.mem_queue.mp hq
      have hown : (abs τ.sys.server).Owns o m := ⟨q, hget⟩
      cases ho : τ.place o with
      | none => exact absurd hown (hprivate o ho).not_owns
      | some k =>
        have howner := (hμ.owner_iff o).mpr ⟨⟨k, ho⟩, hown⟩
        rw [hfree] at howner
        cases howner
    · exact .inr ⟨c, l', ha, (hμ.waiters_iff c p).mpr ⟨⟨l, hp⟩, hw⟩⟩

end Stuck

end MinixCv.Programs

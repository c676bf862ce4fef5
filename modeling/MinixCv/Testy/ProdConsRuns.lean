import MinixCv.System.Progress
import MinixCv.Testy.ProdConsTally

/-!
# Who Waits For Whom

`prod_cons.c` with the library, the server, PM and whoever else uses the server, in every run
in which nobody is killed and nobody else asks for the mutex.

- `Tally.printed`: what the counts say when `main` has returned
- `Reached`: what is known of every state that is reached
- `Reached.canMove`: as long as something is left to be done, somebody can go on
-/

namespace MinixCv.ProdCons

open MinixCv.Lib MinixCv.Lib.Monitor MinixCv.LockManager MinixCv.Server MinixCv.Client

section Runs

variable [Minix] {a : Args} {p₀ : ℤ} {l₀ : Place} {s₀ : Env}
  {τ₀ τ : Programs.State Place Env} {es : List Programs.Event} {μ : Monitor.State ℤ ℤ Place Env}

omit [Minix] in
/-- `main` starts alone, outside, with the empty buffer in the pipe. -/
theorem prologue_ok (h : prologue a = .ok (l₀, s₀)) :
    l₀ = .forkProds 0 ∧ s₀ = ⟨⟨Buf.bytes fun _ => 0, [], 0, false⟩, 0, 0⟩ := by
  unfold prologue at h
  split at h
  · cases h
  · cases h
    exact ⟨rfl, rfl⟩

omit [Minix] in
theorem rest_first (kills : Prop) (h : prologue a = .ok (l₀, s₀)) :
    ¬(outline a kills).inside l₀ ∧ (outline a kills).inv s₀ ∅ := by
  obtain ⟨rfl, rfl⟩ := prologue_ok h
  refine ⟨by simp [outline, Place.inside], fun _ => 0, ⟨rfl, ?_, ?_, ?_⟩, ?_, ?_⟩
  · rw [Buf.items_zero]
    rfl
  · rw [Buf.items_zero]
    rfl
  · simp [Buf.endFlag]
  · exact fun hmem => absurd hmem (Set.notMem_empty _)
  · exact fun hmem => absurd hmem (Set.notMem_empty _)

/-! ## §1 The counts at the end -/

omit [Minix] in
/-- The counts hold in every monitor that a run without kills reaches. -/
theorem reaches_tally (hprologue : prologue a = .ok (l₀, s₀))
    (h : Relation.ReflTransGen (Monitor.Step (prodCons a False)) (.first p₀ l₀ s₀) μ) :
    Tally a p₀ μ.place μ.shared := by
  obtain ⟨hl₀, hs₀⟩ := rest_first False hprologue
  induction h with
  | refl =>
    obtain ⟨rfl, rfl⟩ := prologue_ok hprologue
    exact tally_first a p₀
  | tail hsteps hstep ih => exact Step.tally ((outline a False).valid hl₀ hs₀ hsteps) ih hstep

omit [Minix] in
/-- Only producers and `main` have values to make. -/
theorem todo_eq_zero {l : Place} (hmain : l.isMain = false) (hproducer : l.producers = 0) :
    l.todo a = 0 := by
  cases l <;> first | rfl | simp_all [Place.isMain, Place.producers]

omit [Minix] in
theorem checked_of_prologue (h : prologue a = .ok (l₀, s₀)) :
    (1 ≤ a.prods ∧ a.prods ≤ MAX_PRODS) ∧ (0 ≤ a.cons ∧ a.cons ≤ MAX_CONS) ∧ 0 ≤ a.turns := by
  unfold prologue checkArgs at h
  split_ifs at h with h1 h2 h3 h4
  simp only [not_or, not_lt] at h2 h3 h4
  exact ⟨h2, h3, h4.1⟩

omit [Minix] in
/-- What the counts say when `main` has returned. -/
theorem Tally.printed {place : ℤ → Option Place} {s : Env} (h : Tally a p₀ place s)
    (hprologue : prologue a = .ok (l₀, s₀)) (hcons : 1 ≤ a.cons)
    (hreturned : place p₀ = some .returned) :
    (s.printed : Multiset Int8) = s.made ∧ (s.printed.length : ℤ) = a.prods * a.turns := by
  obtain ⟨lm, np, nc, n, hlm, hnp, -, hn, -, hcard, hst, hdrain⟩ := h.counts
  rw [hreturned, Option.some.injEq] at hlm
  subst hlm
  obtain ⟨rfl, rfl, hended⟩ := hst
  have hmade := hdrain hended (by omega)
  -- no producer runs and `main` starts no more, so nothing is left to be made
  have hn0 : n = 0 := by
    refine hn.eq_zero fun p l hp => ?_
    by_cases hpp : p = p₀
    · rw [hpp, hreturned, Option.some.injEq] at hp
      rw [← hp]
      rfl
    · exact todo_eq_zero (h.others hp hpp) (Nat.le_zero.mp (hnp.le hp))
  obtain ⟨⟨hprods, -⟩, -, hturns⟩ := checked_of_prologue hprologue
  refine ⟨hmade.symm, ?_⟩
  rw [hn0, Nat.add_zero, hmade, Multiset.coe_card] at hcard
  rw [hcard]
  push_cast
  rw [Int.toNat_of_nonneg (by omega), Int.toNat_of_nonneg hturns]

/-! ## §2 Nobody is left waiting for ever -/

/-- What is known of a state that is reached with nobody killed and nobody else at the mutex. -/
structure Reached [Minix] (a : Args) (p₀ : ℤ) (l₀ : Place) (s₀ : Env)
    (τ : Programs.State Place Env) : Prop where
  inv : Programs.Inv (outline a False).toDiscipline a.mutex τ
  own : Programs.Private a.mutex τ
  monitor : ∃ μ, Relation.ReflTransGen (Monitor.Step (prodCons a False)) (.first p₀ l₀ s₀) μ ∧
    Programs.Shows a.mutex τ μ

omit [Minix] in
/-- The processes end outside. -/
theorem ends_outside (l : Place) (h : (prodCons a False).ends l) :
    (prodCons a False).action l = .own ∧ ¬(outline a False).inside l := by
  obtain rfl | rfl | h := h
  · exact ⟨rfl, by simp [outline, Place.inside]⟩
  · exact ⟨rfl, by simp [outline, Place.inside]⟩
  · exact h.elim

theorem Reached.step (h : Reached a p₀ l₀ s₀ τ) {e : Programs.Event}
    {τ' : Programs.State Place Env} (hstep : Programs.Step (prodCons a False) a.mutex τ e τ')
    (he : e.Leaves a.mutex) : Reached a p₀ l₀ s₀ τ' := by
  obtain ⟨μ, hsteps, hμ⟩ := h.monitor
  obtain ⟨μ', hsteps', hμ'⟩ := Programs.simulates h.inv hstep hμ
  exact ⟨hstep.inv h.inv, hstep.stays_private h.inv ends_outside he h.own, μ',
    hsteps.trans hsteps', hμ'⟩

/-- Every run in which nobody else asks for the mutex. -/
theorem reached_of_run (hprologue : prologue a = .ok (l₀, s₀))
    (hstart : Programs.Starts p₀ l₀ s₀ τ₀) (hprivate : Programs.Private a.mutex τ₀)
    (hrun : Run (fun τ e τ' => Programs.Step (prodCons a False) a.mutex τ e τ' ∧
      e.Leaves a.mutex) τ₀ es τ) : Reached a p₀ l₀ s₀ τ := by
  obtain ⟨hl₀, -⟩ := rest_first False hprologue
  refine hrun.invariant (I := Reached a p₀ l₀ s₀) ?_
    ⟨hstart.inv hl₀, hprivate, _, .refl, hstart.shows⟩
  rintro τ e τ' h ⟨hstep, he⟩
  exact h.step hstep he

theorem Reached.tally (h : Reached a p₀ l₀ s₀ τ) (hprologue : prologue a = .ok (l₀, s₀)) :
    Tally a p₀ τ.place τ.shared := by
  obtain ⟨μ, hsteps, hμ⟩ := h.monitor
  have htally := reaches_tally hprologue hsteps
  rwa [hμ.place, hμ.shared] at htally

omit [Minix] in
/-- Whoever is inside with the buffer can take its next step. -/
theorem enabled_inside {s : Env} {w : Set ℤ} {l : Place} (hpipe : BSIZE + 2 ≤ a.pipeBuf)
    (h : Asserts a s.toData w l) (hin : l.inside = true) (ha : action a l = .own) :
    ∃ l' k s', Own a s l l' k s' := by
  have hread : Rest a s.toData w → ∃ b s', ReadBuf s (some b) s' := by
    rintro ⟨b, ⟨hb, -⟩, -⟩
    refine ⟨b, _, @ReadBuf.ok s b [] ?_⟩
    rw [List.append_nil]
    exact hb
  have hwrite : ∀ {b}, s.pipe = [] → WriteBuf a s b { s with pipe := s.pipe ++ Buf.bytes b } := by
    intro b hempty
    refine .ok ?_
    rw [hempty, List.length_nil, Nat.zero_add]
    exact hpipe
  cases l <;> try simp [Place.inside] at hin <;> try simp [action] at ha
  case mainRead =>
    obtain ⟨b, s', hb⟩ := hread h
    exact ⟨_, _, _, .mainRead hb⟩
  case mainClose b => exact ⟨_, _, _, .mainClose⟩
  case mainWrite b => exact ⟨_, _, _, .mainWrite (hwrite h.1.1)⟩
  case pRead t d =>
    obtain ⟨b, s', hb⟩ := hread h
    exact ⟨_, _, _, .pRead hb⟩
  case pTest t d b =>
    by_cases hcount : b.count.toInt = BSIZE
    · exact ⟨_, _, _, .pFull hcount⟩
    · exact ⟨_, _, _, .pNotFull hcount⟩
  case pWriteBack t d b => exact ⟨_, _, _, .pWriteBack (hwrite h.1.1)⟩
  case pPut t d b =>
    cases hi : b.search (· == 0) with
    | none => exact ⟨_, _, _, .pPutFails hi⟩
    | some i =>
      by_cases hcount : (b.put i d).count = 1
      · exact ⟨_, _, _, .pPutFirst hi hcount⟩
      · exact ⟨_, _, _, .pPut hi hcount⟩
  case pWrite t b => exact ⟨_, _, _, .pWrite (hwrite h.1.1)⟩
  case cRead =>
    obtain ⟨b, s', hb⟩ := hread h
    exact ⟨_, _, _, .cRead hb⟩
  case cTest b =>
    by_cases hcount : b.count = 0
    · exact ⟨_, _, _, .cEmpty hcount⟩
    · exact ⟨_, _, _, .cNotEmpty hcount⟩
  case cWriteBack b => exact ⟨_, _, _, .cWriteBack (hwrite h.1.1)⟩
  case cFlag b =>
    by_cases hflag : b.endFlag = 0
    · exact ⟨_, _, _, .cGoOn hflag⟩
    · exact ⟨_, _, _, .cEnd hflag⟩
  case cTake b =>
    cases hi : b.search (· != 0) with
    | none => exact ⟨_, _, _, .cTakeFails hi⟩
    | some i => exact ⟨_, _, _, .cTake hi⟩
  case cPrint b d =>
    by_cases hcount : b.count.toInt = BSIZE - 1
    · exact ⟨_, _, _, .cPrintLast hcount⟩
    · exact ⟨_, _, _, .cPrint hcount⟩
  case cWrite b => exact ⟨_, _, _, .cWrite (hwrite h.1.1)⟩
  case failed str => exact h.elim

omit [Minix] in
/-- Outside, a process that has to wait for something is `main` in `wait`, or it has
returned. -/
theorem idle_outside {s : Env} {l : Place} (hout : l.inside = false) (ha : action a l = .own)
    (hends : l ≠ .pExit ∧ l ≠ .cExit) (hstuck : ∀ l' k s', ¬Own a s l l' k s') :
    (∃ n, l = .waitProds (n + 1) ∧ s.zombies = 0) ∨
      (l = .waitAll ∧ s.zombies = 0 ∧ s.children ≠ 0) ∨ l = .returned := by
  cases l <;> try simp [Place.inside] at hout <;> try simp [action] at ha
  case forkProds i =>
    by_cases hi : (i : ℤ) < a.prods
    · exact absurd (.forkProducer hi) (hstuck _ _ _)
    · exact absurd (.forkedProducers hi) (hstuck _ _ _)
  case forkCons i =>
    by_cases hi : (i : ℤ) < a.cons
    · exact absurd (.forkConsumer hi) (hstuck _ _ _)
    · exact absurd (.forkedConsumers hi) (hstuck _ _ _)
  case waitProds n =>
    cases n with
    | zero => exact absurd .waitedProducers (hstuck _ _ _)
    | succ n =>
      refine .inl ⟨n, rfl, ?_⟩
      by_contra hz
      exact hstuck _ _ _ (.waitProducer (Nat.pos_of_ne_zero hz))
  case waitAll =>
    have hz : s.zombies = 0 := by
      by_contra hz
      exact hstuck _ _ _ (.waitOne (Nat.pos_of_ne_zero hz))
    exact .inr (.inl ⟨rfl, hz, fun hc => hstuck _ _ _ (.waitedAll hz hc)⟩)
  case returned => exact .inr (.inr rfl)
  case produce t =>
    by_cases ht : (t : ℤ) < a.turns
    · exact absurd (.produce (d := ⟨1, by decide⟩) ht) (hstuck _ _ _)
    · exact absurd (.produced ht) (hstuck _ _ _)
  case pExit => exact absurd rfl hends.1
  case cExit => exact absurd rfl hends.2

omit [Minix] in
/-- Somebody is counted. -/
theorem exists_counted {place : ℤ → Option Place} {f : Place → ℕ} {n : ℕ} (h : Census place f n)
    (hn : n ≠ 0) : ∃ p l, place p = some l ∧ f l ≠ 0 := by
  by_contra hnone
  refine hn (h.eq_zero fun p l hp => ?_)
  by_contra hl
  exact hnone ⟨p, l, hp, hl⟩

/-- Where everybody is when nobody can go on: nobody is inside, and whoever is not `main` waits
for a condition. -/
theorem stuck_places (hpipe : BSIZE + 2 ≤ a.pipeBuf)
    (hτ : Programs.Inv (outline a False).toDiscipline a.mutex τ) (hμ : Programs.Shows a.mutex τ μ)
    (hvalid : (outline a False).Valid μ) (hprivate : Programs.Private a.mutex τ)
    (hstuck : ∀ p, ¬Programs.CanMove (prodCons a False) a.mutex τ p) :
    μ.owner = none ∧ ∀ p l, τ.place p = some l →
      ((∃ n, l = .waitProds (n + 1) ∧ τ.shared.zombies = 0) ∨
        (l = .waitAll ∧ τ.shared.zombies = 0 ∧ τ.shared.children ≠ 0) ∨ l = .returned) ∨
      (∃ t d, l = .pWait t d ∧ a.bufNotFull ∈ μ.waited) ∨
      (l = .cWait ∧ a.bufNotEmpty ∈ μ.waited) := by
  have hfree : μ.owner = none := by
    rw [Option.eq_none_iff_forall_ne_some]
    intro p howner
    obtain ⟨l, hp, ha, hnone⟩ := Programs.owner_stuck hτ hμ (hstuck p) howner
    obtain ⟨k, hk, hin, hholds⟩ := hvalid.owner howner
    rw [hμ.place, hp, Option.some.injEq] at hk
    subst hk
    obtain ⟨l', k, s', hown⟩ := enabled_inside hpipe hholds hin ha
    rw [hμ.shared] at hown
    exact hnone l' k s' hown
  refine ⟨hfree, fun p l hp => ?_⟩
  rcases Programs.waits_of_stuck hτ hprivate hμ (hstuck p) hfree hp with hidle | ⟨c, l', ha, hw⟩
  · left
    have hcall : ∀ k, Programs.libraryCall a.mutex (action a l) ≠ some k := fun k hk =>
      hstuck p ⟨l, hp, .inr ⟨hidle, .inl ⟨k, hk⟩⟩⟩
    have ha := Programs.own_of_no_call hcall
    have hout : l.inside = false := by
      by_contra hin
      have howner := owner_of_own hvalid (by rw [hμ.place, hp]) ha (by simpa using hin)
      rw [hfree] at howner
      cases howner
    refine idle_outside hout ha ⟨?_, ?_⟩ fun l' k s' hs =>
      hstuck p ⟨l, hp, .inr ⟨hidle, .inr (.inr ⟨ha, l', k, s', hs⟩)⟩⟩
    · rintro rfl
      exact hstuck p ⟨_, hp, .inr ⟨hidle, .inr (.inl (.inl rfl))⟩⟩
    · rintro rfl
      exact hstuck p ⟨_, hp, .inr ⟨hidle, .inr (.inl (.inr (.inl rfl)))⟩⟩
  · right
    obtain ⟨t, d, rfl, rfl, -⟩ | ⟨rfl, rfl, -⟩ := action_wait ha
    · exact .inl ⟨t, d, rfl, p, hw⟩
    · exact .inr ⟨rfl, p, hw⟩

/-- **No deadlock.**  With at least one consumer some process can go on, by itself or because
the server can receive its message, or `main` has returned and all the others have ended. -/
theorem Reached.canMove (h : Reached a p₀ l₀ s₀ τ) (hprologue : prologue a = .ok (l₀, s₀))
    (hcons : 1 ≤ a.cons) (hpipe : BSIZE + 2 ≤ a.pipeBuf) :
    (∃ p, Programs.CanMove (prodCons a False) a.mutex τ p) ∨
      ∀ p l, τ.place p = some l → p = p₀ ∧ l = .returned := by
  obtain ⟨hl₀, hs₀⟩ := rest_first False hprologue
  have htally := h.tally hprologue
  obtain ⟨hτ, hprivate, μ, hsteps, hμ⟩ := h
  have hvalid := (outline a False).valid hl₀ hs₀ hsteps
  by_contra hnot
  rw [not_or, not_exists] at hnot
  obtain ⟨hstuck, hleft⟩ := hnot
  obtain ⟨hfree, hplaces⟩ := stuck_places hpipe hτ hμ hvalid hprivate hstuck
  obtain ⟨b, ⟨hb, hsound⟩, hwaits⟩ := hvalid.free hfree
  rw [hμ.shared] at hsound
  obtain ⟨lm, np, nc, n, hlm, hnp, hnc, -, hch, -, hst, -⟩ := htally.counts
  -- a producer that runs finds the buffer full, a consumer finds it empty and open
  have hproducer : np ≠ 0 → b.count.toInt = BSIZE := by
    intro hne
    obtain ⟨p, l, hp, hl⟩ := exists_counted hnp hne
    rcases hplaces p l hp with (⟨k, rfl, -⟩ | ⟨rfl, -⟩ | rfl) | ⟨t, d, rfl, hw⟩ | ⟨rfl, -⟩
    · exact absurd rfl hl
    · exact absurd rfl hl
    · exact absurd rfl hl
    · exact hwaits.notFull hw
    · exact absurd rfl hl
  have hconsumer : nc ≠ 0 → b.count = 0 ∧ b.endFlag = 0 := by
    intro hne
    obtain ⟨p, l, hp, hl⟩ := exists_counted hnc hne
    rcases hplaces p l hp with (⟨k, rfl, -⟩ | ⟨rfl, -⟩ | rfl) | ⟨t, d, rfl, -⟩ | ⟨rfl, hw⟩
    · exact absurd rfl hl
    · exact absurd rfl hl
    · exact absurd rfl hl
    · exact absurd rfl hl
    · exact hwaits.notEmpty hw
  rcases hplaces p₀ lm hlm with (⟨k, rfl, hz⟩ | ⟨rfl, hz, hc⟩ | rfl) | ⟨t, d, rfl, -⟩ | ⟨rfl, -⟩
  · -- `main` waits for a producer, which waits for a consumer, which waits for a producer
    obtain ⟨hnp', hnc', -⟩ := hst
    have hfull := hproducer (by omega)
    rw [(hconsumer (by omega)).1] at hfull
    cases hfull
  · -- `main` waits for a consumer, which does not know that it is over
    obtain ⟨hnp', hended⟩ := hst
    have hflag := (hconsumer (by omega)).2
    exact hsound.flag.mpr hended hflag
  · -- `main` has returned
    obtain ⟨rfl, rfl, -⟩ := hst
    refine hleft fun p l hp => ?_
    have hp1 := hnp.le hp
    have hc1 := hnc.le hp
    by_cases hpp : p = p₀
    · subst hpp
      rw [hlm, Option.some.injEq] at hp
      exact ⟨rfl, hp.symm⟩
    · have hmain := htally.others hp hpp
      rcases hplaces p l hp with (⟨k, rfl, -⟩ | ⟨rfl, -⟩ | rfl) | ⟨t, d, rfl, -⟩ | ⟨rfl, -⟩
      · cases hmain
      · cases hmain
      · cases hmain
      · simp [Place.producers] at hp1
      · simp [Place.consumers] at hc1
  · exact hst.elim
  · exact hst.elim

end Runs

end MinixCv.ProdCons

import Mathlib.Data.Set.Insert
import Mathlib.Logic.Function.Basic
import Mathlib.Logic.Relation
import Mathlib.Tactic.Common

/-!
# Monitors

A mutex with condition variables, seen by the processes of one program: a process that locks
gets the mutex when it is free, `wait` gives it up and takes it again later, `broadcast` wakes
whoever waits.  A waiter may also be woken for no reason, and a process may die.

- `Program`: what the processes do at each of their places
- `Step`: the monitor and the processes
- `Outline`: an assertion for each place inside the monitor and an invariant of the data
- `Outline.Valid`: what an outline promises, and `Step.valid`, that every step keeps it
- `Outline.valid`: it holds in every state that the program reaches

The assertions speak of the data and of the set of conditions that somebody waits on, so that
an outline can also promise that nobody waits in vain.
-/

namespace MinixCv.Lib.Monitor

universe u v w x

variable {P : Type u} {C : Type v} {L : Type w} {S : Type x}

/-! ## §1 Programs -/

/-- What a process does at a place; the operations of the monitor name the place behind them. -/
inductive Action (C : Type v) (L : Type w) where
  | lock (next : L)
  | unlock (next : L)
  | wait (c : C) (next : L)
  | broadcast (c : C) (next : L)
  | own

/-- The place behind an operation of the monitor. -/
def Action.next : Action C L → Option L
  | .lock l | .unlock l | .wait _ l | .broadcast _ l => some l
  | .own => none

/-- A program: what is done at each place; the steps of its own that a process takes on the
    shared data, perhaps with a child that starts at some place; where a process may end, and
    what its end does to the data. -/
structure Program (C : Type v) (L : Type w) (S : Type x) where
  action : L → Action C L
  step : L → S → L → Option L → S → Prop
  ends : L → Prop
  death : L → S → S

/-- The processes by their places, who is inside the monitor, who waits, and the data. -/
structure State (P : Type u) (C : Type v) (L : Type w) (S : Type x) where
  place : P → Option L
  owner : Option P
  waiters : C → Set P
  shared : S

/-- The conditions that somebody waits on. -/
def State.waited (μ : State P C L S) : Set C := {c | (μ.waiters c).Nonempty}

section Steps

variable [DecidableEq P] [DecidableEq C]

/-- One process, outside the monitor. -/
def State.first (p : P) (l : L) (s : S) : State P C L S where
  place := Function.update (fun _ => none) p (some l)
  owner := none
  waiters _ := ∅
  shared := s

omit [DecidableEq C] in
theorem place_first {p q : P} {l k : L}
    (h : Function.update (fun _ => none) p (some l) q = some k) : q = p ∧ k = l := by
  by_cases hq : q = p
  · subst hq
    rw [Function.update_self, Option.some.injEq] at h
    exact ⟨rfl, h.symm⟩
  · rw [Function.update_of_ne hq] at h
    cases h

omit [DecidableEq P] [DecidableEq C] in
/-- A process is not one that does not run. -/
theorem ne_of_place {place : P → Option L} {p q : P} {l : L} (hq : place q = none)
    (hp : place p = some l) : q ≠ p := by
  rintro rfl
  rw [hq] at hp
  cases hp

/-- One step of the monitor or of a process.  A process that waits or dies while it owns the
    mutex frees it; whoever is at a `wait`, is not the owner and is no waiter any more may come
    back. -/
inductive Step (prog : Program C L S) (μ : State P C L S) : State P C L S → Prop where
  | own {p : P} {l l' : L} {s : S} : μ.place p = some l → prog.action l = .own →
      prog.step l μ.shared l' none s →
      Step prog μ { μ with place := Function.update μ.place p (some l'), shared := s }
  | fork {p q : P} {l l' k : L} {s : S} : μ.place p = some l → prog.action l = .own →
      prog.step l μ.shared l' (some k) s → μ.place q = none →
      Step prog μ { μ with
        place := Function.update (Function.update μ.place p (some l')) q (some k), shared := s }
  | lock {p : P} {l l' : L} : μ.place p = some l → prog.action l = .lock l' → μ.owner = none →
      Step prog μ { μ with place := Function.update μ.place p (some l'), owner := some p }
  | unlock {p : P} {l l' : L} : μ.place p = some l → prog.action l = .unlock l' →
      μ.owner = some p →
      Step prog μ { μ with place := Function.update μ.place p (some l'), owner := none }
  | wait {p : P} {c : C} {l l' : L} : μ.place p = some l → prog.action l = .wait c l' →
      μ.owner = some p →
      Step prog μ { μ with
        owner := none, waiters := Function.update μ.waiters c (insert p (μ.waiters c)) }
  | resume {p : P} {c : C} {l l' : L} : μ.place p = some l → prog.action l = .wait c l' →
      μ.owner = none → p ∉ μ.waiters c →
      Step prog μ { μ with place := Function.update μ.place p (some l'), owner := some p }
  | broadcast {p : P} {c : C} {l l' : L} : μ.place p = some l →
      prog.action l = .broadcast c l' →
      Step prog μ { μ with
        place := Function.update μ.place p (some l'), waiters := Function.update μ.waiters c ∅ }
  | wake {ws : C → Set P} : (∀ c, ws c ⊆ μ.waiters c) → Step prog μ { μ with waiters := ws }
  | die {p : P} {l : L} {ws : C → Set P} {o : Option P} : μ.place p = some l → prog.ends l →
      (μ.owner = some p → ∃ c l', prog.action l = .wait c l') →
      o = (if μ.owner = some p then none else μ.owner) → (∀ c, ws c ⊆ μ.waiters c) →
      Step prog μ { place := Function.update μ.place p none, owner := o, waiters := ws,
                    shared := prog.death l μ.shared }

end Steps

/-! ## §2 Outlines -/

/-- Which places are inside the monitor: between a lock and the next unlock. -/
structure Discipline (prog : Program C L S) where
  inside : L → Prop
  lock : ∀ {l l'}, prog.action l = .lock l' → ¬inside l ∧ inside l'
  unlock : ∀ {l l'}, prog.action l = .unlock l' → inside l ∧ ¬inside l'
  wait : ∀ {l c l'}, prog.action l = .wait c l' → inside l ∧ inside l'
  broadcast : ∀ {l c l'}, prog.action l = .broadcast c l' → (inside l' ↔ inside l)
  own : ∀ {l s l' k s'}, prog.action l = .own → prog.step l s l' k s' →
    (inside l' ↔ inside l) ∧ ∀ j ∈ k, ¬inside j

/-- A proof outline: the invariant of the data while nobody is inside, and an assertion for
    each place inside.  The last argument of both is the set of conditions that are waited
    on. -/
structure Outline (prog : Program C L S) extends Discipline prog where
  inv : S → Set C → Prop
  holds : L → S → Set C → Prop
  inv_mono : ∀ {s w w'}, w' ⊆ w → inv s w → inv s w'
  holds_mono : ∀ {l s w w'}, w' ⊆ w → holds l s w → holds l s w'
  locked : ∀ {l l'}, prog.action l = .lock l' → ∀ s w, inv s w → holds l' s w
  unlocks : ∀ {l l'}, prog.action l = .unlock l' → ∀ s w, holds l s w → inv s w
  waits : ∀ {l c l'}, prog.action l = .wait c l' → ∀ s w, holds l s w → inv s (insert c w)
  waited : ∀ {l c l'}, prog.action l = .wait c l' → ∀ s w, inv s w → holds l' s w
  announced : ∀ {l c l'}, prog.action l = .broadcast c l' → inside l →
    ∀ s w, holds l s w → holds l' s (w \ {c})
  moved : ∀ {l s l' k s'}, prog.action l = .own → prog.step l s l' k s' → inside l →
    ∀ w, holds l s w → holds l' s' w
  stable_inv : ∀ {l s l' k s'}, prog.action l = .own → prog.step l s l' k s' → ¬inside l →
    ∀ w, inv s w → inv s' w
  stable : ∀ {l s l' k s'}, prog.action l = .own → prog.step l s l' k s' → ¬inside l →
    ∀ j w, inside j → holds j s w → holds j s' w
  death_inv : ∀ {l s}, prog.ends l → ∀ w, inv s w → inv (prog.death l s) w
  death : ∀ {l s}, prog.ends l → ∀ j w, inside j → holds j s w → holds j (prog.death l s) w

/-- What an outline promises of a state. -/
structure Outline.Valid {prog : Program C L S} (o : Outline prog) (μ : State P C L S) : Prop where
  inside : ∀ {p l}, μ.place p = some l → o.inside l →
    μ.owner = some p ∨ ∃ c l', prog.action l = .wait c l'
  owner : ∀ {p}, μ.owner = some p →
    ∃ l, μ.place p = some l ∧ o.inside l ∧ o.holds l μ.shared μ.waited
  free : μ.owner = none → o.inv μ.shared μ.waited

/-! ## §3 Every step keeps what an outline promises -/

section Validity

variable {prog : Program C L S} {o : Outline prog} {μ μ' : State P C L S} {p : P} {l l' : L}

theorem waited_mono {ws : C → Set P} (h : ∀ c, ws c ⊆ μ.waiters c) :
    State.waited { μ with waiters := ws } ⊆ μ.waited :=
  fun c hc => hc.mono (h c)

variable [DecidableEq P]

/-- Somebody else's place after a process has moved. -/
theorem place_update {place : P → Option L} {q : P} {k : Option L} {j : L}
    (h : Function.update place p k q = some j) :
    (q = p ∧ k = some j) ∨ (q ≠ p ∧ place q = some j) := by
  by_cases hq : q = p
  · subst hq
    rw [Function.update_self] at h
    exact .inl ⟨rfl, h⟩
  · rw [Function.update_of_ne hq] at h
    exact .inr ⟨hq, h⟩

namespace Outline.Valid

/-- A process outside moves to a place outside, or one with the mutex to a place inside. -/
theorem move_own (h : o.Valid μ) (hp : μ.place p = some l) (ha : prog.action l = .own) {s : S}
    {k : Option L} (hstep : prog.step l μ.shared l' k s) :
    o.Valid { μ with place := Function.update μ.place p (some l'), shared := s } := by
  obtain ⟨hside, -⟩ := o.own ha hstep
  -- a process inside that takes a step of its own is the owner
  have howner : o.inside l → μ.owner = some p := by
    intro hl
    rcases h.inside hp hl with howner | ⟨c, k', hw⟩
    · exact howner
    · rw [ha] at hw
      cases hw
  refine ⟨fun {q j} hq hj => ?_, fun {q} hq => ?_, fun hfree => ?_⟩
  · rcases place_update hq with ⟨rfl, hk⟩ | ⟨-, hq⟩
    · cases hk
      exact .inl (howner (hside.mp hj))
    · exact h.inside hq hj
  · obtain ⟨j, hj, hinside, hholds⟩ := h.owner hq
    by_cases hqp : q = p
    · subst hqp
      rw [hp, Option.some.injEq] at hj
      subst hj
      exact ⟨l', Function.update_self .., hside.mpr hinside, o.moved ha hstep hinside _ hholds⟩
    · refine ⟨j, (Function.update_of_ne hqp ..).trans hj, hinside, ?_⟩
      have hl : ¬o.inside l := by
        intro hl
        have heq := (howner hl).symm.trans hq
        simp only [Option.some.injEq] at heq
        exact hqp heq.symm
      exact o.stable ha hstep hl j _ hinside hholds
  · have hl : ¬o.inside l := by
      intro hl
      have heq := (howner hl).symm.trans hfree
      simp at heq
    exact o.stable_inv ha hstep hl _ (h.free hfree)

/-- A process that starts is outside. -/
theorem start (h : o.Valid μ) {q : P} {k : L} (hq : μ.place q = none) (hk : ¬o.inside k) :
    o.Valid { μ with place := Function.update μ.place q (some k) } := by
  refine ⟨fun {r j} hr hj => ?_, fun {r} hr => ?_, h.free⟩
  · rcases place_update hr with ⟨-, heq⟩ | ⟨-, hr⟩
    · cases heq
      exact absurd hj hk
    · exact h.inside hr hj
  · obtain ⟨j, hj, hrest⟩ := h.owner hr
    exact ⟨j, (Function.update_of_ne (ne_of_place hq hj).symm ..).trans hj, hrest⟩

/-- A process comes in: the invariant is what it finds. -/
theorem enter (h : o.Valid μ) (hfree : μ.owner = none) (hl' : o.inside l')
    (hholds : ∀ s w, o.inv s w → o.holds l' s w) :
    o.Valid { μ with place := Function.update μ.place p (some l'), owner := some p } := by
  refine ⟨fun {q j} hq hj => ?_, fun {q} hq => ?_, fun hnone => (by cases hnone)⟩
  · rcases place_update hq with ⟨rfl, -⟩ | ⟨-, hq⟩
    · exact .inl rfl
    · rcases h.inside hq hj with howner | hwait
      · rw [hfree] at howner
        cases howner
      · exact .inr hwait
  · cases hq
    exact ⟨l', Function.update_self .., hl', hholds _ _ (h.free hfree)⟩

/-- A process goes out: it leaves the invariant behind. -/
theorem leave (h : o.Valid μ) (hp : μ.place p = some l) (howner : μ.owner = some p)
    (hl' : ¬o.inside l') (hinv : ∀ s w, o.holds l s w → o.inv s w) :
    o.Valid { μ with place := Function.update μ.place p (some l'), owner := none } := by
  refine ⟨fun {q j} hq hj => ?_, fun {q} hq => (by cases hq), fun _ => ?_⟩
  · rcases place_update hq with ⟨rfl, hk⟩ | ⟨hne, hq⟩
    · cases hk
      exact absurd hj hl'
    · rcases h.inside hq hj with heq | hwait
      · rw [howner, Option.some.injEq] at heq
        exact absurd heq.symm hne
      · exact .inr hwait
  · obtain ⟨j, hj, -, hholds⟩ := h.owner howner
    rw [hp, Option.some.injEq] at hj
    subst hj
    exact hinv _ _ hholds

omit [DecidableEq P] in
/-- Fewer waiters. -/
theorem thin (h : o.Valid μ) {ws : C → Set P} (hws : ∀ c, ws c ⊆ μ.waiters c) :
    o.Valid { μ with waiters := ws } := by
  refine ⟨h.inside, fun {q} hq => ?_, fun hfree => o.inv_mono (waited_mono hws) (h.free hfree)⟩
  obtain ⟨l, hl, hinside, hholds⟩ := h.owner hq
  exact ⟨l, hl, hinside, o.holds_mono (waited_mono hws) hholds⟩

variable [DecidableEq C]

omit [DecidableEq P] in
/-- A process goes to sleep: the invariant holds with its condition among those waited on. -/
theorem sleep (h : o.Valid μ) {c : C} (hp : μ.place p = some l)
    (ha : prog.action l = .wait c l') (howner : μ.owner = some p) :
    o.Valid { μ with
      owner := none, waiters := Function.update μ.waiters c (insert p (μ.waiters c)) } := by
  refine ⟨fun {q j} hq hj => ?_, fun {q} hq => (by cases hq), fun _ => ?_⟩
  · rcases h.inside hq hj with heq | hwait
    · rw [howner, Option.some.injEq] at heq
      subst heq
      rw [hp, Option.some.injEq] at hq
      subst hq
      exact .inr ⟨c, l', ha⟩
    · exact .inr hwait
  · obtain ⟨j, hj, -, hholds⟩ := h.owner howner
    rw [hp, Option.some.injEq] at hj
    subst hj
    refine o.inv_mono (fun d hd => ?_) (o.waits ha _ _ hholds)
    rw [Set.mem_insert_iff]
    by_cases hdc : d = c
    · exact .inl hdc
    · change (Function.update μ.waiters c _ d).Nonempty at hd
      rw [Function.update_of_ne hdc] at hd
      exact .inr hd

/-- A broadcast by the owner or from outside: nobody waits on the condition any more. -/
theorem announce (h : o.Valid μ) {c : C} (hp : μ.place p = some l)
    (ha : prog.action l = .broadcast c l') :
    o.Valid { μ with
      place := Function.update μ.place p (some l'), waiters := Function.update μ.waiters c ∅ } := by
  have hside := o.broadcast ha
  have hws : ∀ d, Function.update μ.waiters c ∅ d ⊆ μ.waiters d := by
    intro d
    by_cases hdc : d = c
    · subst hdc
      rw [Function.update_self]
      exact Set.empty_subset _
    · rw [Function.update_of_ne hdc]
  have hwaited : State.waited { μ with waiters := Function.update μ.waiters c ∅ } ⊆
      μ.waited \ {c} := by
    intro d hd
    refine ⟨waited_mono hws hd, ?_⟩
    rintro rfl
    change (Function.update μ.waiters d ∅ d).Nonempty at hd
    rw [Function.update_self] at hd
    exact Set.not_nonempty_empty hd
  refine ⟨fun {q j} hq hj => ?_, fun {q} hq => ?_, fun hfree => (h.thin hws).free hfree⟩
  · rcases place_update hq with ⟨rfl, hk⟩ | ⟨-, hq⟩
    · cases hk
      rcases h.inside hp (hside.mp hj) with howner | ⟨d, k, hw⟩
      · exact .inl howner
      · rw [ha] at hw
        cases hw
    · exact h.inside hq hj
  · obtain ⟨j, hj, hinside, hholds⟩ := h.owner hq
    by_cases hqp : q = p
    · subst hqp
      rw [hp, Option.some.injEq] at hj
      subst hj
      refine ⟨l', Function.update_self .., hside.mpr hinside, ?_⟩
      exact o.holds_mono hwaited (o.announced ha hinside _ _ hholds)
    · refine ⟨j, (Function.update_of_ne hqp ..).trans hj, hinside, ?_⟩
      exact o.holds_mono (waited_mono hws) hholds

omit [DecidableEq C] in
/-- A process ends, at a `wait` if it has the mutex. -/
theorem bury (h : o.Valid μ) {ws : C → Set P} (hp : μ.place p = some l) (hends : prog.ends l)
    (hwait : μ.owner = some p → ∃ c l', prog.action l = .wait c l')
    (hws : ∀ c, ws c ⊆ μ.waiters c) :
    o.Valid { place := Function.update μ.place p none,
              owner := if μ.owner = some p then none else μ.owner, waiters := ws,
              shared := prog.death l μ.shared } := by
  refine ⟨fun {q j} hq hj => ?_, fun {q} hq => ?_, fun hfree => o.death_inv hends _ ?_⟩
  · rcases place_update hq with ⟨-, hk⟩ | ⟨hne, hq⟩
    · cases hk
    · rcases h.inside hq hj with howner | hw
      · left
        rw [howner, if_neg (by simpa using hne)]
      · exact .inr hw
  · dsimp only at hq
    split_ifs at hq with howner
    obtain ⟨j, hj, hinside, hholds⟩ := (h.thin hws).owner hq
    have hne : q ≠ p := by
      rintro rfl
      exact howner hq
    refine ⟨j, (Function.update_of_ne hne ..).trans hj, hinside, ?_⟩
    exact o.death hends j _ hinside hholds
  · -- the mutex was free, or the dead process had it and was about to wait
    dsimp only at hfree
    split_ifs at hfree with howner
    · obtain ⟨c, l', ha⟩ := hwait howner
      obtain ⟨j, hj, -, hholds⟩ := (h.thin hws).owner howner
      rw [show μ.place p = some j from hj, Option.some.injEq] at hp
      subst hp
      exact o.inv_mono (Set.subset_insert c _) (o.waits ha _ _ hholds)
    · exact (h.thin hws).free hfree

end Outline.Valid

variable [DecidableEq C]

/-- **Every step keeps what an outline promises.** -/
theorem Step.valid (h : o.Valid μ) (hstep : Step prog μ μ') : o.Valid μ' := by
  cases hstep with
  | own hp ha hs => exact h.move_own hp ha hs
  | @fork p q l l' k s hp ha hs hq =>
    apply (h.move_own hp ha hs).start
    · exact (Function.update_of_ne (ne_of_place hq hp) ..).trans hq
    · exact (o.own ha hs).2 k rfl
  | lock hp ha hfree => exact h.enter hfree (o.lock ha).2 (o.locked ha)
  | unlock hp ha howner => exact h.leave hp howner (o.unlock ha).2 (o.unlocks ha)
  | wait hp ha howner => exact h.sleep hp ha howner
  | resume hp ha hfree _ => exact h.enter hfree (o.wait ha).2 (o.waited ha)
  | broadcast hp ha => exact h.announce hp ha
  | wake hws => exact h.thin hws
  | die hp hends hwait ho hws =>
    subst ho
    exact h.bury hp hends hwait hws

/-- **The rule of outlines**: what an outline promises holds in every state that a program
reaches whose first process starts outside and finds the invariant. -/
theorem Outline.valid {s : S} (o : Outline prog) (hl : ¬o.inside l) (hs : o.inv s ∅)
    (h : Relation.ReflTransGen (Step prog) (.first p l s) μ) : o.Valid μ := by
  induction h with
  | refl =>
    refine ⟨fun {q k} hq hk => ?_, fun {q} hq => (by cases hq), fun _ => ?_⟩
    · obtain ⟨-, rfl⟩ := place_first hq
      exact absurd hk hl
    · exact o.inv_mono (fun c hc => absurd hc Set.not_nonempty_empty) hs
  | tail _ hstep ih => exact hstep.valid ih

end Validity

end MinixCv.Lib.Monitor

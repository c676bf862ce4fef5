import MinixCv.LockManager.Fifo
import MinixCv.Server.Wakeup

/-!
# First Come, First Served

`fifo_granting`: a process that waits for a mutex is not overtaken by one that asked for
it later.  It leaves the queue with the mutex, or by a notification about itself.  The
processes that one broadcast wakes ask for a mutex in the order in which their waits were
handled.
-/

namespace MinixCv.Server

open MinixCv.Lib MinixCv.LockManager

/-- The message makes `q` ask for mutex `k`: by its own lock, or by waking it. -/
def AsksFor (s : ServerState) (m : Message) (q k : ℤ) : Prop :=
  m.request = .lock q k ∨ ∃ b c, m.request = .broadcast b c ∧ s.Registered q c k

section Fifo

variable [Minix] {c c' : Config} {p q k : ℤ}

/-- A step after which `p` waits for `k`. -/
def StepWaiting (p k : ℤ) (c : Config) (l : Message × List Reply) (c' : Config) : Prop :=
  Step c l c' ∧ c'.server.Queued p k

/-- From `c` on, as long as `p` waits for `k`, no message makes `q` the owner of `k`. -/
def NotOvertaken (p q k : ℤ) (c : Config) : Prop :=
  ∀ ls c₁, Run (StepWaiting p k) c ls c₁ → ∀ l c₂, Step c₁ l c₂ →
    ¬ c₁.server.Owns q k → ¬ c₂.server.Owns q k

/-- From `c` on, `q` is made the owner of `k` only after `p` has owned it or a notification
    about `p` has been handled. -/
def ServedFirst (p q k : ℤ) (c : Config) : Prop :=
  ∀ ls c₁ l c₂, Run Step c ls c₁ → Step c₁ l c₂ → ¬ c₁.server.Owns q k → c₂.server.Owns q k →
    (∃ l' ∈ ls, l'.1.request = .interrupt p ∨ l'.1.request = .exit p) ∨
    ∃ ls₁ ls₂ c', ls = ls₁ ++ ls₂ ∧ Run Step c ls₁ c' ∧ c'.server.Owns p k

/-- `p` waits for `k`, and `q` does not stand before it. -/
structure Ahead (p q k : ℤ) (c : Config) : Prop where
  inv : Inv c
  queued : p ∈ (abs c.server).queue k
  not_before : ¬ Before ((abs c.server).queue k) q p

/-- **Step lemma**: while `p` waits, `q` does not get before it. -/
theorem Ahead.step {l : Message × List Reply} (h : Ahead p q k c) (hstep : StepWaiting p k c l c') :
    Ahead p q k c' := by
  obtain ⟨hstep, hqueued⟩ := hstep
  have hinv' := hstep.inv h.inv
  refine ⟨hinv', (queued_iff hinv'.tables).mp hqueued, ?_⟩
  rw [(hstep.manager h.inv).1]
  exact Manager.not_before_next h.inv.manager (hstep.admissible.admits h.inv) h.queued h.not_before

/-- **Run lemma**: whoever does not stand before `p` does not overtake it. -/
theorem Ahead.notOvertaken (hpq : p ≠ q) (h : Ahead p q k c) : NotOvertaken p q k c := by
  intro ls c₁ hrun l c₂ hstep hq
  have h₁ : Ahead p q k c₁ := hrun.invariant (fun _ _ _ h hstep => h.step hstep) h
  obtain ⟨hnext, hrep⟩ := hstep.manager h₁.inv
  rw [owns_iff h₁.inv.tables] at hq
  rw [owns_iff (hstep.inv h₁.inv).tables, hnext]
  exact Manager.not_made_owner h₁.inv.manager hrep h₁.queued hpq h₁.not_before hq

/-- `p` leaves the queue as the owner, or by a notification about it. -/
theorem leaves_queue (hc : Inv c) {l : Message × List Reply} (hstep : Step c l c')
    (hqueued : p ∈ (abs c.server).queue k) (hgone : ¬ c'.server.Queued p k) :
    (c'.server.Owns p k ∧ ⟨0, p⟩ ∈ l.2) ∨ l.1.request = .interrupt p ∨ l.1.request = .exit p := by
  obtain ⟨hnext, hrep⟩ := hstep.manager hc
  rw [queued_iff (hstep.inv hc).tables, hnext] at hgone
  rw [owns_iff (hstep.inv hc).tables, hnext]
  exact (Manager.next_queue hrep hqueued).resolve_left hgone

/-- **Run lemma**: along any run `p` keeps its place, gets the mutex, or is named by a
notification. -/
theorem Ahead.run {ls : List (Message × List Reply)} (h : Ahead p q k c) (hrun : Run Step c ls c') :
    Ahead p q k c' ∨
    (∃ l' ∈ ls, l'.1.request = .interrupt p ∨ l'.1.request = .exit p) ∨
    ∃ ls₁ ls₂ c₁, ls = ls₁ ++ ls₂ ∧ Run Step c ls₁ c₁ ∧ c₁.server.Owns p k := by
  induction hrun with
  | nil c => exact Or.inl h
  | @cons c c₁ c₂ l ls hstep _ ih =>
    -- follow `p` step by step until it leaves the queue
    by_cases hqueued : c₁.server.Queued p k
    · rcases ih (h.step ⟨hstep, hqueued⟩) with hahead | ⟨l', hl', hr⟩ |
        ⟨ls₁, ls₂, c', rfl, hrun', hown⟩
      · exact Or.inl hahead
      · exact Or.inr (Or.inl ⟨l', List.mem_cons_of_mem _ hl', hr⟩)
      · exact Or.inr (Or.inr ⟨l :: ls₁, ls₂, c', rfl, .cons hstep hrun', hown⟩)
    · right
      rcases leaves_queue h.inv hstep h.queued hqueued with ⟨hown, _⟩ | hr
      · exact Or.inr ⟨[l], ls, c₁, rfl, .cons hstep (.nil c₁), hown⟩
      · exact Or.inl ⟨l, List.mem_cons_self, hr⟩

theorem Ahead.servedFirst (hpq : p ≠ q) (h : Ahead p q k c) : ServedFirst p q k c := by
  intro ls c₁ l c₂ hrun hstep hq hown
  rcases h.run hrun with h₁ | hnote | hserved
  · exact absurd hown (h₁.notOvertaken hpq [] c₁ (.nil c₁) l c₂ hstep hq)
  · exact Or.inl hnote
  · exact Or.inr hserved

omit [Minix] in
/-- Whoever asks for a mutex is not in its queue. -/
theorem not_queued_of_asks (hc : Inv c) {m : Message} (hm : Admissible c m)
    (h : AsksFor c.server m q k) : q ∉ (abs c.server).queue k := by
  intro hq
  rcases h with hr | ⟨b, d, _, hreg⟩
  · exact hm.admits hc q (by rw [hr]; rfl) (Manager.waiting_of_queue hq)
  · have hplace := hc.manager.exclusive.eq_of_mem (i := .inl k) (j := .inr d) hq
      (List.mem_map.mpr ⟨(q, k), (registered_iff hc.tables).mp hreg, rfl⟩)
    simp at hplace

/-- The waits of two processes are registered in the order in which they are handled, and
stay so while both are registered. -/
theorem registered_in_order (hc : Inv c) {m₁ m₂ : Message} {o₁ o₂ : List Reply}
    {c₁ c₂ c₃ c₄ : Config} {numerCv k' : ℤ} {ls₁ ls₂ : List (Message × List Reply)}
    (h₁ : Step c (m₁, o₁) c₁) (hr₁ : m₁.request = .wait p numerCv k)
    (hacc₁ : ⟨-EINVAL, p⟩ ∉ o₁)
    (hrun₁ : Run Step c₁ ls₁ c₂) (htake₁ : ∀ l ∈ ls₁, ¬ TakesOff p numerCv l.1)
    (h₂ : Step c₂ (m₂, o₂) c₃) (hr₂ : m₂.request = .wait q numerCv k')
    (hacc₂ : ⟨-EINVAL, q⟩ ∉ o₂)
    (hrun₂ : Run Step c₃ ls₂ c₄)
    (htake₂ : ∀ l ∈ ls₂, ¬ TakesOff p numerCv l.1 ∧ ¬ TakesOff q numerCv l.1) :
    Before ((abs c₄.server).waiters numerCv) (p, k) (q, k') := by
  have hinv₁ := h₁.inv hc
  have hreg₁ := registered_of_accepted hc h₁ hr₁ hacc₁
  obtain ⟨hinv₂, hreg₂⟩ := registered_run hrun₁ hinv₁ hreg₁ htake₁
  have hinv₃ := h₂.inv hinv₂
  have hown₂ := owns_of_accepted hinv₂ h₂ hr₂ hacc₂
  -- the second wait is entered behind the first
  have hbefore₃ : Before ((abs c₃.server).waiters numerCv) (p, k) (q, k') := by
    rw [(h₂.manager hinv₂).1]
    simp only [hr₂]
    exact Manager.before_waiters_wait ((registered_iff hinv₂.tables).mp hreg₂) hown₂
  clear h₂ hrun₁ hreg₂ hown₂ hinv₂
  -- and the order stays, since nothing takes either of them off
  induction hrun₂ with
  | nil _ => exact hbefore₃
  | cons hstep _ ih =>
    obtain ⟨hp, hq⟩ := htake₂ _ List.mem_cons_self
    simp only [TakesOff, not_or, not_exists] at hp hq
    refine ih (fun l hl => htake₂ l (List.mem_cons_of_mem _ hl)) (hstep.inv hinv₃) ?_
    rw [(hstep.manager hinv₃).1]
    exact Manager.before_waiters_next hbefore₃ hp.1 hp.2 hq.2

/-- **First come, first served.**  In every reachable configuration, for two processes `p`
and `q` and a mutex `k`:

- if `p` waits for `k` when `q` asks for it, `q` is not made its owner as long as `p` waits,
  and gets it only after `p` has had it or a notification about `p` has been handled
- if one broadcast wakes both, `p` being registered before `q`, then `q` is queued, `p` has
  the mutex or stands before `q`, and in the second case the same holds
- `p` stops waiting for `k` only as its owner, with `0` sent to it, or because of a
  notification about `p`
- the waiters of a condition stand in the order in which their waits were handled -/
theorem fifo_granting (hc : Reachable c) (hpq : p ≠ q) (k : ℤ) :
    (c.server.Queued p k → ∀ l c', Step c l c' → AsksFor c.server l.1 q k →
      NotOvertaken p q k c ∧ ServedFirst p q k c) ∧
    (∀ b numerCv out c', Step c (b, out) c' → (∃ x, b.request = .broadcast x numerCv) →
      Before ((abs c.server).waiters numerCv) (p, k) (q, k) →
      ¬ c'.server.Owns q k ∧ c'.server.Queued q k ∧
        (c'.server.Owns p k ∨ Before ((abs c'.server).queue k) p q) ∧
        (c'.server.Queued p k → NotOvertaken p q k c' ∧ ServedFirst p q k c')) ∧
    (∀ l c', Step c l c' → c.server.Queued p k → ¬ c'.server.Queued p k →
      (c'.server.Owns p k ∧ ⟨0, p⟩ ∈ l.2) ∨
        l.1.request = .interrupt p ∨ l.1.request = .exit p) ∧
    (∀ numerCv k' m₁ o₁ c₁ ls₁ c₂ m₂ o₂ c₃ ls₂ c₄,
      Step c (m₁, o₁) c₁ → m₁.request = .wait p numerCv k → ⟨-EINVAL, p⟩ ∉ o₁ →
      Run Step c₁ ls₁ c₂ → (∀ l ∈ ls₁, ¬ TakesOff p numerCv l.1) →
      Step c₂ (m₂, o₂) c₃ → m₂.request = .wait q numerCv k' → ⟨-EINVAL, q⟩ ∉ o₂ →
      Run Step c₃ ls₂ c₄ →
      (∀ l ∈ ls₂, ¬ TakesOff p numerCv l.1 ∧ ¬ TakesOff q numerCv l.1) →
      Before ((abs c₄.server).waiters numerCv) (p, k) (q, k')) := by
  have hinv := hc.inv
  refine ⟨fun hqueued l c' hstep hasks => ?_, ?_, ?_, ?_⟩
  · -- `q` is not in the queue when it asks
    have hahead : Ahead p q k c :=
      ⟨hinv, (queued_iff hinv.tables).mp hqueued, fun hbefore =>
        not_queued_of_asks hinv hstep.admissible hasks (hbefore.subset (by simp))⟩
    exact ⟨hahead.notOvertaken hpq, hahead.servedFirst hpq⟩
  · rintro b numerCv out c' hstep ⟨x, hx⟩ hbefore
    have hinv' := hstep.inv hinv
    have hnext : abs c'.server = ((abs c.server).broadcast numerCv).1 := by
      rw [(hstep.manager hinv).1]
      simp only [hx, Manager.next]
    obtain ⟨hnot, hqueue, horder⟩ := Manager.broadcast_order hinv.manager hbefore
    rw [← hnext] at hnot hqueue horder
    rw [owns_iff hinv'.tables, queued_iff hinv'.tables, owns_iff hinv'.tables]
    refine ⟨hnot, hqueue, horder, fun hqueued => ?_⟩
    have hpqueue := (queued_iff hinv'.tables).mp hqueued
    have hahead : Ahead p q k c' := by
      refine ⟨hinv', hpqueue, ?_⟩
      rcases horder with hown | hpq'
      · exact absurd hpqueue (hinv'.manager.owner_not_queued hown)
      · exact hpq'.asymm (hinv'.manager.queue_nodup k)
    exact ⟨hahead.notOvertaken hpq, hahead.servedFirst hpq⟩
  · intro l c' hstep hqueued hgone
    exact leaves_queue hinv hstep ((queued_iff hinv.tables).mp hqueued) hgone
  · intro numerCv k' m₁ o₁ c₁ ls₁ c₂ m₂ o₂ c₃ ls₂ c₄ h₁ hr₁ hacc₁ hrun₁ htake₁ h₂ hr₂ hacc₂
      hrun₂ htake₂
    exact registered_in_order hinv h₁ hr₁ hacc₁ hrun₁ htake₁ h₂ hr₂ hacc₂ hrun₂ htake₂

end Fifo

/-- Process 3 asks for the mutex that process 2 already waits for. -/
theorem fifo_granting_two_waiters :
    letI := Minix.v321
    ∃ c, Reachable c ∧ c.server.Queued 2 7 ∧ NotOvertaken 2 3 7 c := by
  let _ := Minix.v321
  obtain ⟨c, h⟩ := shows_contended (o := 1) (p := 2) (m := 7) (by decide)
  have hqueued : c.server.Queued 2 7 := by
    rw [queued_iff h.reachable.inv.tables, h.abs_eq]
    simp [Manager.queue]
  obtain ⟨c', hstep, -⟩ := h.lock_taken (p := 3) (m := 7) (o := 1) (q := [2])
    (by simp [waiting_single_iff]) (by simp) (by decide)
  exact ⟨c, h.reachable, hqueued, ((fifo_granting h.reachable (by decide) 7).1 hqueued _ c' hstep
    (Or.inl (request_lock 3 7 0))).1⟩

end MinixCv.Server

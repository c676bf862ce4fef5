import MinixCv.Lib.Census
import MinixCv.Lib.Inevitable
import MinixCv.System.Progress
import Mathlib.Data.Prod.Lex

/-!
# Programs That Get Done

Every step that a program, the library or the server takes for it brings the program nearer to
its end, as long as nobody else wakes its processes: a variant of the places of the program
becomes a variant of the whole system.

- `Event.Inner`, `Event.Outer`: the steps of the program, and those that leave it alone
- `Stand`: how far a process is in its call
- `Weights`: a variant of the places and of the data
- `Inner.descends`, `Outer.descends`: it falls in every inner step, and no outer step raises it
-/

namespace MinixCv.Programs

open MinixCv.Lib MinixCv.Lib.Monitor MinixCv.LockManager MinixCv.Server MinixCv.Client

universe u v

variable {L : Type u} {S : Type v}

/-! ## §1 The program and the others -/

/-- A process of the program moves, or its message is received. -/
def Event.Inner (τ : State L S) : Event → Prop
  | .own _ | .fork _ _ | .call _ | .die _ => True
  | .serve (.receive p) => ∃ l, τ.place p = some l
  | _ => False

/-- Somebody else moves, without asking for the mutex `m` and without waking anybody of the
    program; or PM reports about somebody else. -/
def Event.Outer (m : ℤ) (τ : State L S) : Event → Prop
  | .other _ k => k.mutex ≠ some m
  | .serve (.receive p) => τ.place p = none ∧
      ∀ c, (τ.sys.clients p).phase = .posted (.broadcast c) →
        ∀ q l, τ.place q = some l → ¬τ.sys.server.Registered q c m
  | .serve (.eintr p) => τ.place p = none
  | .serve (.exit p) => τ.place p = none
  | _ => False

/-- One step of the program. -/
def Inner [Minix] (prog : Program ℤ L S) (m : ℤ) (τ τ' : State L S) : Prop :=
  ∃ e, Step prog m τ e τ' ∧ e.Inner τ

/-- One step of the others. -/
def Outer [Minix] (prog : Program ℤ L S) (m : ℤ) (τ τ' : State L S) : Prop :=
  ∃ e, Step prog m τ e τ' ∧ e.Outer m τ

theorem Event.Inner.leaves {τ : State L S} {e : Event} {m : ℤ} (h : e.Inner τ) : e.Leaves m := by
  rintro p k rfl
  exact h.elim

theorem Event.Outer.leaves {τ : State L S} {e : Event} {m : ℤ} (h : e.Outer m τ) :
    e.Leaves m := by
  rintro p k rfl
  exact h

/-! ## §2 How far a process is in its call -/

/-- Outside the library, with a message not received, with one sent again after an
    interruption, in the queue of the mutex, or registered with a condition. -/
inductive Stand where
  | out
  | asks
  | again
  | queued
  | asleep

def standOf (a : Manager) (m p : ℤ) : Phase → Stand
  | .idle => .out
  | .posted (.relock _ _) => .again
  | .posted _ => .asks
  | .blocked (.wait c _) => if (p, m) ∈ a.waiters c then .asleep else .queued
  | .blocked _ => .queued

def stand (m : ℤ) (σ : System.State) (p : ℤ) : Stand :=
  standOf (abs σ.server) m p (σ.clients p).phase

/-- The processes of the program, each with its place and how far it is in its call. -/
def standing (m : ℤ) (τ : State L S) (p : ℤ) : Option (L × Stand) :=
  (τ.place p).map fun l => (l, stand m τ.sys p)

theorem standing_of_place {m : ℤ} {τ : State L S} {p : ℤ} {l : L} (h : τ.place p = some l) :
    standing m τ p = some (l, stand m τ.sys p) := by
  rw [standing, h]
  rfl

theorem standing_eq_none {m : ℤ} {τ : State L S} {p : ℤ} :
    standing m τ p = none ↔ τ.place p = none := by
  simp [standing]

/-- A variant: `high` and `low` weigh the places, `highData` and `lowData` the data.  A
    broadcast lowers the first weight; taking and giving back the mutex may leave it as it is,
    and lowers the second. -/
structure Weights (prog : Program ℤ L S) where
  high : L → ℕ
  low : L → ℕ
  highData : S → ℕ
  lowData : S → ℕ
  lock : ∀ {l l'}, prog.action l = .lock l' → high l' ≤ high l ∧ low l' < low l
  unlock : ∀ {l l'}, prog.action l = .unlock l' → high l' ≤ high l ∧ low l' < low l
  wait : ∀ {l c l'}, prog.action l = .wait c l' → high l' ≤ high l
  broadcast : ∀ {l c l'}, prog.action l = .broadcast c l' → high l' < high l

namespace Weights

variable {prog : Program ℤ L S} (w : Weights prog)

/-- The second weight of a process that is to get the mutex at `l`. -/
def back (l : L) : ℕ :=
  match prog.action l with
  | .wait _ l' => w.low l' + 1
  | _ => w.low l

/-- The second weight of a process, with three steps for each call. -/
def stands : L × Stand → ℕ
  | (l, .out) => 3 * w.low l + 2
  | (l, .asks) => 3 * w.low l + 1
  | (l, .again) => 3 * w.back l + 1
  | (l, .queued) => 3 * w.back l
  | (_, .asleep) => 0

/-- The state has the variant `a`. -/
def Ranked (m : ℤ) (τ : State L S) (a : ℕ ×ₗ ℕ) : Prop :=
  ∃ h n, Census (standing m τ) (fun x => w.high x.1) h ∧ Census (standing m τ) w.stands n ∧
    a = toLex (h + w.highData τ.shared, n + 3 * w.lowData τ.shared)

/-- A step of its own from `l` to `l'`, perhaps with a child at `k`, lowers the variant. -/
def Falls (l : L) (s : S) (l' : L) (k : Option L) (s' : S) : Prop :=
  toLex (w.high l' + k.elim 0 w.high + w.highData s',
      w.low l' + k.elim 0 (fun j => w.low j + 1) + w.lowData s') <
    toLex (w.high l + w.highData s, w.low l + w.lowData s)

end Weights

/-! ## §3 A message is handled -/

section Serve

variable [Minix] {prog : Program ℤ L S} {d : Discipline prog} (w : Weights prog) {m : ℤ}
  {τ : State L S} {σ' : System.State} {r : Request} {out : List Reply} {q : ℤ} {l : L}

/-- Whose message has been handled has no message to be received. -/
theorem sender_not_posted {σ : System.State} (hσ : System.Inv σ) (h : System.Serves σ r out σ')
    (hlive : q ∉ σ'.dead) (hs : r.sender = some q) (site : Site) :
    (σ'.clients q).phase ≠ .posted site := by
  obtain ⟨site', hposted, rfl⟩ := h.sender q hs
  have hblocked : ((σ.clients q).received).phase = .blocked site' := by
    rw [Process.received_of_posted hposted]
  rcases Manager.sender_cases hσ.manager (h.admits hσ) h.replies hs with
    ⟨typ, hmem, hanswer, -⟩ | ⟨hmem, -⟩
  · -- no answer to the sender makes it send again
    rw [h.client_of_mem hσ hlive hmem, if_pos hs]
    have hends : typ = 0 ∨ typ = EPERM ∨ (∃ c k, site' = .wait c k ∧ typ = -EINVAL) := by
      cases site' with
      | lock k => exact hanswer.elim (fun hok => .inl hok.1) fun hno => .inr (.inl hno.1)
      | relock c k => exact hanswer.elim (fun hok => .inl hok.1) fun hno => .inr (.inl hno.1)
      | unlock k => exact hanswer.elim (fun hok => .inl hok.1) fun hno => .inr (.inl hno.1)
      | wait c k => exact .inr (.inr ⟨c, k, rfl, hanswer.1⟩)
      | broadcast c => exact .inl hanswer
    obtain rfl | rfl | ⟨c, k, rfl, rfl⟩ := hends
    · simp [Process.reply_zero hblocked]
    · simp [Process.reply_EPERM hblocked]
    · simp [Process.reply_neg_EINVAL hblocked]
  · rw [h.client_of_not_mem hmem, if_pos hs, hblocked]
    simp

/-- The first weight of a process never rises, and it falls when its broadcast is handled. -/
theorem high_serves (hτ : Inv d m τ) (h : System.Serves τ.sys r out σ')
    (hq : τ.place q = some l) (hlive : q ∉ σ'.dead) :
    ∃ l', advance prog τ.sys σ' τ.place q = some l' ∧ w.high l' ≤ w.high l ∧
      ∀ c, r = .broadcast q c → w.high l' < w.high l := by
  have hsite : ∀ {c}, r = .broadcast q c → (τ.sys.clients q).phase = .posted (.broadcast c) := by
    intro c hr
    obtain ⟨site, hposted, hr'⟩ := h.sender q (by rw [hr]; rfl)
    rw [hposted]
    rw [hr] at hr'
    cases site <;> simp_all [System.siteRequest]
  cases fate hτ h hq hlive with
  | stays hidle _ _ _ hlingers =>
    refine ⟨l, (advance_same hidle.mp).trans hq, le_refl _, fun c hr => ?_⟩
    -- a broadcast is answered at once
    rcases hlingers with hsame | ⟨site, hposted, hw, -, -⟩ | hint
    · refine absurd ?_ (sender_not_posted hτ.reachable.inv h hlive (by rw [hr]; rfl) (.broadcast c))
      rw [hsame, hsite hr]
    · rw [hsite hr, Phase.posted.injEq] at hposted
      subst hposted
      cases hw
    · rw [hr] at hint
      cases hint
  | @takes l' ha hne hidle _ _ _ hw =>
    have hnext : (prog.action l).next = some l' := by
      rcases ha with ha | ⟨c, ha⟩ <;> rw [ha] <;> rfl
    refine ⟨l', advance_next hq hne hidle hnext, ?_, fun c hr => ?_⟩
    · rcases ha with ha | ⟨c, ha⟩
      · exact (w.lock ha).1
      · exact w.wait ha
    · rw [hsite hr] at hw
      cases hw
  | @frees l' hr ha hne hidle _ _ _ =>
    refine ⟨l', advance_next hq hne hidle (by rw [ha]; rfl), (w.unlock ha).1, fun c hr' => ?_⟩
    rw [hr] at hr'
    cases hr'
  | sleeps hr _ _ hne _ _ _ _ _ _ =>
    refine ⟨l, (advance_same fun h => absurd h hne).trans hq, le_refl _, fun c hr' => ?_⟩
    rw [hr] at hr'
    cases hr'
  | @announces c l' _ ha hne hidle _ _ =>
    have hlt := w.broadcast ha
    exact ⟨l', advance_next hq hne hidle (by rw [ha]; rfl), hlt.le, fun _ _ => hlt⟩

/-- Nobody wakes `q`: the message reports no interruption of `q`, and it is no broadcast of a
    condition that `q` waits on. -/
structure Calm (m : ℤ) (σ : System.State) (r : Request) (q : ℤ) : Prop where
  interrupt : r ≠ .interrupt q
  broadcast : ∀ b c, r = .broadcast b c → (q, m) ∉ (abs σ.server).waiters c

/-- A registration outlasts what wakes nobody. -/
theorem Calm.registered {σ : System.State} (hcalm : Calm m σ r q)
    (h : System.Serves σ r out σ') (hlive : q ∉ σ'.dead) {c : ℤ}
    (hc : (q, m) ∈ (abs σ.server).waiters c) : (q, m) ∈ (abs σ'.server).waiters c := by
  rw [h.next]
  rcases Manager.next_waiters h.replies hc with hc' | ⟨⟨b, hr⟩, -⟩ | hr | hr
  · exact hc'
  · exact absurd hc (hcalm.broadcast b c hr)
  · exact absurd hr hcalm.interrupt
  · exact absurd hr (h.dead q hlive).2

omit [Minix] in
/-- A process to which nothing happens does not get heavier. -/
theorem stands_kept {a a' : Manager} (h : ∀ c, (q, m) ∈ a.waiters c → (q, m) ∈ a'.waiters c)
    (φ : Phase) : w.stands (l, standOf a' m q φ) ≤ w.stands (l, standOf a m q φ) := by
  cases φ with
  | idle => exact le_refl _
  | posted site => cases site <;> exact le_refl _
  | blocked site =>
    cases site with
    | wait c k =>
      simp only [standOf]
      by_cases hc' : (q, m) ∈ a'.waiters c
      · rw [if_pos hc']
        exact Nat.zero_le _
      · rw [if_neg hc', if_neg fun hc => hc' (h c hc)]
    | lock k => exact le_refl _
    | relock c k => exact le_refl _
    | unlock k => exact le_refl _
    | broadcast c => exact le_refl _

/-- **The second weight of a process** does not rise while nobody wakes it, and it falls when
its message is handled, unless that is a broadcast. -/
theorem stands_serves (hτ : Inv d m τ) (h : System.Serves τ.sys r out σ')
    (hq : τ.place q = some l) (hlive : q ∉ σ'.dead) (hcalm : Calm m τ.sys r q)
    (hb : ∀ c, r ≠ .broadcast q c) :
    ∃ l', advance prog τ.sys σ' τ.place q = some l' ∧
      w.stands (l', stand m σ' q) ≤ w.stands (l, stand m τ.sys q) ∧
      (r.sender = some q → w.stands (l', stand m σ' q) < w.stands (l, stand m τ.sys q)) := by
  have hσ := hτ.reachable.inv
  unfold stand
  have hfalls : ∀ {x y : ℕ}, x < y → x ≤ y ∧ (r.sender = some q → x < y) :=
    fun hlt => ⟨hlt.le, fun _ => hlt⟩
  cases fate hτ h hq hlive with
  | stays hidle _ _ _ hlingers =>
    refine ⟨l, (advance_same hidle.mp).trans hq, ?_⟩
    rcases hlingers with hsame | ⟨site, hposted, hw, hblocked, -⟩ | hint
    · rw [hsame]
      refine ⟨stands_kept w (fun _ => hcalm.registered h hlive) _, fun hs => ?_⟩
      obtain ⟨site, hposted, -⟩ := h.sender q hs
      refine absurd ?_ (sender_not_posted hσ h hlive hs site)
      rw [hsame, hposted]
    · obtain ⟨-, hcall⟩ := (hτ.inCall hq).site (.inl hposted)
      rw [hposted, hblocked]
      apply hfalls
      cases site <;> simp only [System.wants, reduceCtorEq] at hw
      case lock k =>
        obtain ⟨-, l', ha⟩ := libraryCall_lock hcall
        simp [standOf, Weights.stands, Weights.back, ha]
      case relock c k =>
        simp [standOf, Weights.stands]
    · exact absurd hint hcalm.interrupt
  | @takes l' ha hne hidle hnot hown _ hw =>
    have hnext : (prog.action l).next = some l' := by
      rcases ha with ha | ⟨c, ha⟩ <;> rw [ha] <;> rfl
    refine ⟨l', advance_next hq hne hidle hnext, hfalls ?_⟩
    rw [hidle]
    obtain ⟨site, hphase, hcall⟩ := hτ.inCall hq hne
    have hwell := h.manager hσ
    rcases ha with ha | ⟨c, ha⟩
    · -- it asked for the mutex, or stood in its queue
      have hlt := (w.lock ha).2
      rw [ha, libraryCall, Option.some.injEq] at hcall
      rcases hphase with hphase | hphase
      · rw [hphase]
        cases site <;> simp only [Site.call, reduceCtorEq] at hcall
        simp only [standOf, Weights.stands]
        omega
      · rw [hphase]
        cases site <;> simp only [Site.call, reduceCtorEq] at hcall
        simp only [standOf, Weights.stands, Weights.back, ha]
        omega
    · -- nobody has woken it, so it was not asleep
      have hawake : ∀ k, (q, m) ∉ (abs τ.sys.server).waiters k := fun k hk =>
        hwell.waiter_not_owner (hcalm.registered h hlive hk) hown
      rw [ha, libraryCall, Option.some.injEq] at hcall
      rcases hphase with hphase | hphase
      · rw [hphase] at hw ⊢
        cases site <;> simp only [Site.call, reduceCtorEq, System.wants] at hcall hw
        simp only [standOf, Weights.stands, Weights.back, ha]
        omega
      · rw [hphase]
        cases site <;> simp only [Site.call, reduceCtorEq] at hcall
        · simp only [standOf, if_neg (hawake _), Weights.stands, Weights.back, ha]
          omega
        · simp only [standOf, Weights.stands, Weights.back, ha]
          omega
  | @frees l' hr ha hne hidle _ _ _ =>
    refine ⟨l', advance_next hq hne hidle (by rw [ha]; rfl), hfalls ?_⟩
    obtain ⟨site, hposted, hr'⟩ := h.sender q (by rw [hr]; rfl)
    rw [hr] at hr'
    have hlt := (w.unlock ha).2
    rw [hidle, hposted]
    cases site <;> simp only [System.siteRequest, reduceCtorEq] at hr'
    simp only [standOf, Weights.stands]
    omega
  | @sleeps c l' hr _ _ hne _ _ _ _ hphase hreg =>
    refine ⟨l, (advance_same fun h => absurd h hne).trans hq, hfalls ?_⟩
    obtain ⟨site, hposted, hr'⟩ := h.sender q (by rw [hr]; rfl)
    rw [hr] at hr'
    rw [hphase, hposted]
    cases site <;> simp only [System.siteRequest, reduceCtorEq] at hr'
    simp [standOf, Weights.stands, hreg]
  | @announces c l' hr _ _ _ _ _ => exact absurd hr (hb c)

omit [Minix] in
/-- The processes are the same before and after. -/
theorem standing_none {σ' : System.State} {p : ℤ} (h : standing m τ p = none) :
    standing m ⟨σ', advance prog τ.sys σ' τ.place, τ.shared⟩ p = none := by
  rw [standing_eq_none] at h ⊢
  simp [advance, h]

omit [Minix] in
/-- If no process gets heavier, all of them do not; and if one gets lighter, all of them do. -/
theorem lower_standing (prog : Program ℤ L S) (σ' : System.State) {f : L × Stand → ℕ} {n : ℕ} (h : Census (standing m τ) f n)
    (hle : ∀ {p l}, τ.place p = some l → ∃ l', advance prog τ.sys σ' τ.place p = some l' ∧
      f (l', stand m σ' p) ≤ f (l, stand m τ.sys p)) :
    ∃ k ≤ n, Census (standing m ⟨σ', advance prog τ.sys σ' τ.place, τ.shared⟩) f k ∧
      ((∃ p l l', τ.place p = some l ∧ advance prog τ.sys σ' τ.place p = some l' ∧
        f (l', stand m σ' p) < f (l, stand m τ.sys p)) → k < n) := by
  have hall : ∀ p, (standing m ⟨σ', advance prog τ.sys σ' τ.place, τ.shared⟩ p).elim 0 f ≤
      (standing m τ p).elim 0 f := by
    intro p
    cases hp : τ.place p with
    | none =>
      rw [standing_none (standing_eq_none.mpr hp)]
      exact Nat.zero_le _
    | some l =>
      obtain ⟨l', hl', hfl⟩ := hle hp
      rw [standing_of_place hp, standing_of_place hl']
      exact hfl
  obtain ⟨k, hk, hcensus, hlt⟩ := h.lower (fun _ => standing_none) hall
  refine ⟨k, hk, hcensus, ?_⟩
  rintro ⟨p, l, l', hp, hl', hfl⟩
  refine hlt ⟨p, ?_⟩
  rw [standing_of_place hp, standing_of_place hl']
  exact hfl

/-- A broadcast of the program is handled: the first weight falls. -/
theorem Weights.Ranked.announced {a : ℕ ×ₗ ℕ} (hrank : w.Ranked m τ a) (hτ : Inv d m τ)
    (h : System.Serves τ.sys r out σ') (hlive : ∀ {p l}, τ.place p = some l → p ∉ σ'.dead)
    (hq : τ.place q = some l) {c : ℤ} (hr : r = .broadcast q c) :
    ∃ b < a, w.Ranked m ⟨σ', advance prog τ.sys σ' τ.place, τ.shared⟩ b := by
  obtain ⟨i, n, hi, hn, rfl⟩ := hrank
  have hhigh : ∀ {p l}, τ.place p = some l → ∃ l', advance prog τ.sys σ' τ.place p = some l' ∧
      w.high l' ≤ w.high l ∧ ∀ c, r = .broadcast p c → w.high l' < w.high l :=
    fun hp => high_serves w hτ h hp (hlive hp)
  obtain ⟨i', -, hi', hlt⟩ := lower_standing prog σ' hi fun hp => by
    obtain ⟨l', hl', hle, -⟩ := hhigh hp
    exact ⟨l', hl', hle⟩
  obtain ⟨n', hn'⟩ := hn.exists_other (fun _ => standing_none) w.stands
  refine ⟨_, ?_, i', n', hi', hn', rfl⟩
  obtain ⟨l', hl', -, hfall⟩ := hhigh hq
  rw [Prod.Lex.toLex_lt_toLex]
  exact .inl (Nat.add_lt_add_right (hlt ⟨q, l, l', hq, hl', hfall c hr⟩) _)

/-- Any other message is handled, and nobody of the program is woken. -/
theorem Weights.Ranked.served {a : ℕ ×ₗ ℕ} (hrank : w.Ranked m τ a) (hτ : Inv d m τ)
    (h : System.Serves τ.sys r out σ') (hlive : ∀ {p l}, τ.place p = some l → p ∉ σ'.dead)
    (hcalm : ∀ {p l}, τ.place p = some l → Calm m τ.sys r p ∧ ∀ c, r ≠ .broadcast p c) :
    ∃ b ≤ a, w.Ranked m ⟨σ', advance prog τ.sys σ' τ.place, τ.shared⟩ b ∧
      ((∃ p l, r.sender = some p ∧ τ.place p = some l) → b < a) := by
  obtain ⟨i, n, hi, hn, rfl⟩ := hrank
  obtain ⟨i', hle, hi', -⟩ := lower_standing prog σ' hi fun hp => by
    obtain ⟨l', hl', hle, -⟩ := high_serves w hτ h hp (hlive hp)
    exact ⟨l', hl', hle⟩
  have hlow : ∀ {p l}, τ.place p = some l → ∃ l', advance prog τ.sys σ' τ.place p = some l' ∧
      w.stands (l', stand m σ' p) ≤ w.stands (l, stand m τ.sys p) ∧
      (r.sender = some p → w.stands (l', stand m σ' p) < w.stands (l, stand m τ.sys p)) :=
    fun hp => stands_serves w hτ h hp (hlive hp) (hcalm hp).1 (hcalm hp).2
  obtain ⟨n', hle', hn', hlt⟩ := lower_standing prog σ' hn fun hp => by
    obtain ⟨l', hl', hle, -⟩ := hlow hp
    exact ⟨l', hl', hle⟩
  refine ⟨_, ?_, ⟨i', n', hi', hn', rfl⟩, ?_⟩
  · exact Prod.Lex.toLex_mono ⟨Nat.add_le_add_right hle _, Nat.add_le_add_right hle' _⟩
  · rintro ⟨p, l, hs, hp⟩
    obtain ⟨l', hl', -, hfall⟩ := hlow hp
    exact Prod.Lex.toLex_strictMono (Prod.mk_lt_mk_of_le_of_lt (Nat.add_le_add_right hle _)
      (Nat.add_lt_add_right (hlt ⟨p, l, l', hp, hl', hfall hs⟩) _))

end Serve

/-! ## §4 Every step of the program lowers the variant -/

section Steps

variable [Minix] {prog : Program ℤ L S} {d : Discipline prog} {w : Weights prog} {m : ℤ}
  {τ τ' : State L S} {a : ℕ ×ₗ ℕ}

omit [Minix] in
theorem standing_update (p : ℤ) (x : Option L) (s : S) :
    standing m { τ with place := Function.update τ.place p x, shared := s } =
      Function.update (standing m τ) p (x.map fun l => (l, stand m τ.sys p)) := by
  funext q
  by_cases hq : q = p
  · subst hq
    simp [standing]
  · simp [standing, hq]

omit [Minix] in
theorem stand_idle {σ : System.State} {p : ℤ} (h : (σ.clients p).phase = .idle) :
    stand m σ p = .out := by
  rw [stand, h]
  rfl

omit [Minix] in
/-- A process that calls the library posts a message. -/
theorem standing_call {p : ℤ} {l : L} (k : Call) (hp : τ.place p = some l) :
    standing m { τ with sys := τ.sys.call p k } =
      Function.update (standing m τ) p (some (l, .asks)) := by
  funext q
  by_cases hq : q = p
  · subst hq
    rw [Function.update_self]
    cases k <;> simp [standing, hp, stand, standOf, System.State.call, Process.enter, Call.site]
  · simp [standing, stand, hq, System.State.call]

/-- The others do not raise the variant. -/
theorem Outer.descends (hτ : Inv d m τ) (hrank : w.Ranked m τ a) (h : Outer prog m τ τ') :
    ∃ b ≤ a, w.Ranked m τ' b := by
  have hσ := hτ.reachable.inv
  obtain ⟨e, hstep, he⟩ := h
  cases hstep with
  | own _ _ _ _ => exact he.elim
  | fork _ _ _ _ _ _ => exact he.elim
  | call _ _ _ => exact he.elim
  | die _ _ _ => exact he.elim
  | @other p k σ hp hstep =>
    cases hstep
    refine ⟨a, le_refl a, ?_⟩
    have hsame : standing m { τ with sys := τ.sys.call p k } = standing m τ := by
      funext q
      by_cases hq : q = p
      · simp [standing, hq, hp]
      · simp [standing, stand, hq, System.State.call]
    obtain ⟨i, n, hi, hn, ha⟩ := hrank
    exact ⟨i, n, hsame ▸ hi, hsame ▸ hn, ha⟩
  | @serve e σ hcall hexit hstep =>
    obtain ⟨r, out, hserves, hr⟩ := served hσ hstep hcall
    have hlive : ∀ {p l}, τ.place p = some l → p ∉ σ.dead := fun hp => hτ.live hexit hstep hp
    have hcalm : ∀ {q l}, τ.place q = some l → Calm m τ.sys r q ∧ ∀ c, r ≠ .broadcast q c := by
      intro q l hq
      cases e with
      | call p k => exact absurd rfl (hcall p k)
      | receive p =>
        obtain ⟨hp, hwakes⟩ := he
        obtain ⟨site, hposted, rfl⟩ := hr
        refine ⟨⟨(System.siteRequest_ne p q site).1, fun b c hr hw => ?_⟩, fun c hr => ?_⟩
        · -- a broadcast by somebody else, of a condition that `q` does not wait on
          have hsite : site = .broadcast c := by
            cases site <;> simp_all [System.siteRequest]
          exact hwakes c (hsite ▸ hposted) q l hq ((registered_iff hσ.tables).mpr hw)
        · have hs := System.siteRequest_sender p site
          rw [hr] at hs
          cases hs
          exact ne_of_place hp hq rfl
      | eintr p =>
        have hp : τ.place p = none := he
        obtain rfl : r = .interrupt p := hr
        refine ⟨⟨fun heq => ?_, fun b c hr => (by cases hr)⟩, fun c hr => (by cases hr)⟩
        cases heq
        exact ne_of_place hp hq rfl
      | exit p =>
        obtain rfl : r = .exit p := hr
        exact ⟨⟨by simp, fun b c hr => (by cases hr)⟩, fun c hr => (by cases hr)⟩
    obtain ⟨b, hb, hrank', -⟩ := hrank.served w hτ hserves hlive hcalm
    exact ⟨b, hb, hrank'⟩

namespace Weights.Ranked

variable {p q : ℤ} {l l' : L} {s : S}

omit [Minix] in
/-- A process outside the library, and how its weights change with its place. -/
theorem step_out (hrank : w.Ranked m τ a) (hp : τ.place p = some l)
    (hidle : (τ.sys.clients p).phase = .idle) :
    ∃ i n, a = toLex (i + w.high l + w.highData τ.shared,
        n + (3 * w.low l + 2) + 3 * w.lowData τ.shared) ∧
      ∀ (x : Option L) (s : S), Census (standing m { τ with
          place := Function.update τ.place p x, shared := s }) (fun y => w.high y.1)
        (i + x.elim 0 w.high) ∧
      Census (standing m { τ with place := Function.update τ.place p x, shared := s }) w.stands
        (n + x.elim 0 fun k => 3 * w.low k + 2) := by
  obtain ⟨i, n, hi, hn, rfl⟩ := hrank
  have hst := standing_of_place (m := m) hp
  rw [stand_idle hidle] at hst
  obtain ⟨i', rfl, hi'⟩ := hi.update p
  obtain ⟨n', rfl, hn'⟩ := hn.update p
  refine ⟨i', n', ?_, fun x s => ?_⟩
  · rw [hst]
    rfl
  · rw [standing_update, stand_idle hidle]
    have hix := hi' (x.map fun l => (l, .out))
    have hnx := hn' (x.map fun l => (l, .out))
    rw [Option.elim_map] at hix hnx
    exact ⟨hix, hnx⟩

omit [Minix] in
/-- A step of its own. -/
theorem moved (hrank : w.Ranked m τ a) (hp : τ.place p = some l)
    (hidle : (τ.sys.clients p).phase = .idle) (hfalls : w.Falls l τ.shared l' none s) :
    ∃ b < a, w.Ranked m
      { τ with place := Function.update τ.place p (some l'), shared := s } b := by
  obtain ⟨i, n, rfl, hafter⟩ := hrank.step_out hp hidle
  obtain ⟨hi, hn⟩ := hafter (some l') s
  refine ⟨_, ?_, _, _, hi, hn, rfl⟩
  simp only [Weights.Falls, Option.elim_none, Option.elim_some, Prod.Lex.toLex_lt_toLex]
    at hfalls ⊢
  omega

omit [Minix] in
/-- A fork. -/
theorem forked {k : L} (hrank : w.Ranked m τ a) (hp : τ.place p = some l)
    (hidle : (τ.sys.clients p).phase = .idle) (hq : τ.place q = none)
    (hidle' : (τ.sys.clients q).phase = .idle) (hfalls : w.Falls l τ.shared l' (some k) s) :
    ∃ b < a, w.Ranked m { τ with
      place := Function.update (Function.update τ.place p (some l')) q (some k),
      shared := s } b := by
  obtain ⟨i, n, rfl, hafter⟩ := hrank.step_out hp hidle
  obtain ⟨hi, hn⟩ := hafter (some l') s
  have hnone : standing m { τ with place := Function.update τ.place p (some l'), shared := s } q =
      none := by
    rw [standing_eq_none]
    exact (Function.update_of_ne (ne_of_place hq hp) ..).trans hq
  have hchild := standing_update (m := m)
    (τ := { τ with place := Function.update τ.place p (some l'), shared := s }) q (some k) s
  rw [Option.map_some, stand_idle hidle'] at hchild
  have hi' := hi.start hnone (k, .out)
  have hn' := hn.start hnone (k, .out)
  rw [← hchild] at hi' hn'
  refine ⟨_, ?_, _, _, hi', hn', rfl⟩
  simp only [Weights.Falls, Weights.stands, Option.elim_some, Prod.Lex.toLex_lt_toLex]
    at hfalls ⊢
  omega

omit [Minix] in
/-- A call of the library. -/
theorem called (hrank : w.Ranked m τ a) (hp : τ.place p = some l)
    (hidle : (τ.sys.clients p).phase = .idle) (k : Call) :
    ∃ b < a, w.Ranked m { τ with sys := τ.sys.call p k } b := by
  obtain ⟨i, n, hi, hn, rfl⟩ := hrank
  have hst := standing_of_place (m := m) hp
  rw [stand_idle hidle] at hst
  obtain ⟨i', rfl, hi'⟩ := hi.move hst (l, .asks)
  obtain ⟨n', rfl, hn'⟩ := hn.move hst (l, .asks)
  rw [← standing_call k hp] at hi' hn'
  refine ⟨_, ?_, _, _, hi', hn', rfl⟩
  rw [Prod.Lex.toLex_lt_toLex]
  refine .inr ⟨rfl, ?_⟩
  simp only [Weights.stands]
  omega

omit [Minix] in
/-- The end of a process. -/
theorem ended (hrank : w.Ranked m τ a) (hp : τ.place p = some l)
    (hidle : (τ.sys.clients p).phase = .idle)
    (hhigh : w.highData s ≤ w.high l + w.highData τ.shared)
    (hlow : w.lowData s ≤ w.low l + w.lowData τ.shared) :
    ∃ b < a, w.Ranked m { τ with place := Function.update τ.place p none, shared := s } b := by
  obtain ⟨i, n, rfl, hafter⟩ := hrank.step_out hp hidle
  obtain ⟨hi, hn⟩ := hafter none s
  refine ⟨_, ?_, _, _, hi, hn, rfl⟩
  simp only [Option.elim_none, Prod.Lex.toLex_lt_toLex]
  omega

end Weights.Ranked

/-- **Every step of the program lowers the variant**, if its own steps and its ends do. -/
theorem Inner.descends (hτ : Inv d m τ)
    (hends : ∀ l, prog.ends l → prog.action l = .own ∧ ¬d.inside l)
    (hown : ∀ {p l l' k s'}, τ.place p = some l → prog.action l = .own →
      prog.step l τ.shared l' k s' → w.Falls l τ.shared l' k s')
    (hdeath : ∀ {l}, prog.ends l →
      w.highData (prog.death l τ.shared) ≤ w.high l + w.highData τ.shared ∧
        w.lowData (prog.death l τ.shared) ≤ w.low l + w.lowData τ.shared)
    (hrank : w.Ranked m τ a) (h : Inner prog m τ τ') : ∃ b < a, w.Ranked m τ' b := by
  obtain ⟨e, hstep, he⟩ := h
  cases hstep with
  | other _ _ => exact he.elim
  | own hp hidle ha hs => exact hrank.moved hp hidle (hown hp ha hs)
  | fork hp hidle ha hs hq huntouched =>
    exact hrank.forked hp hidle hq huntouched.2.1 (hown hp ha hs)
  | call hp _ hstep =>
    cases hstep with
    | call _ hidle => exact hrank.called hp hidle _
  | @die p l hp hl _ =>
    obtain ⟨hhigh, hlow⟩ := hdeath hl
    refine hrank.ended hp ?_ hhigh hlow
    -- a process ends outside the library
    by_contra hne
    obtain ⟨site, -, hcall⟩ := hτ.inCall hp hne
    rw [(hends l hl).1] at hcall
    cases hcall
  | @serve e σ hcall hexit hstep =>
    obtain ⟨r, out, hserves, hr⟩ := served hτ.reachable.inv hstep hcall
    have hlive : ∀ {p l}, τ.place p = some l → p ∉ σ.dead := fun hp => hτ.live hexit hstep hp
    cases e with
    | call p k => exact absurd rfl (hcall p k)
    | eintr p => exact he.elim
    | exit p => exact he.elim
    | receive p =>
      obtain ⟨l, hp⟩ := he
      obtain ⟨site, hposted, rfl⟩ := hr
      by_cases hsite : ∃ c, site = .broadcast c
      · obtain ⟨c, rfl⟩ := hsite
        exact hrank.announced w hτ hserves hlive hp rfl
      · -- whatever else it is, it wakes nobody
        have hno : ∀ b c, System.siteRequest p site ≠ .broadcast b c := by
          intro b c hr
          cases site <;> simp_all [System.siteRequest]
        obtain ⟨b, -, hrank', hlt⟩ := hrank.served w hτ hserves hlive fun {q l} _ =>
          ⟨⟨(System.siteRequest_ne p q site).1, fun b c hr => absurd hr (hno b c)⟩, hno q⟩
        exact ⟨b, hlt ⟨p, l, System.siteRequest_sender p site, hp⟩, hrank'⟩

end Steps

/-! ## §5 Who can go on takes a step -/

section Enabled

variable [Minix] {prog : Program ℤ L S} {d : Discipline prog} {m : ℤ} {τ : State L S}

/-- The server handles the posted messages of the program without writing outside its
    tables. -/
def Room (τ : State L S) : Prop :=
  ∀ p l site, τ.place p = some l → (τ.sys.clients p).phase = .posted site →
    ∃ x, obsluz τ.sys.server (site.message p) = .ok x

omit [Minix] in
theorem Untouched.same {σ σ' : System.State} {q : ℤ} (h : Untouched σ q) (hlive : q ∉ σ'.dead)
    (hsame : σ'.clients q = σ.clients q) : Untouched σ' q := by
  refine ⟨hlive, ?_, ?_⟩
  · rw [hsame, h.2.1]
  · rw [hsame, h.2.2]

/-- All but finitely many processes have never called the library. -/
theorem finite_touched {σ : System.State} (hσ : System.Reachable σ) :
    ∃ T : Finset ℤ, ∀ p ∉ T, Untouched σ p := by
  obtain ⟨start, koniec, errno, es, hrun⟩ := hσ
  refine hrun.invariant (I := fun σ => ∃ T : Finset ℤ, ∀ p ∉ T, Untouched σ p) ?_
    ⟨∅, fun p _ => ⟨Finset.notMem_empty p, rfl, rfl⟩⟩
  rintro σ e σ' ⟨T, hT⟩ hstep
  -- a step touches its process and whoever is sent a reply
  cases hstep with
  | @call p k _ _ =>
    refine ⟨insert p T, fun q hq => ?_⟩
    rw [Finset.mem_insert, not_or] at hq
    have h := hT q hq.2
    exact h.same h.1 ((call_clients p k q).2 hq.1)
  | @receive p site s out _ _ =>
    refine ⟨insert p (T ∪ (out.map (·.dokad)).toFinset), fun q hq => ?_⟩
    simp only [Finset.mem_insert, Finset.mem_union, List.mem_toFinset, not_or] at hq
    have h := hT q hq.2.1
    exact h.same h.1 ((System.deliverAll_of_not_mem hq.2.2).trans (Function.update_of_ne hq.1 ..))
  | @eintr p x s out _ _ =>
    refine ⟨T ∪ (out.map (·.dokad)).toFinset, fun q hq => ?_⟩
    simp only [Finset.mem_union, List.mem_toFinset, not_or] at hq
    have h := hT q hq.1
    exact h.same h.1 (System.deliverAll_of_not_mem hq.2)
  | @exit p x s out _ _ =>
    refine ⟨insert p (T ∪ (out.map (·.dokad)).toFinset), fun q hq => ?_⟩
    simp only [Finset.mem_insert, Finset.mem_union, List.mem_toFinset, not_or] at hq
    have h := hT q hq.2.1
    refine h.same ?_ (System.deliverAll_of_not_mem hq.2.2)
    simpa [System.State.notify, hq.1] using h.1

/-- A number for a child. -/
theorem exists_fresh {w : Weights prog} {a : ℕ ×ₗ ℕ} (hσ : System.Reachable τ.sys)
    (hrank : w.Ranked m τ a) : ∃ q, τ.place q = none ∧ Untouched τ.sys q := by
  obtain ⟨T, hT⟩ := finite_touched hσ
  obtain ⟨-, -, ⟨T', hT', -⟩, -, -⟩ := hrank
  obtain ⟨q, hq⟩ := Infinite.exists_notMem_finset (T ∪ T')
  rw [Finset.mem_union, not_or] at hq
  exact ⟨q, standing_eq_none.mp (hT' q hq.2), hT q hq.1⟩

/-- **Who can go on takes a step**, if the tables of the server have room. -/
theorem CanMove.inner {w : Weights prog} {a : ℕ ×ₗ ℕ} {p : ℤ} (h : CanMove prog m τ p)
    (hτ : Inv d m τ) (hends : ∀ l, prog.ends l → prog.action l = .own ∧ ¬d.inside l)
    (hrank : w.Ranked m τ a) (hroom : Room τ) : ∃ τ', Inner prog m τ τ' := by
  obtain ⟨l, hp, ⟨site, hposted⟩ | ⟨hidle, ⟨k, hk⟩ | hl | ⟨ha, l', k, s, hs⟩⟩⟩ := h
  · obtain ⟨⟨s, out⟩, hok⟩ := hroom p l site hp hposted
    exact ⟨_, _, .serve (by simp) (by simp) (.receive hposted hok), l, hp⟩
  · exact ⟨_, _, .call hp hk (.call (hτ.alive hp) hidle), trivial⟩
  · -- whoever ends is outside the monitor
    have hnot : ¬(τ.sys.clients p).Holds m := fun hholds =>
      (hends l hl).2 ((hτ.took_iff hp).mp hholds.2)
    exact ⟨_, _, .die hp hl hnot, trivial⟩
  · cases k with
    | none => exact ⟨_, _, .own hp hidle ha hs, trivial⟩
    | some k =>
      obtain ⟨q, hq, huntouched⟩ := exists_fresh hτ.reachable hrank
      exact ⟨_, _, .fork hp hidle ha hs hq huntouched, trivial⟩

end Enabled

end MinixCv.Programs

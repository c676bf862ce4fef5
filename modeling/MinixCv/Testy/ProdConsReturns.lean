import MinixCv.System.Alone
import MinixCv.Testy.ProdConsRuns

/-!
# Producers And Consumers On The Server

`prod_cons.c` keeps its buffer, prints everything and comes to its end: whatever order the
processes and the server take their steps in, the values that are still to be made and printed
become fewer, or some process comes nearer to the next one, to its exit or to a condition it
waits on.

- `weights`: the variant, and `falls`, that every step of the code lowers it
- `exists_done`: a run to the end on a fresh server
- `buffer_safe`: the buffer is never lost, doubled or miscounted, and nobody waits in vain
- `all_printed`: when `main` returns, everything the producers made has been printed
- `always_returns`: `main` returns on every path, with everything printed
-/

namespace MinixCv.ProdCons

open MinixCv.Lib MinixCv.Lib.Monitor MinixCv.LockManager MinixCv.Server MinixCv.Client

/-! ## §1 The variant -/

/-- The broadcasts that a process is about to make, before it puts or takes the next value. -/
def Place.announces : Place → ℕ
  | .forkProds _ | .forkCons _ | .waitProds _ | .mainLock | .mainRead | .mainClose _
  | .mainWrite _ | .mainBroadcast => 1
  | .pBroadcast _ _ | .cBroadcast _ => 1
  | _ => 0

/-- The steps up to the next value, the exit or the next condition, with those of the children
    that `main` will start. -/
def Place.ahead (a : Args) : Place → ℕ
  | .forkProds i => 10 + 9 * a.cons.toNat + 7 * (a.prods.toNat - i)
  | .forkCons i => 9 + 9 * (a.cons.toNat - i)
  | .waitProds _ => 8
  | .mainLock => 7
  | .mainRead => 6
  | .mainClose _ => 5
  | .mainWrite _ => 4
  | .mainBroadcast => 3
  | .mainUnlock => 2
  | .waitAll => 1
  | .returned => 0
  | .pBroadcast _ _ => 8
  | .pWrite _ _ => 7
  | .pUnlock _ => 6
  | .produce _ => 5
  | .pLock _ _ => 4
  | .pRead _ _ => 3
  | .pTest _ _ _ => 2
  | .pWriteBack _ _ _ => 1
  | .pPut _ _ _ => 1
  | .pWait _ _ => 0
  | .pExit => 1
  | .cBroadcast _ => 10
  | .cWrite _ => 9
  | .cUnlock => 8
  | .cLock => 7
  | .cRead => 6
  | .cTest _ => 5
  | .cWriteBack _ => 4
  | .cFlag _ => 3
  | .cUnlockExit => 2
  | .cExit => 1
  | .cTake _ => 1
  | .cPrint _ _ => 0
  | .cWait => 0
  | .failed _ => 0

/-- The values that are still to be made, and those still to be printed, before the steps. -/
def weights (a : Args) : Programs.Weights (prodCons a False) where
  high := Place.announces
  low := Place.ahead a
  highData s := 2 * (a.prods.toNat * a.turns.toNat - s.made.card) +
    2 * (a.prods.toNat * a.turns.toNat - s.printed.length)
  lowData s := s.zombies
  lock h := by
    obtain ⟨rfl, rfl⟩ | ⟨t, d, rfl, rfl⟩ | ⟨rfl, rfl⟩ := action_lock h <;>
      simp [Place.announces, Place.ahead]
  unlock h := by
    obtain ⟨rfl, rfl⟩ | ⟨t, rfl, rfl⟩ | ⟨rfl, rfl⟩ | ⟨rfl, rfl⟩ := action_unlock h <;>
      simp [Place.announces, Place.ahead]
  wait h := by
    obtain ⟨t, d, rfl, -, rfl⟩ | ⟨rfl, -, rfl⟩ := action_wait h <;> simp [Place.announces]
  broadcast h := by
    obtain ⟨rfl, -, rfl⟩ | ⟨t, b, rfl, -, rfl⟩ | ⟨b, rfl, -, rfl⟩ := action_broadcast h <;>
      simp [Place.announces]

section Falls

variable {a : Args} {p₀ p : ℤ} {place : ℤ → Option Place} {l l' : Place} {k : Option Place}
  {s s' : Env}

/-- A producer that puts a value into the buffer still has to make it. -/
theorem Tally.made_lt (h : Tally a p₀ place s) {t : ℕ} {d : Value} {b : Buf}
    (hp : place p = some (.pPut t d b)) : s.made.card < a.prods.toNat * a.turns.toNat := by
  obtain ⟨-, -, -, n, -, -, -, hn, -, hcard, -⟩ := h.counts
  have hturn : t < a.turns.toNat := h.inTurn hp
  have hle : a.turns.toNat - t ≤ n := hn.le hp
  omega

/-- A consumer that prints a value prints one that was made. -/
theorem Tally.printed_lt (h : Tally a p₀ place s) {b : Buf} {d : Int8}
    (hsound : Sound b s.toData {d}) : s.printed.length < a.prods.toNat * a.turns.toNat := by
  obtain ⟨-, -, -, n, -, -, -, -, -, hcard, -⟩ := h.counts
  have hmade := congrArg Multiset.card hsound.made
  simp only [Multiset.card_add, Multiset.coe_card, Multiset.card_singleton] at hmade
  omega

/-- A step that makes and prints nothing. -/
theorem falls_of_lt (hmade : s'.made = s.made) (hprinted : s'.printed = s.printed)
    (hhigh : l'.announces + k.elim 0 Place.announces ≤ l.announces)
    (hlow : l'.ahead a + k.elim 0 (fun j => j.ahead a + 1) + s'.zombies <
      l.ahead a + s.zombies) : (weights a).Falls l s l' k s' := by
  simp only [Programs.Weights.Falls, weights, Prod.Lex.toLex_lt_toLex, hmade, hprinted]
  omega

/-- **Every step of the code lowers the variant.** -/
theorem falls (h : Tally a p₀ place s) (hp : place p = some l)
    (hbefore : l.inside = true → ∃ w, Asserts a s.toData w l) (hs : Own a s l l' k s') :
    (weights a).Falls l s l' k s' := by
  -- a value that is made or printed counts for more than the broadcast that follows
  have hmade : ∀ {d : Value}, s.made.card < a.prods.toNat * a.turns.toNat → l.announces = 0 →
      l'.announces ≤ 1 → (weights a).Falls l s l' none { s with made := d.1 ::ₘ s.made } := by
    intro d hlt hl hl'
    simp only [Programs.Weights.Falls, weights, Option.elim_none, Prod.Lex.toLex_lt_toLex,
      Multiset.card_cons]
    omega
  have hprinted : ∀ {d : Int8}, s.printed.length < a.prods.toNat * a.turns.toNat →
      l.announces = 0 → l'.announces ≤ 1 →
      (weights a).Falls l s l' none { s with printed := s.printed ++ [d] } := by
    intro d hlt hl hl'
    simp only [Programs.Weights.Falls, weights, Option.elim_none, Prod.Lex.toLex_lt_toLex,
      List.length_append, List.length_singleton]
    omega
  -- one place nearer, and nothing changes but the pipe
  have hwalk : ∀ {pipe : List Int8}, l'.announces ≤ l.announces → l'.ahead a < l.ahead a →
      (weights a).Falls l s l' none { s with pipe := pipe } := by
    intro pipe hhigh hlow
    refine falls_of_lt rfl rfl hhigh ?_
    simp only [Option.elim_none]
    omega
  cases hs with
  | @forkProducer i hi =>
    refine falls_of_lt rfl rfl (Nat.le_refl 1) ?_
    simp only [Place.ahead, Option.elim_some]
    omega
  | forkedProducers _ =>
    refine hwalk (Nat.le_refl 1) ?_
    simp only [Place.ahead]
    omega
  | @forkConsumer i hi =>
    refine falls_of_lt rfl rfl (Nat.le_refl 1) ?_
    simp only [Place.ahead, Option.elim_some]
    omega
  | forkedConsumers _ =>
    refine hwalk (Nat.le_refl 1) ?_
    simp only [Place.ahead]
    omega
  | waitProducer hz =>
    refine falls_of_lt rfl rfl (Nat.le_refl 1) ?_
    simp only [Place.ahead, Option.elim_none]
    omega
  | @waitNobody n hz hc =>
    -- `main` waits for producers, and they run or have ended
    obtain ⟨lm, np, nc, -, hlm, -, -, -, hch, -, hst, -⟩ := h.counts
    have hpp : p = p₀ := by
      by_contra hne
      have hmain := h.others hp hne
      cases hmain
    rw [← hpp, hp, Option.some.injEq] at hlm
    subst hlm
    have hnp := hst.1
    omega
  | waitOne hz =>
    refine falls_of_lt rfl rfl (Nat.le_refl 0) ?_
    simp only [Place.ahead, Option.elim_none]
    omega
  | mainClose =>
    refine falls_of_lt rfl rfl (Nat.le_refl 1) ?_
    simp only [Place.ahead, Option.elim_none]
    omega
  | pPutFirst _ _ => exact hmade (h.made_lt hp) rfl (Nat.le_refl 1)
  | pPut _ _ => exact hmade (h.made_lt hp) rfl (Nat.zero_le 1)
  | cPrintLast _ =>
    obtain ⟨w, -, hsound, -⟩ := hbefore rfl
    exact hprinted (h.printed_lt hsound) rfl (Nat.le_refl 1)
  | cPrint _ =>
    obtain ⟨w, -, hsound, -⟩ := hbefore rfl
    exact hprinted (h.printed_lt hsound) rfl (Nat.zero_le 1)
  | mainRead hread | mainReadFails hread | pRead hread | pReadFails hread | cRead hread
  | cReadFails hread =>
    cases hread
    exact hwalk (by simp [Place.announces]) (by simp [Place.ahead])
  | mainWrite hwrite | pWriteBack hwrite | pWrite hwrite | cWriteBack hwrite | cWrite hwrite =>
    cases hwrite
    exact hwalk (by simp [Place.announces]) (by simp [Place.ahead])
  | waitedProducers | waitedAll _ _ | produce _ | produced _ | pFull _ | pNotFull _ | pPutFails _
  | cEmpty _ | cNotEmpty _ | cEnd _ | cGoOn _ | cTake _ | cTakeFails _ =>
    exact hwalk (by simp [Place.announces]) (by simp [Place.ahead])

end Falls

/-! ## §2 `main` returns -/

section Returns

variable [Minix] {a : Args} {p₀ : ℤ} {l₀ : Place} {s₀ : Env}
  {τ τ' : Programs.State Place Env} {x : ℕ ×ₗ ℕ}

/-- Every state has some variant: only finitely many processes run. -/
theorem Reached.exists_ranked (h : Reached a p₀ l₀ s₀ τ) (hprologue : prologue a = .ok (l₀, s₀)) :
    ∃ x, (weights a).Ranked a.mutex τ x := by
  obtain ⟨lm, np, nc, n, -, hnp, -⟩ := (h.tally hprologue).counts
  have hnone : ∀ p, τ.place p = none → Programs.standing a.mutex τ p = none :=
    fun p hp => Programs.standing_eq_none.mpr hp
  obtain ⟨i, hi⟩ := hnp.exists_other hnone fun y => (weights a).high y.1
  obtain ⟨n, hn⟩ := hnp.exists_other hnone (weights a).stands
  exact ⟨_, i, n, hi, hn, rfl⟩

/-- Every step of the program, the library or the server for it lowers the variant. -/
theorem Reached.inner (h : Reached a p₀ l₀ s₀ τ) (hprologue : prologue a = .ok (l₀, s₀))
    (hrank : (weights a).Ranked a.mutex τ x)
    (hstep : Programs.Inner (prodCons a False) a.mutex τ τ') :
    ∃ y < x, (weights a).Ranked a.mutex τ' y := by
  obtain ⟨hl₀, hs₀⟩ := rest_first False hprologue
  have htally := h.tally hprologue
  obtain ⟨hτ, -, μ, hsteps, hμ⟩ := h
  have hvalid := (outline a False).valid hl₀ hs₀ hsteps
  refine hstep.descends hτ ends_outside (fun {p l l' k s'} hp ha hs => ?_) (fun {l} hl => ?_) hrank
  · refine falls htally hp (fun hin => ?_) hs
    have hμp : μ.place p = some l := by rw [hμ.place, hp]
    rw [← hμ.shared]
    exact ⟨_, asserts_of_owner hvalid hμp (owner_of_own hvalid hμp ha hin)⟩
  · obtain rfl | rfl | hfalse := hl
    · refine ⟨Nat.le_add_left .., ?_⟩
      simp [prodCons, weights, Place.isMain, Place.ahead, Nat.add_comm]
    · refine ⟨Nat.le_add_left .., ?_⟩
      simp [prodCons, weights, Place.isMain, Place.ahead, Nat.add_comm]
    · exact hfalse.elim

/-- Everything has been done: `main` has returned, the others have ended, and what was made has
    been printed, as much as the producers had turns. -/
def Done (a : Args) (p₀ : ℤ) (τ : Programs.State Place Env) : Prop :=
  τ.place = Function.update (fun _ => none) p₀ (some .returned) ∧
    (τ.shared.printed : Multiset Int8) = τ.shared.made ∧
    (τ.shared.printed.length : ℤ) = a.prods * a.turns

/-- Somebody can go on, or everything has been done. -/
theorem Reached.goes_on (h : Reached a p₀ l₀ s₀ τ) (hprologue : prologue a = .ok (l₀, s₀))
    (hcons : 1 ≤ a.cons) (hpipe : BSIZE + 2 ≤ a.pipeBuf)
    (hrank : (weights a).Ranked a.mutex τ x) (hroom : Programs.Room τ) :
    Done a p₀ τ ∨ ∃ τ', Programs.Inner (prodCons a False) a.mutex τ τ' := by
  rcases h.canMove hprologue hcons hpipe with ⟨p, hp⟩ | hall
  · exact .inr (hp.inner h.inv ends_outside hrank hroom)
  · left
    have htally := h.tally hprologue
    obtain ⟨lm, -, -, -, hlm, -⟩ := htally.counts
    obtain ⟨-, rfl⟩ := hall p₀ lm hlm
    refine ⟨?_, htally.printed hprologue hcons hlm⟩
    funext p
    cases hp : τ.place p with
    | none => rw [Function.update_of_ne (ne_of_place hp hlm)]
    | some l =>
      obtain ⟨rfl, rfl⟩ := hall p l hp
      rw [Function.update_self]

/-- What a state that is reached must come to. -/
theorem Reached.returns (h : Reached a p₀ l₀ s₀ τ) (hprologue : prologue a = .ok (l₀, s₀))
    (hcons : 1 ≤ a.cons) (hpipe : BSIZE + 2 ≤ a.pipeBuf) :
    Inevitable (Programs.Outer (prodCons a False) a.mutex)
      (Programs.Inner (prodCons a False) a.mutex)
      (fun τ => Done a p₀ τ ∨ ¬Programs.Room τ) τ := by
  obtain ⟨x, hx⟩ := h.exists_ranked hprologue
  refine Inevitable.of_variant
    (R := fun τ x => Reached a p₀ l₀ s₀ τ ∧ (weights a).Ranked a.mutex τ x) ?_ ?_ ?_ ⟨h, hx⟩
  · rintro τ τ' x ⟨h, hx⟩ hstep
    obtain ⟨y, hle, hy⟩ := hstep.descends h.inv hx
    obtain ⟨e, hstep, he⟩ := hstep
    exact ⟨y, hle, h.step hstep he.leaves, hy⟩
  · rintro τ τ' x ⟨h, hx⟩ hstep
    obtain ⟨y, hlt, hy⟩ := h.inner hprologue hx hstep
    obtain ⟨e, hstep, he⟩ := hstep
    exact ⟨y, hlt, h.step hstep he.leaves, hy⟩
  · rintro τ x ⟨h, hx⟩
    by_cases hroom : Programs.Room τ
    · exact (h.goes_on hprologue hcons hpipe hx hroom).imp_left .inl
    · exact .inl (.inr hroom)

end Returns

/-! ## §3 The program alone on a fresh server -/

section Crowd

variable {a : Args} {μ μ' : State ℤ ℤ Place Env} {l l' : Place} {n : ℕ}

/-- A process, with the children that it will start. -/
def Place.crowd (a : Args) : Place → ℕ
  | .forkProds i => 1 + (a.prods.toNat - i) + a.cons.toNat
  | .forkCons i => 1 + (a.cons.toNat - i)
  | _ => 1

/-- A step starts no process that was not counted. -/
theorem Own.crowd {s s' : Env} {k : Option Place} (h : Own a s l l' k s') :
    l'.crowd a + k.elim 0 (Place.crowd a) ≤ l.crowd a := by
  cases h <;> simp only [Place.crowd, Option.elim_none, Option.elim_some] <;> omega

theorem crowd_called (h : (action a l).next = some l') : l'.crowd a = l.crowd a := by
  cases l <;> simp only [action, Action.next, Option.some.injEq, reduceCtorEq] at h <;>
    subst h <;> rfl

theorem Step.crowd (h : Census μ.place (Place.crowd a) n)
    (hstep : Monitor.Step (prodCons a False) μ μ') :
    ∃ k ≤ n, Census μ'.place (Place.crowd a) k := by
  -- a process that moves to a place that counts for no more
  have hmove : ∀ {p l l'}, μ.place p = some l → l'.crowd a ≤ l.crowd a →
      ∃ k ≤ n, Census (Function.update μ.place p (some l')) (Place.crowd a) k := by
    intro p l l' hp hle
    obtain ⟨k, rfl, hk⟩ := h.move hp l'
    exact ⟨_, Nat.add_le_add_left hle k, hk⟩
  cases hstep with
  | own hp _ hs => exact hmove hp (Own.crowd hs)
  | @fork p q l l' k s hp _ hs hq =>
    have hle := Own.crowd hs
    obtain ⟨j, rfl, hj⟩ := h.move hp l'
    have hq' : Function.update μ.place p (some l') q = none :=
      (Function.update_of_ne (ne_of_place hq hp) ..).trans hq
    refine ⟨_, ?_, hj.start hq' k⟩
    simp only [Option.elim_some] at hle
    omega
  | lock hp ha _ => exact hmove hp (crowd_called (by rw [show action a _ = _ from ha]; rfl)).le
  | unlock hp ha _ => exact hmove hp (crowd_called (by rw [show action a _ = _ from ha]; rfl)).le
  | wait _ _ _ => exact ⟨n, le_refl n, h⟩
  | resume hp ha _ _ =>
    exact hmove hp (crowd_called (by rw [show action a _ = _ from ha]; rfl)).le
  | broadcast hp ha =>
    exact hmove hp (crowd_called (by rw [show action a _ = _ from ha]; rfl)).le
  | wake _ => exact ⟨n, le_refl n, h⟩
  | die hp _ _ _ _ =>
    obtain ⟨k, rfl, hk⟩ := h.finish hp
    exact ⟨k, Nat.le_add_right .., hk⟩

/-- No more processes run than `main` and those that it was told to start. -/
theorem reaches_crowd {p₀ : ℤ} {s₀ : Env}
    (h : Relation.ReflTransGen (Monitor.Step (prodCons a False)) (.first p₀ (.forkProds 0) s₀) μ) :
    ∃ U : Finset ℤ, (∀ p l, μ.place p = some l → p ∈ U) ∧
      U.card ≤ 1 + a.prods.toNat + a.cons.toNat := by
  have hcensus : ∃ k ≤ 1 + a.prods.toNat + a.cons.toNat,
      Census μ.place (Place.crowd a) k := by
    induction h with
    | refl => exact ⟨_, le_refl _, Census.first (f := Place.crowd a) p₀ (.forkProds 0)⟩
    | tail _ hstep ih =>
      obtain ⟨k, hk, hcensus⟩ := ih
      obtain ⟨j, hj, hcensus'⟩ := Step.crowd hcensus hstep
      exact ⟨j, hj.trans hk, hcensus'⟩
  obtain ⟨k, hk, hcensus⟩ := hcensus
  obtain ⟨U, hU, hcard⟩ := hcensus.card_le fun l => by cases l <;> simp only [Place.crowd] <;> omega
  exact ⟨U, hU, hcard.trans hk⟩

end Crowd

section Alone

variable [Minix] {a : Args} {p₀ : ℤ} {l₀ : Place} {s₀ : Env} {τ₀ τ : Programs.State Place Env}

/-- The conditions of the program. -/
def Args.conditions (a : Args) : Finset ℤ := {a.bufNotEmpty, a.bufNotFull}

omit [Minix] in
theorem names_conditions : Programs.Names (prodCons a False) a.conditions := by
  rintro l c l' (ha | ha)
  · obtain ⟨t, d, -, rfl, -⟩ | ⟨-, rfl, -⟩ := action_wait ha <;> simp [Args.conditions]
  · obtain ⟨-, rfl, -⟩ | ⟨t, b, -, rfl, -⟩ | ⟨b, -, rfl, -⟩ := action_broadcast ha <;>
      simp [Args.conditions]

/-- As many producers and consumers as `main` accepts fit into the tables of the server. -/
theorem Reached.room (h : Reached a p₀ l₀ s₀ τ) (hprologue : prologue a = .ok (l₀, s₀))
    (halone : Programs.Alone a.mutex a.conditions τ) : Programs.Room τ := by
  obtain ⟨μ, hsteps, hμ⟩ := h.monitor
  obtain ⟨rfl, -⟩ := prologue_ok hprologue
  obtain ⟨U, hU, hcard⟩ := reaches_crowd hsteps
  rw [hμ.place] at hU
  obtain ⟨⟨-, hprods⟩, ⟨-, hcons⟩, -⟩ := checked_of_prologue hprologue
  simp only [MAX_PRODS, MAX_CONS] at hprods hcons
  refine halone.room h.inv names_conditions ?_ hU ?_
  · exact Finset.card_le_two.trans (by decide)
  · simp only [MAX_CZEKAJACYCH]
    omega

/-- On a fresh server: `main` has just been started as process `p₀`. -/
def fresh (p₀ : ℤ) (l₀ : Place) (s₀ : Env) : Programs.State Place Env where
  sys := System.State.initial (fun _ => 0) (fun _ => 0) (fun _ => 0)
  place := Function.update (fun _ => none) p₀ (some l₀)
  shared := s₀

omit [Minix] in
theorem abs_fresh (p₀ : ℤ) (l₀ : Place) (s₀ : Env) :
    abs (fresh p₀ l₀ s₀).sys.server = Manager.empty :=
  abs_initial _ _

theorem fresh_starts (p₀ : ℤ) (l₀ : Place) (s₀ : Env) :
    Programs.Starts p₀ l₀ s₀ (fresh p₀ l₀ s₀) where
  sys := ⟨_, _, _, [], .nil _⟩
  untouched := ⟨Finset.notMem_empty p₀, rfl, rfl⟩
  place := rfl
  shared := rfl

omit [Minix] in
theorem fresh_private (p₀ : ℤ) (l₀ : Place) (s₀ : Env) (m : ℤ) :
    Programs.Private m (fresh p₀ l₀ s₀) := by
  intro p _
  refine ⟨?_, ?_, fun c => ?_, ?_⟩
  · rw [abs_fresh]
    rintro ⟨q, hq⟩
    cases hq
  · rw [abs_fresh]
    simp [Manager.queue, Manager.empty]
  · rw [abs_fresh]
    simp [Manager.waiters, Manager.empty]
  · rintro ⟨site, hphase, -⟩
    rcases hphase with hphase | hphase <;> cases hphase

/-- Alone on a fresh server: some run brings the program to its end. -/
theorem exists_done (hprologue : prologue a = .ok (l₀, s₀)) (hcons : 1 ≤ a.cons)
    (hpipe : BSIZE + 2 ≤ a.pipeBuf) (p₀ : ℤ) :
    ∃ es τ, Run (Programs.Step (prodCons a False) a.mutex) (fresh p₀ l₀ s₀) es τ ∧
      Reached a p₀ l₀ s₀ τ ∧ Done a p₀ τ := by
  have hreached := reached_of_run hprologue (fresh_starts p₀ l₀ s₀)
    (fresh_private p₀ l₀ s₀ a.mutex) (.nil _)
  have halone : Programs.Alone a.mutex a.conditions (fresh p₀ l₀ s₀) := by
    unfold Programs.Alone
    rw [abs_fresh]
    refine ⟨fun k hk => absurd rfl hk, fun c hc => absurd rfl hc, fun c q k hw => ?_⟩
    simp [Manager.waiters, Manager.empty] at hw
  obtain ⟨τ, hpath, hend⟩ := (hreached.returns hprologue hcons hpipe).exists_path
  -- the tables have room on the whole way
  have hway : Reached a p₀ l₀ s₀ τ ∧ Programs.Alone a.mutex a.conditions τ ∧
      ∃ es, Run (Programs.Step (prodCons a False) a.mutex) (fresh p₀ l₀ s₀) es τ := by
    clear hend
    induction hpath with
    | refl => exact ⟨hreached, halone, [], .nil _⟩
    | tail _ hinner ih =>
      obtain ⟨h, halone, es, hrun⟩ := ih
      have halone' := hinner.alone h.inv ends_outside names_conditions halone
      obtain ⟨e, hstep, he⟩ := hinner
      exact ⟨h.step hstep he.leaves, halone', _, hrun.snoc hstep⟩
  obtain ⟨h, halone, es, hrun⟩ := hway
  exact ⟨es, τ, hrun, h, hend.resolve_right fun hfull => hfull (h.room hprologue halone)⟩

/-- In the end nobody owns the mutex. -/
theorem Done.free (h : Done a p₀ τ) (hreached : Reached a p₀ l₀ s₀ τ) {p : ℤ} {l : Place}
    (hp : τ.place p = some l) : ¬τ.sys.server.Owns p a.mutex := by
  intro hown
  have hinv := hreached.inv
  have hσ := hinv.reachable.inv
  have htook := ((hσ.agrees p (hinv.alive hp)).owns_iff a.mutex).mp
    ((owns_iff hσ.tables).mp hown)
  have hin := (hinv.took_iff hp).mp htook.1
  have hp' := hp
  rw [h.1] at hp'
  rw [(place_first hp').2] at hin
  cases hin

end Alone

/-! ## §4 What the program does -/

/-- The pipe with the empty buffer, and nothing else done yet. -/
def emptyEnv : Env := ⟨⟨Buf.bytes fun _ => 0, [], 0, false⟩, 0, 0⟩

/-- `prod_cons 2 3 5` as process 41. -/
def sample : Args := ⟨4, 2, 3, 5, 41, 4096⟩

theorem prologue_sample : prologue sample = .ok (.forkProds 0, emptyEnv) := rfl

section Runs

variable [Minix] {a : Args} {kills : Prop} {p₀ : ℤ} {l₀ : Place} {s₀ : Env}
  {τ₀ τ : Programs.State Place Env} {es : List Programs.Event}

/-- **The buffer is safe.**  In every state that `prod_cons`, the server and everybody else
reach, also when processes are interrupted or killed outside: no process has failed, neither in
`read_buf` nor over the counter; whoever holds the mutex and is about to read finds exactly the
whole buffer in the pipe; and while none of the processes owns the mutex, the buffer in the pipe
counts its cells right, everything made has been printed or is in the buffer, consumers wait
only for an empty one without the end flag, and producers only for a full one. -/
theorem buffer_safe (hprologue : prologue a = .ok (l₀, s₀))
    (hstart : Programs.Starts p₀ l₀ s₀ τ₀)
    (hrun : Run (Programs.Step (prodCons a kills) a.mutex) τ₀ es τ) :
    (∀ p str, τ.place p ≠ some (.failed str)) ∧
    (∀ p l, τ.place p = some l → (τ.sys.clients p).Holds a.mutex →
      (l = .mainRead ∨ (∃ t d, l = .pRead t d) ∨ l = .cRead) → ∃ b, τ.shared.pipe = Buf.bytes b) ∧
    ((∀ p l, τ.place p = some l → ¬τ.sys.server.Owns p a.mutex) →
      ∃ b, τ.shared.pipe = Buf.bytes b ∧ b.count.toInt = b.items.card ∧
        τ.shared.made = τ.shared.printed + b.items ∧
        ∀ q l, τ.place q = some l →
          (τ.sys.server.Registered q a.bufNotEmpty a.mutex → b.count = 0 ∧ b.endFlag = 0) ∧
          (τ.sys.server.Registered q a.bufNotFull a.mutex → b.count.toInt = BSIZE)) := by
  obtain ⟨hl₀, hs₀⟩ := rest_first kills hprologue
  obtain ⟨hτ, μ, hsteps, hμ⟩ := Programs.run_simulates _ hstart hl₀ hrun
  have hvalid := (outline a kills).valid hl₀ hs₀ hsteps
  refine ⟨fun p str hp => ?_, fun p l hp hm hl => ?_, fun hfree => ?_⟩
  · -- a failed process would be the owner, and the outline asserts nothing true there
    have hμp : μ.place p = some (.failed str) := by rw [hμ.place, hp]
    exact asserts_of_owner hvalid hμp (owner_of_own hvalid hμp rfl rfl)
  · obtain ⟨-, h⟩ := hμ.holds hτ hvalid hp hm
    obtain rfl | ⟨t, d, rfl⟩ | rfl := hl <;> obtain ⟨b, hb, -⟩ := h <;> exact ⟨b, hb.1⟩
  · obtain ⟨b, ⟨hpipe, hsound⟩, hwaits⟩ := hμ.rest hτ hvalid hfree
    refine ⟨b, hpipe, hsound.count, ?_, fun q l hq => ⟨fun hreg => ?_, fun hreg => ?_⟩⟩
    · rw [hsound.made, add_zero]
    · exact hwaits.notEmpty ⟨q, ⟨l, hq⟩, hreg⟩
    · exact hwaits.notFull ⟨q, ⟨l, hq⟩, hreg⟩

omit [Minix] in
theorem buffer_safe_at_the_end :
    letI := Minix.v321
    ∃ es τ, Run (Programs.Step (prodCons sample False) sample.mutex)
        (fresh 41 (.forkProds 0) emptyEnv) es τ ∧
      τ.place 41 = some .returned ∧ ∃ b, τ.shared.pipe = Buf.bytes b ∧ b.count = 0 := by
  let _ := Minix.v321
  obtain ⟨es, τ, hrun, hreached, hdone⟩ :=
    exists_done prologue_sample (by decide) (by decide) 41
  obtain ⟨-, -, hrest⟩ := buffer_safe prologue_sample (fresh_starts 41 _ _) hrun
  obtain ⟨b, hpipe, hcount, hmade, -⟩ := hrest fun p l hp => hdone.free hreached hp
  refine ⟨es, τ, hrun, by rw [hdone.1, Function.update_self], b, hpipe, ?_⟩
  -- everything made has been printed, so nothing is left in the buffer
  have hitems : b.items = 0 := by
    rw [← hdone.2.1] at hmade
    exact left_eq_add.mp hmade
  rw [← toInt_eq_zero, hcount, hitems]
  rfl

/-- **Everything is printed.**  When `main` has returned and there was a consumer, the values
printed are those that the producers made, each as often as it was made, and they are as many as
the producers had turns. -/
theorem all_printed (hprologue : prologue a = .ok (l₀, s₀)) (hcons : 1 ≤ a.cons)
    (hstart : Programs.Starts p₀ l₀ s₀ τ₀)
    (hrun : Run (Programs.Step (prodCons a False) a.mutex) τ₀ es τ)
    (hreturned : τ.place p₀ = some .returned) :
    (τ.shared.printed : Multiset Int8) = τ.shared.made ∧
      (τ.shared.printed.length : ℤ) = a.prods * a.turns := by
  obtain ⟨hl₀, -⟩ := rest_first False hprologue
  obtain ⟨-, μ, hsteps, hμ⟩ :=
    Programs.run_simulates (outline a False).toDiscipline hstart hl₀ hrun
  have htally := reaches_tally hprologue hsteps
  rw [hμ.place, hμ.shared] at htally
  exact htally.printed hprologue hcons hreturned

omit [Minix] in
theorem all_printed_ten_values :
    letI := Minix.v321
    ∃ es τ, Run (Programs.Step (prodCons sample False) sample.mutex)
        (fresh 41 (.forkProds 0) emptyEnv) es τ ∧
      (τ.shared.printed : Multiset Int8) = τ.shared.made ∧ τ.shared.printed.length = 10 := by
  let _ := Minix.v321
  obtain ⟨es, τ, hrun, -, hdone⟩ := exists_done prologue_sample (by decide) (by decide) 41
  have hreturned : τ.place 41 = some .returned := by rw [hdone.1, Function.update_self]
  obtain ⟨hprinted, hlength⟩ :=
    all_printed prologue_sample (by decide) (fresh_starts 41 _ _) hrun hreturned
  simp only [sample] at hlength
  exact ⟨es, τ, hrun, hprinted, by omega⟩

/-- **`main` returns.**  With at least one consumer, nobody killed and nobody else at the mutex,
from every state that is reached, whatever the order of the steps from there on: as long as
nobody interrupts or wakes the processes, they take only finitely many steps, they are never
stuck, and in the end `main` has returned, all the others have ended and every value made has
been printed, as many as the producers had turns; unless the server's tables are too full for
one of their messages. -/
theorem always_returns (hprologue : prologue a = .ok (l₀, s₀)) (hcons : 1 ≤ a.cons)
    (hpipe : BSIZE + 2 ≤ a.pipeBuf) (hstart : Programs.Starts p₀ l₀ s₀ τ₀)
    (hprivate : Programs.Private a.mutex τ₀)
    (hrun : Run (fun τ e τ' => Programs.Step (prodCons a False) a.mutex τ e τ' ∧
      e.Leaves a.mutex) τ₀ es τ) :
    Inevitable (Programs.Outer (prodCons a False) a.mutex)
      (Programs.Inner (prodCons a False) a.mutex)
      (fun τ => Done a p₀ τ ∨ ¬Programs.Room τ) τ :=
  (reached_of_run hprologue hstart hprivate hrun).returns hprologue hcons hpipe

omit [Minix] in
theorem always_returns_from_the_start :
    letI := Minix.v321
    Inevitable (Programs.Outer (prodCons sample False) sample.mutex)
      (Programs.Inner (prodCons sample False) sample.mutex)
      (fun τ => Done sample 41 τ ∨ ¬Programs.Room τ) (fresh 41 (.forkProds 0) emptyEnv) := by
  let _ := Minix.v321
  exact always_returns prologue_sample (by decide) (by decide) (fresh_starts 41 _ _)
    (fresh_private 41 _ _ _) (.nil _)

omit [Minix] in
/-- The outline of the program holds at the end of a run. -/
theorem monitor_rule_prod_cons :
    letI := Minix.v321
    ∃ es τ, Run (Programs.Step (prodCons sample False) sample.mutex)
        (fresh 41 (.forkProds 0) emptyEnv) es τ ∧ Done sample 41 τ ∧
      Rest sample τ.shared.toData (Programs.waited sample.mutex τ) := by
  let _ := Minix.v321
  obtain ⟨es, τ, hrun, hreached, hdone⟩ :=
    exists_done prologue_sample (by decide) (by decide) 41
  obtain ⟨hl₀, hs₀⟩ := rest_first False prologue_sample
  obtain ⟨-, hrest, -⟩ := Programs.monitor_rule (outline sample False) (fresh_starts 41 _ _) hl₀
    hs₀ hrun
  exact ⟨es, τ, hrun, hdone, hrest fun p l hp => hdone.free hreached hp⟩

end Runs

end MinixCv.ProdCons

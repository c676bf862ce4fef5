import MinixCv.Lib.Census
import MinixCv.Testy.ProdConsOutline

/-!
# Who Is Left, And What Is Left To Do

The processes of `prod_cons.c` are counted: how many producers and consumers run, how many
values they still have to put into the buffer, and what `main` knows of it from `wait`.

- `Stage`: what the place of `main` says about the others
- `Tally`: the counts, and `Step.tally`, that every step keeps them
-/

namespace MinixCv.ProdCons

open MinixCv.Lib MinixCv.Lib.Monitor

/-! ## §1 The counts -/

/-- A producer that runs. -/
def Place.producers : Place → ℕ
  | .produce _ | .pLock _ _ | .pRead _ _ | .pTest _ _ _ | .pWriteBack _ _ _ | .pWait _ _
  | .pPut _ _ _ | .pBroadcast _ _ | .pWrite _ _ | .pUnlock _ | .pExit => 1
  | _ => 0

/-- A consumer that runs. -/
def Place.consumers : Place → ℕ
  | .cLock | .cRead | .cTest _ | .cWriteBack _ | .cFlag _ | .cUnlockExit | .cExit | .cWait
  | .cTake _ | .cPrint _ _ | .cBroadcast _ | .cWrite _ | .cUnlock => 1
  | _ => 0

/-- The values that are still to be put into the buffer, by a producer or by those that `main`
    will start. -/
def Place.todo (a : Args) : Place → ℕ
  | .forkProds i => (a.prods.toNat - i) * a.turns.toNat
  | .produce t | .pLock t _ | .pRead t _ | .pTest t _ _ | .pWriteBack t _ _ | .pWait t _
  | .pPut t _ _ => a.turns.toNat - t
  | .pBroadcast t _ | .pWrite t _ | .pUnlock t => a.turns.toNat - (t + 1)
  | _ => 0

/-- A producer in its loop has a turn left. -/
def Place.InTurn (a : Args) : Place → Prop
  | .pLock t _ | .pRead t _ | .pTest t _ _ | .pWriteBack t _ _ | .pWait t _
  | .pPut t _ _ => t < a.turns.toNat
  | _ => True

/-- A consumer that is about to end. -/
def Place.Leaving : Place → Prop
  | .cUnlockExit | .cExit => True
  | _ => False

/-- What the place of `main` says about the numbers `np` and `nc` of producers and consumers
    that run, and about the number `z` of children to wait for. -/
def Stage (a : Args) (np nc z : ℕ) (ended : Bool) : Place → Prop
  | .forkProds i => np + z = i ∧ i ≤ a.prods.toNat ∧ nc = 0 ∧ ended = false
  | .forkCons i => np + z = a.prods.toNat ∧ nc = i ∧ i ≤ a.cons.toNat ∧ ended = false
  | .waitProds n => np + z = n ∧ nc = a.cons.toNat ∧ ended = false
  | .mainLock | .mainRead | .mainClose _ =>
      np = 0 ∧ z = 0 ∧ nc = a.cons.toNat ∧ ended = false
  | .mainWrite _ | .mainBroadcast | .mainUnlock | .waitAll => np = 0 ∧ ended = true
  | .returned => np = 0 ∧ nc = 0 ∧ ended = true
  | _ => False

/-- `main` is process `p₀`; the counts fit its place, the children that run, and the values
    made so far.  Once a consumer leaves, everything made has been printed. -/
structure Tally (a : Args) (p₀ : ℤ) (place : ℤ → Option Place) (s : Env) : Prop where
  others : ∀ {p l}, place p = some l → p ≠ p₀ → l.isMain = false
  inTurn : ∀ {p l}, place p = some l → l.InTurn a
  leaving : ∀ {p l}, place p = some l → l.Leaving → s.ended = true ∧ s.made = s.printed
  counts : ∃ l np nc n, place p₀ = some l ∧ Census place Place.producers np ∧
    Census place Place.consumers nc ∧ Census place (Place.todo a) n ∧
    s.children = np + nc ∧ s.made.card + n = a.prods.toNat * a.turns.toNat ∧
    Stage a np nc s.zombies s.ended l ∧
    (s.ended = true → nc < a.cons.toNat → s.made = s.printed)

/-! ## §2 One process moves -/

section Moves

variable {a : Args} {p₀ p : ℤ} {place : ℤ → Option Place} {s s' : Env} {l l' : Place}

theorem Stage.isMain {np nc z : ℕ} {ended : Bool} (h : Stage a np nc z ended l) :
    l.isMain = true := by
  cases l <;> first | rfl | exact h.elim

/-- Only the place of `main` says something. -/
theorem Stage.of_child {np nc z : ℕ} {ended : Bool} (hl : l.isMain = false)
    (h : Stage a np nc z ended l) : Stage a np nc z ended l' := by
  rw [h.isMain] at hl
  cases hl

theorem Stage.producers_eq_zero {np nc z : ℕ} (h : Stage a np nc z true l) : np = 0 := by
  cases l <;> first | exact h.elim | exact h.1 | simp [Stage] at h

/-- The numbers before a step, as far as they are known to a process at `l`. -/
structure Known (a : Args) (s : Env) (l : Place) (np nc : ℕ) : Prop where
  producers : l.producers ≤ np
  consumers : l.consumers ≤ nc
  children : s.children = np + nc
  ended : s.ended = true → np = 0
  printed : s.ended = true → nc < a.cons.toNat → s.made = s.printed
  stage : l.isMain = true → Stage a np nc s.zombies s.ended l

/-- A process that runs goes on as what it is. -/
theorem Tally.move (h : Tally a p₀ place s) (hp : place p = some l)
    (hmain : l'.isMain = l.isMain) (hturn : l.InTurn a → l'.InTurn a)
    (hleaving : l'.Leaving → s'.ended = true ∧ s'.made = s'.printed)
    (hproducers : l'.producers = l.producers) (hconsumers : l'.consumers = l.consumers)
    (hchildren : s'.children = s.children)
    (htodo : l.InTurn a → s'.made.card + l'.todo a = s.made.card + l.todo a)
    (hstage : ∀ np nc, Known a s l np nc →
      (l.isMain = true → Stage a np nc s'.zombies s'.ended l') ∧
      (l.isMain = false → s'.zombies = s.zombies ∧ s'.ended = s.ended) ∧
      (s'.ended = true → nc < a.cons.toNat → s'.made = s'.printed) ∧
      (s.ended = true → s.made = s.printed → s'.ended = true ∧ s'.made = s'.printed)) :
    Tally a p₀ (Function.update place p (some l')) s' := by
  obtain ⟨lm, np, nc, n, hlm, hnp, hnc, hn, hch, hcard, hst, hdrain⟩ := h.counts
  have hpmain : l.isMain = true → p = p₀ := by
    intro hl
    by_contra hne
    rw [h.others hp hne] at hl
    cases hl
  have hknown : Known a s l np nc := by
    refine ⟨hnp.le hp, hnc.le hp, hch, fun he => (he ▸ hst).producers_eq_zero, hdrain, fun hl => ?_⟩
    rw [hpmain hl, hlm, Option.some.injEq] at hp
    exact hp ▸ hst
  obtain ⟨hstageMain, hstageOther, hdrain', hkeep⟩ := hstage np nc hknown
  refine ⟨fun {q k} hq hne => ?_, fun {q k} hq => ?_, fun {q k} hq hk => ?_, ?_⟩
  · rcases place_update hq with ⟨rfl, ⟨⟩⟩ | ⟨-, hq⟩
    · rw [hmain]
      exact h.others hp hne
    · exact h.others hq hne
  · rcases place_update hq with ⟨rfl, ⟨⟩⟩ | ⟨-, hq⟩
    · exact hturn (h.inTurn hp)
    · exact h.inTurn hq
  · rcases place_update hq with ⟨rfl, ⟨⟩⟩ | ⟨-, hq⟩
    · exact hleaving hk
    · obtain ⟨hended, hmade⟩ := h.leaving hq hk
      exact hkeep hended hmade
  · obtain ⟨np', hnp', hcp⟩ := hnp.move hp l'
    obtain ⟨nc', hnc', hcc⟩ := hnc.move hp l'
    obtain ⟨n', hn', hcn⟩ := hn.move hp l'
    rw [hproducers, ← hnp'] at hcp
    rw [hconsumers, ← hnc'] at hcc
    have hcard' : s'.made.card + (n' + l'.todo a) = a.prods.toNat * a.turns.toNat := by
      have htodo' := htodo (h.inTurn hp)
      omega
    -- the process that has moved is `main`, or `main` is where it was
    by_cases hpp : p = p₀
    · subst hpp
      rw [hp, Option.some.injEq] at hlm
      subst hlm
      exact ⟨l', np, nc, _, Function.update_self .., hcp, hcc, hcn, by rw [hchildren, hch],
        hcard', hstageMain hst.isMain, hdrain'⟩
    · obtain ⟨hz, he⟩ := hstageOther (h.others hp hpp)
      refine ⟨lm, np, nc, _, ?_, hcp, hcc, hcn, by rw [hchildren, hch], hcard', ?_, hdrain'⟩
      · rw [Function.update_of_ne (Ne.symm hpp)]
        exact hlm
      · rw [hz, he]
        exact hst

/-- A process goes on without changing more than the pipe. -/
theorem Tally.walk {pipe : List Int8} (h : Tally a p₀ place s) (hp : place p = some l)
    (hmain : l'.isMain = l.isMain) (hturn : l.InTurn a → l'.InTurn a)
    (hleaving : l'.Leaving → s.ended = true ∧ s.made = s.printed)
    (hproducers : l'.producers = l.producers) (hconsumers : l'.consumers = l.consumers)
    (htodo : l'.todo a = l.todo a)
    (hstage : ∀ {np nc}, Stage a np nc s.zombies s.ended l →
      Stage a np nc s.zombies s.ended l') :
    Tally a p₀ (Function.update place p (some l')) { s with pipe := pipe } :=
  h.move hp hmain hturn hleaving hproducers hconsumers rfl (fun _ => by rw [htodo])
    fun _ _ hk => ⟨fun hl => hstage (hk.stage hl), fun _ => ⟨rfl, rfl⟩, hk.printed,
      fun he hm => ⟨he, hm⟩⟩

/-- A value is put into the buffer: there is a producer, so the end flag is not set. -/
theorem Tally.put (h : Tally a p₀ place s) {t : ℕ} {d : Value} {b b' : Buf}
    (hp : place p = some (.pPut t d b)) (hl' : l' = .pBroadcast t b' ∨ l' = .pWrite t b') :
    Tally a p₀ (Function.update place p (some l')) { s with made := d.1 ::ₘ s.made } := by
  have hnot : ∀ np nc, Known a s (.pPut t d b) np nc → s.ended ≠ true := by
    intro np nc hknown he
    have hpos : 1 ≤ np := hknown.producers
    rw [hknown.ended he] at hpos
    omega
  have htodo : ∀ l', (l' = .pBroadcast t b' ∨ l' = .pWrite t b') → t < a.turns.toNat →
      (d.1 ::ₘ s.made).card + Place.todo a l' = s.made.card + (a.turns.toNat - t) := by
    intro l' hl' ht
    rw [Multiset.card_cons]
    obtain rfl | rfl := hl' <;> simp only [Place.todo] <;> omega
  obtain rfl | rfl := hl'
  · exact h.move hp rfl (fun _ => trivial) (fun hl => hl.elim) rfl rfl rfl (htodo _ (.inl rfl))
      fun np nc hk => ⟨fun hm => (by cases hm), fun _ => ⟨rfl, rfl⟩,
        fun he => absurd he (hnot np nc hk), fun he => absurd he (hnot np nc hk)⟩
  · exact h.move hp rfl (fun _ => trivial) (fun hl => hl.elim) rfl rfl rfl (htodo _ (.inr rfl))
      fun np nc hk => ⟨fun hm => (by cases hm), fun _ => ⟨rfl, rfl⟩,
        fun he => absurd he (hnot np nc hk), fun he => absurd he (hnot np nc hk)⟩

/-- A value is printed: it was made and not printed before. -/
theorem Tally.print (h : Tally a p₀ place s) {b : Buf} {d : Int8}
    (hp : place p = some (.cPrint b d)) (hsound : Sound b s.toData {d})
    (hl' : l' = .cBroadcast b ∨ l' = .cWrite b) :
    Tally a p₀ (Function.update place p (some l')) { s with printed := s.printed ++ [d] } := by
  have hnot : s.made ≠ s.printed := by
    intro heq
    have hcard := congrArg Multiset.card (heq.symm.trans hsound.made)
    simp only [Multiset.card_add, Multiset.card_singleton] at hcard
    omega
  obtain rfl | rfl := hl'
  · exact h.move hp rfl (fun _ => trivial) (fun hl => hl.elim) rfl rfl rfl (fun _ => rfl)
      fun np nc hk => ⟨fun hm => (by cases hm), fun _ => ⟨rfl, rfl⟩,
        fun he hlt => absurd (hk.printed he hlt) hnot, fun _ hm => absurd hm hnot⟩
  · exact h.move hp rfl (fun _ => trivial) (fun hl => hl.elim) rfl rfl rfl (fun _ => rfl)
      fun np nc hk => ⟨fun hm => (by cases hm), fun _ => ⟨rfl, rfl⟩,
        fun he hlt => absurd (hk.printed he hlt) hnot, fun _ hm => absurd hm hnot⟩

/-- A step of its own, without a fork. -/
theorem Tally.own (h : Tally a p₀ place s) (hp : place p = some l)
    (hstep : Own a s l l' none s') (hbefore : l.inside = true → ∃ w, Asserts a s.toData w l)
    (hafter : l'.inside = true → ∃ w, Asserts a s'.toData w l') :
    Tally a p₀ (Function.update place p (some l')) s' := by
  have hnofail : ∀ str, l' ≠ .failed str := by
    rintro str rfl
    obtain ⟨w, hfalse⟩ := hafter rfl
    exact hfalse
  cases hstep with
  | @forkedProducers i hi =>
    refine h.walk hp rfl (fun _ => trivial) (fun hl => hl.elim) rfl rfl ?_ ?_
    · simp only [Place.todo]
      rw [show a.prods.toNat - i = 0 by omega, Nat.zero_mul]
    · rintro np nc ⟨hnp, hi', hnc, he⟩
      exact ⟨by omega, hnc, Nat.zero_le _, he⟩
  | @forkedConsumers i hi =>
    refine h.walk hp rfl (fun _ => trivial) (fun hl => hl.elim) rfl rfl rfl ?_
    rintro np nc ⟨hnp, hnc, hi', he⟩
    exact ⟨hnp, by omega, he⟩
  | @waitProducer n hz =>
    refine h.move hp rfl (fun _ => trivial) (fun hl => hl.elim) rfl rfl rfl (fun _ => rfl)
      fun np nc hk => ⟨fun hl => ?_, fun hm => (by cases hm), hk.printed, fun he hm => ⟨he, hm⟩⟩
    obtain ⟨hnp, hrest⟩ := hk.stage hl
    refine ⟨?_, hrest⟩
    dsimp only
    omega
  | waitNobody _ _ => exact h.walk hp rfl (fun h => h) (fun hl => hl.elim) rfl rfl rfl id
  | waitedProducers =>
    refine h.walk hp rfl (fun _ => trivial) (fun hl => hl.elim) rfl rfl rfl ?_
    rintro np nc ⟨hnp, hrest⟩
    exact ⟨by omega, by omega, hrest⟩
  | mainRead hread =>
    cases hread
    exact h.walk hp rfl (fun _ => trivial) (fun hl => hl.elim) rfl rfl rfl id
  | mainReadFails _ => exact absurd rfl (hnofail _)
  | mainClose =>
    refine h.move hp rfl (fun _ => trivial) (fun hl => hl.elim) rfl rfl rfl (fun _ => rfl)
      fun np nc hk => ⟨fun hl => ⟨(hk.stage hl).1, rfl⟩, fun hm => (by cases hm), fun _ hlt => ?_,
        fun he hm => ⟨rfl, hm⟩⟩
    -- all consumers still run
    obtain ⟨-, -, hnc, -⟩ := hk.stage rfl
    omega
  | mainWrite hwrite =>
    cases hwrite
    exact h.walk hp rfl (fun _ => trivial) (fun hl => hl.elim) rfl rfl rfl id
  | waitOne hz =>
    exact h.move hp rfl (fun _ => trivial) (fun hl => hl.elim) rfl rfl rfl (fun _ => rfl)
      fun np nc hk => ⟨hk.stage, fun hm => (by cases hm), hk.printed, fun he hm => ⟨he, hm⟩⟩
  | waitedAll hz hc =>
    refine h.move hp rfl (fun _ => trivial) (fun hl => hl.elim) rfl rfl rfl (fun _ => rfl)
      fun np nc hk => ⟨fun hl => ⟨(hk.stage hl).1, ?_, (hk.stage hl).2⟩, fun hm => (by cases hm),
        hk.printed, fun he hm => ⟨he, hm⟩⟩
    have hchildren := hk.children
    omega
  | @produce t d ht =>
    refine h.walk hp rfl (fun _ => ?_) (fun hl => hl.elim) rfl rfl rfl (Stage.of_child rfl)
    exact Int.lt_toNat.mpr ht
  | @produced t ht =>
    refine h.walk hp rfl (fun _ => trivial) (fun hl => hl.elim) rfl rfl ?_ (Stage.of_child rfl)
    simp only [Place.todo]
    omega
  | pRead hread =>
    cases hread
    exact h.walk hp rfl (fun ht => ht) (fun hl => hl.elim) rfl rfl rfl (Stage.of_child rfl)
  | pReadFails _ => exact absurd rfl (hnofail _)
  | pFull _ => exact h.walk hp rfl (fun ht => ht) (fun hl => hl.elim) rfl rfl rfl (Stage.of_child rfl)
  | pNotFull _ =>
    exact h.walk hp rfl (fun ht => ht) (fun hl => hl.elim) rfl rfl rfl (Stage.of_child rfl)
  | pWriteBack hwrite =>
    cases hwrite
    exact h.walk hp rfl (fun ht => ht) (fun hl => hl.elim) rfl rfl rfl (Stage.of_child rfl)
  | pPutFirst _ _ => exact h.put hp (.inl rfl)
  | pPut _ _ => exact h.put hp (.inr rfl)
  | pPutFails _ => exact absurd rfl (hnofail _)
  | pWrite hwrite =>
    cases hwrite
    exact h.walk hp rfl (fun _ => trivial) (fun hl => hl.elim) rfl rfl rfl (Stage.of_child rfl)
  | cRead hread =>
    cases hread
    exact h.walk hp rfl (fun _ => trivial) (fun hl => hl.elim) rfl rfl rfl (Stage.of_child rfl)
  | cReadFails _ => exact absurd rfl (hnofail _)
  | cEmpty _ =>
    exact h.walk hp rfl (fun _ => trivial) (fun hl => hl.elim) rfl rfl rfl (Stage.of_child rfl)
  | cNotEmpty _ =>
    exact h.walk hp rfl (fun _ => trivial) (fun hl => hl.elim) rfl rfl rfl (Stage.of_child rfl)
  | cWriteBack hwrite =>
    cases hwrite
    exact h.walk hp rfl (fun _ => trivial) (fun hl => hl.elim) rfl rfl rfl (Stage.of_child rfl)
  | cEnd _ =>
    obtain ⟨w, -, hended, hmade⟩ := hafter rfl
    exact h.walk hp rfl (fun _ => trivial) (fun _ => ⟨hended, hmade⟩) rfl rfl rfl (Stage.of_child rfl)
  | cGoOn _ =>
    exact h.walk hp rfl (fun _ => trivial) (fun hl => hl.elim) rfl rfl rfl (Stage.of_child rfl)
  | cTake _ =>
    exact h.walk hp rfl (fun _ => trivial) (fun hl => hl.elim) rfl rfl rfl (Stage.of_child rfl)
  | cTakeFails _ => exact absurd rfl (hnofail _)
  | cPrintLast _ =>
    obtain ⟨w, -, hsound, -⟩ := hbefore rfl
    exact h.print hp hsound (.inl rfl)
  | cPrint _ =>
    obtain ⟨w, -, hsound, -⟩ := hbefore rfl
    exact h.print hp hsound (.inr rfl)
  | cWrite hwrite =>
    cases hwrite
    exact h.walk hp rfl (fun _ => trivial) (fun hl => hl.elim) rfl rfl rfl (Stage.of_child rfl)

/-! ## §3 Forks, ends and the library -/

/-- A process that calls the library goes on as what it is. -/
theorem Tally.called (h : Tally a p₀ place s) (hp : place p = some l)
    (hnext : (action a l).next = some l') : Tally a p₀ (Function.update place p (some l')) s := by
  cases l <;> simp only [action, Action.next, Option.some.injEq, reduceCtorEq] at hnext <;>
    subst hnext
  case mainLock => exact h.walk hp rfl (fun _ => trivial) (fun hl => hl.elim) rfl rfl rfl id
  case mainBroadcast => exact h.walk hp rfl (fun _ => trivial) (fun hl => hl.elim) rfl rfl rfl id
  case mainUnlock => exact h.walk hp rfl (fun _ => trivial) (fun hl => hl.elim) rfl rfl rfl id
  case cUnlockExit =>
    exact h.walk hp rfl (fun _ => trivial) (fun _ => h.leaving hp trivial) rfl rfl rfl (Stage.of_child rfl)
  case pLock => exact h.walk hp rfl (fun ht => ht) (fun hl => hl.elim) rfl rfl rfl (Stage.of_child rfl)
  case pWait => exact h.walk hp rfl (fun ht => ht) (fun hl => hl.elim) rfl rfl rfl (Stage.of_child rfl)
  all_goals exact h.walk hp rfl (fun _ => trivial) (fun hl => hl.elim) rfl rfl rfl (Stage.of_child rfl)

/-- `main` forks: one more process runs. -/
theorem Tally.fork (h : Tally a p₀ place s) (hp : place p = some l) {k : Place} {q : ℤ}
    (hq : place q = none) (hstep : Own a s l l' (some k) s') :
    Tally a p₀ (Function.update (Function.update place p (some l')) q (some k)) s' := by
  obtain ⟨lm, np, nc, n, hlm, hnp, hnc, hn, hch, hcard, hst, hdrain⟩ := h.counts
  have hqp : q ≠ p := ne_of_place hq hp
  -- only `main` forks
  have hpp : p = p₀ := by
    by_contra hne
    have hmain := h.others hp hne
    cases hstep <;> cases hmain
  subst hpp
  rw [hp, Option.some.injEq] at hlm
  subst hlm
  have hq' : Function.update place p (some l') q = none := by
    rw [Function.update_of_ne hqp]
    exact hq
  have hsplit : ∀ {x j}, Function.update (Function.update place p (some l')) q (some k) x = some j →
      (x = q ∧ j = k) ∨ (x = p ∧ j = l') ∨ place x = some j := by
    intro x j hx
    rcases place_update hx with ⟨rfl, ⟨⟩⟩ | ⟨-, hx⟩
    · exact .inl ⟨rfl, rfl⟩
    · rcases place_update hx with ⟨rfl, ⟨⟩⟩ | ⟨-, hx⟩
      · exact .inr (.inl ⟨rfl, rfl⟩)
      · exact .inr (.inr hx)
  obtain ⟨np', hnp', hcp⟩ := hnp.move hp l'
  obtain ⟨nc', hnc', hcc⟩ := hnc.move hp l'
  obtain ⟨n', hn', hcn⟩ := hn.move hp l'
  have hcp' := hcp.start hq' k
  have hcc' := hcc.start hq' k
  have hcn' := hcn.start hq' k
  have hplace : Function.update (Function.update place p (some l')) q (some k) p = some l' := by
    rw [Function.update_of_ne hqp.symm, Function.update_self]
  -- the child and `main` are where nothing is asked of them
  obtain ⟨hk, hkturn, hturn, hkleave, hleave, hmade, hprinted, hended⟩ :
      k.isMain = false ∧ k.InTurn a ∧ l'.InTurn a ∧ ¬k.Leaving ∧ ¬l'.Leaving ∧
        s'.made = s.made ∧ s'.printed = s.printed ∧ s'.ended = s.ended := by
    cases hstep <;> exact ⟨rfl, trivial, trivial, id, id, rfl, rfl, rfl⟩
  refine ⟨fun {x j} hx hne => ?_, fun {x j} hx => ?_, fun {x j} hx hj => ?_, l', _, _, _, hplace,
    hcp', hcc', hcn', ?_, ?_, ?_, fun he' => ?_⟩
  · rcases hsplit hx with ⟨-, rfl⟩ | ⟨rfl, -⟩ | hx
    · exact hk
    · exact absurd rfl hne
    · exact h.others hx hne
  · rcases hsplit hx with ⟨-, rfl⟩ | ⟨-, rfl⟩ | hx
    · exact hkturn
    · exact hturn
    · exact h.inTurn hx
  · rw [hmade, hprinted, hended]
    rcases hsplit hx with ⟨-, rfl⟩ | ⟨-, rfl⟩ | hx
    · exact absurd hj hkleave
    · exact absurd hj hleave
    · exact h.leaving hx hj
  · cases hstep <;> simp only [Place.producers, Place.consumers] at hnp' hnc' ⊢ <;> omega
  · rw [hmade]
    cases hstep with
    | @forkProducer i hi =>
      have hmul : (a.prods.toNat - i) * a.turns.toNat =
          (a.prods.toNat - (i + 1)) * a.turns.toNat + a.turns.toNat := by
        rw [show a.prods.toNat - i = (a.prods.toNat - (i + 1)) + 1 by omega, Nat.add_mul,
          Nat.one_mul]
      simp only [Place.todo] at hn' ⊢
      omega
    | forkConsumer _ =>
      simp only [Place.todo] at hn' ⊢
      omega
  · cases hstep with
    | forkProducer hi =>
      obtain ⟨hz, hle, hc, he⟩ := hst
      simp only [Place.producers, Place.consumers] at hnp' hnc' ⊢
      exact ⟨by omega, by omega, by omega, he⟩
    | forkConsumer hi =>
      obtain ⟨hz, hc, hle, he⟩ := hst
      simp only [Place.producers, Place.consumers] at hnp' hnc' ⊢
      exact ⟨by omega, by omega, by omega, he⟩
  · -- the end flag is not set while `main` forks
    rw [hended] at he'
    cases hstep with
    | forkProducer _ =>
      rw [hst.2.2.2] at he'
      cases he'
    | forkConsumer _ =>
      rw [hst.2.2.2] at he'
      cases he'

theorem Stage.producer_ends {np nc z : ℕ} {ended : Bool} (h : Stage a (np + 1) nc z ended l) :
    Stage a np nc (z + 1) ended l := by
  cases l with
  | forkProds i => exact ⟨by have := h.1; omega, h.2⟩
  | forkCons i => exact ⟨by have := h.1; omega, h.2⟩
  | waitProds n => exact ⟨by have := h.1; omega, h.2⟩
  | returned => exact absurd h.1 (Nat.succ_ne_zero np)
  | _ => first | exact h.elim | exact absurd h.1 (Nat.succ_ne_zero np)

theorem Stage.consumer_ends {np nc z : ℕ} (h : Stage a np (nc + 1) z true l) :
    Stage a np nc (z + 1) true l := by
  cases l <;> simp only [Stage, reduceCtorEq, and_false] at h ⊢
  case returned => exact h.2.1.elim
  all_goals exact h

/-- A process ends by `exit`: it can be waited for. -/
theorem Tally.exit (h : Tally a p₀ place s) (hp : place p = some l) (hl : l = .pExit ∨ l = .cExit) :
    Tally a p₀ (Function.update place p none)
      { s with children := s.children - 1, zombies := s.zombies + 1 } := by
  obtain ⟨lm, np, nc, n, hlm, hnp, hnc, hn, hch, hcard, hst, hdrain⟩ := h.counts
  have hpp : p₀ ≠ p := by
    rintro rfl
    rw [hp, Option.some.injEq] at hlm
    subst hlm
    have hmain := hst.isMain
    obtain rfl | rfl := hl <;> cases hmain
  have hsplit : ∀ {q k}, Function.update place p none q = some k → place q = some k := by
    intro q k hq
    rcases place_update hq with ⟨-, ⟨⟩⟩ | ⟨-, hq⟩
    exact hq
  have hlm' : Function.update place p none p₀ = some lm := by
    rw [Function.update_of_ne hpp]
    exact hlm
  obtain ⟨np', hnp', hcp⟩ := hnp.finish hp
  obtain ⟨nc', hnc', hcc⟩ := hnc.finish hp
  obtain ⟨n', hn', hcn⟩ := hn.finish hp
  refine ⟨fun hq => h.others (hsplit hq), fun hq => h.inTurn (hsplit hq),
    fun hq => h.leaving (hsplit hq), lm, np', nc', n', hlm', hcp, hcc, hcn, ?_, ?_, ?_, ?_⟩
  · obtain rfl | rfl := hl <;> simp only [Place.producers, Place.consumers] at hnp' hnc' ⊢ <;> omega
  · obtain rfl | rfl := hl <;> simp only [Place.todo] at hn' <;> dsimp only <;> omega
  · obtain rfl | rfl := hl
    · rw [show np = np' + 1 from hnp', show nc = nc' from hnc'] at hst
      exact hst.producer_ends
    · rw [show np = np' from hnp', show nc = nc' + 1 from hnc', (h.leaving hp trivial).1] at hst
      have hst' := hst.consumer_ends
      rwa [← (h.leaving hp trivial).1] at hst'
  · obtain rfl | rfl := hl
    · rw [show nc = nc' from hnc'] at hdrain
      exact hdrain
    · exact fun _ _ => (h.leaving hp trivial).2

end Moves

/-! ## §4 Every step keeps the counts -/

section Steps

variable {a : Args} {p₀ : ℤ} {μ μ' : State ℤ ℤ Place Env}

/-- Whoever takes a step of its own inside is the owner. -/
theorem owner_of_own {kills : Prop} (hvalid : (outline a kills).Valid μ) {p : ℤ} {l : Place}
    (hp : μ.place p = some l) (ha : action a l = .own) (hin : l.inside = true) :
    μ.owner = some p := by
  rcases hvalid.inside hp hin with howner | ⟨c, l', hw⟩
  · exact howner
  · rw [show action a l = .wait c l' from hw] at ha
    cases ha

/-- The owner finds what the outline asserts at its place. -/
theorem asserts_of_owner {kills : Prop} (hvalid : (outline a kills).Valid μ) {p : ℤ} {l : Place}
    (hp : μ.place p = some l) (howner : μ.owner = some p) :
    Asserts a μ.shared.toData μ.waited l := by
  obtain ⟨k, hk, -, hholds⟩ := hvalid.owner howner
  rw [hp, Option.some.injEq] at hk
  exact hk ▸ hholds

/-- **Every step keeps the counts.** -/
theorem Step.tally (hvalid : (outline a False).Valid μ) (h : Tally a p₀ μ.place μ.shared)
    (hstep : Monitor.Step (prodCons a False) μ μ') : Tally a p₀ μ'.place μ'.shared := by
  have hvalid' := hstep.valid hvalid
  cases hstep with
  | @own p l l' s hp ha hs =>
    have howner := owner_of_own hvalid hp ha
    refine h.own hp hs (fun hin => ⟨_, asserts_of_owner hvalid hp (howner hin)⟩) fun hin => ?_
    rw [(Own.inside hs).1] at hin
    exact ⟨_, asserts_of_owner hvalid' (Function.update_self ..) (howner hin)⟩
  | fork hp ha hs hq => exact h.fork hp hq hs
  | lock hp ha _ => exact h.called hp (by rw [show action a _ = _ from ha]; rfl)
  | unlock hp ha _ => exact h.called hp (by rw [show action a _ = _ from ha]; rfl)
  | wait _ _ _ => exact h
  | resume hp ha _ _ => exact h.called hp (by rw [show action a _ = _ from ha]; rfl)
  | broadcast hp ha => exact h.called hp (by rw [show action a _ = _ from ha]; rfl)
  | wake _ => exact h
  | @die p l ws o hp hends _ _ _ =>
    have hl : l = .pExit ∨ l = .cExit := by simpa [prodCons] using hends
    have hdeath : (prodCons a False).death l μ.shared =
        { μ.shared with children := μ.shared.children - 1, zombies := μ.shared.zombies + 1 } := by
      obtain rfl | rfl := hl <;> rfl
    rw [hdeath]
    exact h.exit hp hl

/-- `main` starts with everything still to be done. -/
theorem tally_first (a : Args) (p₀ : ℤ) :
    Tally a p₀ (Function.update (fun _ => none) p₀ (some (.forkProds 0)))
      ⟨⟨Buf.bytes fun _ => 0, [], 0, false⟩, 0, 0⟩ := by
  refine ⟨fun hp hne => absurd (place_first hp).1 hne, fun {p l} hp => ?_, fun {p l} hp hl => ?_,
    .forkProds 0, 0, 0, a.prods.toNat * a.turns.toNat, Function.update_self .., .first .., .first ..,
    ?_, rfl, ?_, ⟨rfl, Nat.zero_le _, rfl, rfl⟩, fun he => (by cases he)⟩
  · rw [(place_first hp).2]
    trivial
  · rw [(place_first hp).2] at hl
    exact hl.elim
  · exact Census.first (f := Place.todo a) p₀ (.forkProds 0)
  · rw [Multiset.card_zero, Nat.zero_add]

end Steps

end MinixCv.ProdCons

import MinixCv.Server.Notices
import MinixCv.Server.Runs

/-!
# What The Server Reads From Its Sentinels

`utworzKolejke` leaves the `proces` field of the two sentinels of a queue as `malloc` left
it.  Two servers that differ in nothing else are compared here.

- `refill`: the same tables with other contents in the sentinels
- `…_refill`: what the functions of `main.c` make of it
- `Message.Blind`: a message whose handling does not depend on the sentinels
- `sentinels_unread`: runs with such messages only cannot be told apart
- `wyslijEINTR_fooled`, `usunZakonczonyProces_fooled`: what happens to the others
-/

namespace MinixCv.Server

open MinixCv.Lib MinixCv.LockManager Kolejka

/-! ## §1 Other contents in the sentinels -/

def Kolejka.refill (q : Kolejka) (start koniec : ℤ) : Kolejka :=
  { q with start := start, koniec := koniec }

def Mutex.refill (x : Mutex) (start koniec : ℤ) : Mutex :=
  { x with kolejka := x.kolejka.refill start koniec }

/-- The same tables, with `start` and `koniec` in the sentinels. -/
def ServerState.refill (s : ServerState) (start koniec : Fin MAX_MUTEX → ℤ) : ServerState :=
  { s with M := fun i => (s.M i).refill (start i) (koniec i) }

section Refill

variable {s : ServerState} {start koniec : Fin MAX_MUTEX → ℤ} {a b : ℤ}

@[simp] theorem Kolejka.refill_elementy (q : Kolejka) : (q.refill a b).elementy = q.elementy := rfl

@[simp] theorem Kolejka.refill_start (q : Kolejka) : (q.refill a b).start = a := rfl

@[simp] theorem Mutex.refill_uzywany (x : Mutex) : (x.refill a b).uzywany = x.uzywany := rfl

@[simp] theorem Mutex.refill_numer (x : Mutex) : (x.refill a b).numer = x.numer := rfl

@[simp] theorem Mutex.refill_wlasciciel (x : Mutex) : (x.refill a b).wlasciciel = x.wlasciciel := rfl

@[simp] theorem Mutex.refill_kolejka (x : Mutex) :
    (x.refill a b).kolejka = x.kolejka.refill a b := rfl

@[simp] theorem ServerState.refill_M (i : Fin MAX_MUTEX) :
    (s.refill start koniec).M i = (s.M i).refill (start i) (koniec i) := rfl

@[simp] theorem ServerState.refill_CV : (s.refill start koniec).CV = s.CV := rfl

@[simp] theorem ServerState.refill_aktualnyProces :
    (s.refill start koniec).aktualnyProces = s.aktualnyProces := rfl

/-- A slot may be written before or after the sentinels are filled. -/
theorem setM_refill {i : Fin MAX_MUTEX} {x y : Mutex} (hy : y = x.refill (start i) (koniec i)) :
    (s.refill start koniec).setM i y = (s.setM i x).refill start koniec := by
  subst hy
  simp only [ServerState.setM, ServerState.refill, ServerState.mk.injEq, and_true]
  funext j
  by_cases hj : j = i
  · subst hj
    simp
  · simp [Function.update_of_ne hj]

theorem wyslijWiadomosc_refill (typ dokad : ℤ) :
    wyslijWiadomosc typ dokad (s.refill start koniec) =
      (wyslijWiadomosc typ dokad s).refill start koniec := rfl

@[simp] theorem indeksUzywanegoMutexa_refill (m : ℤ) :
    indeksUzywanegoMutexa (s.refill start koniec) m = indeksUzywanegoMutexa s m := rfl

@[simp] theorem indeksUzywanegoCv_refill (c : ℤ) :
    indeksUzywanegoCv (s.refill start koniec) c = indeksUzywanegoCv s c := rfl

/-! ## §2 Requests do not read the sentinels -/

/-- The outcome of a handler, with other contents in the sentinels. -/
abbrev refillOutcome (start koniec : Fin MAX_MUTEX → ℤ) (r : ℤ × ServerState) : ℤ × ServerState :=
  (r.1, r.2.refill start koniec)

variable [Minix]

theorem csLock_refill (m : ℤ) :
    csLock (s.refill start koniec) m = (csLock s m).map (refillOutcome start koniec) := by
  unfold csLock
  rw [indeksUzywanegoMutexa_refill]
  cases indeksUzywanegoMutexa s m with
  | none =>
    dsimp only
    -- the search for a free slot reads `uzywany` alone
    by_cases hfree : wolnyMutex s < MAX_MUTEX
    · have hfree' : wolnyMutex (s.refill start koniec) < MAX_MUTEX := hfree
      rw [dif_pos hfree, dif_pos hfree']
      exact congrArg (fun t => Except.ok (OK, t)) (setM_refill rfl)
    · have hfree' : ¬ wolnyMutex (s.refill start koniec) < MAX_MUTEX := hfree
      rw [dif_neg hfree, dif_neg hfree']
      rfl
  | some i =>
    dsimp only
    by_cases ho : (s.M i).wlasciciel = s.aktualnyProces
    · rw [if_pos ho, if_pos (by exact ho)]
      rfl
    · rw [if_neg ho, if_neg (by exact ho)]
      exact congrArg (fun t => Except.ok (EDONTREPLY, t)) (setM_refill rfl)

theorem csUnlock_refill (m : ℤ) :
    csUnlock (s.refill start koniec) m = refillOutcome start koniec (csUnlock s m) := by
  unfold csUnlock
  rw [indeksUzywanegoMutexa_refill]
  cases indeksUzywanegoMutexa s m with
  | none => rfl
  | some i =>
    dsimp only
    by_cases ho : (s.M i).wlasciciel ≠ s.aktualnyProces
    · rw [if_pos ho, if_pos (by exact ho)]
    · rw [if_neg ho, if_neg (by exact ho)]
      cases hq : (s.M i).kolejka.elementy with
      | nil =>
        have hempty : czyPusto (s.M i).kolejka = true := by simp [czyPusto, hq]
        rw [if_pos hempty, if_pos (by exact hempty)]
        exact congrArg (Prod.mk OK) (setM_refill rfl)
      | cons p q =>
        -- the queue is not empty, so its first element is not the tail sentinel
        have hnext : ¬ czyPusto (s.M i).kolejka = true := by simp [czyPusto, hq]
        rw [if_neg hnext, if_neg (by exact hnext)]
        simp only [ServerState.refill_M, Mutex.refill_kolejka, pierwszyKolejka,
          Kolejka.refill_elementy, hq, refillOutcome, ← wyslijWiadomosc_refill]
        exact congrArg (fun t => (OK, wyslijWiadomosc 0 p t)) (setM_refill rfl)

theorem zarejestrujNaCv_refill (c m : ℤ) :
    zarejestrujNaCv (s.refill start koniec) c m =
      (zarejestrujNaCv s c m).map (refillOutcome start koniec) := by
  -- writing the entry does not depend on the mutexes at all
  have hdopisz : ∀ i cv, dopiszCzekajacego (s.refill start koniec) i cv m =
      (dopiszCzekajacego s i cv m).map (refillOutcome start koniec) := by
    intro i cv
    unfold dopiszCzekajacego
    split_ifs <;> rfl
  unfold zarejestrujNaCv
  rw [indeksUzywanegoCv_refill]
  cases indeksUzywanegoCv s c with
  | some i => exact hdopisz i _
  | none =>
    dsimp only
    by_cases hfree : wolnyCv s < MAX_CV
    · have hfree' : wolnyCv (s.refill start koniec) < MAX_CV := hfree
      have hslot : (⟨wolnyCv (s.refill start koniec), hfree'⟩ : Fin MAX_CV) = ⟨wolnyCv s, hfree⟩ := rfl
      rw [dif_pos hfree, dif_pos hfree', hslot]
      generalize (⟨wolnyCv s, hfree⟩ : Fin MAX_CV) = i
      exact hdopisz i _
    · have hfree' : ¬ wolnyCv (s.refill start koniec) < MAX_CV := hfree
      rw [dif_neg hfree, dif_neg hfree']
      rfl

theorem csWait_refill (c m : ℤ) :
    csWait (s.refill start koniec) c m = (csWait s c m).map (refillOutcome start koniec) := by
  unfold csWait
  rw [indeksUzywanegoMutexa_refill]
  cases indeksUzywanegoMutexa s m with
  | none => rfl
  | some i =>
    dsimp only
    by_cases ho : (s.M i).wlasciciel ≠ s.aktualnyProces
    · rw [if_pos ho, if_pos (by exact ho)]
      rfl
    · rw [if_neg ho, if_neg (by exact ho), csUnlock_refill, zarejestrujNaCv_refill]

omit [Minix] in
/-- A loop whose body does not depend on the sentinels does not either. -/
private theorem foldlM_refill {f : ServerState → ℕ → Except TableFault ServerState}
    (hf : ∀ s j, f (s.refill start koniec) j = (f s j).map (·.refill start koniec)) (l : List ℕ)
    (s : ServerState) :
    l.foldlM f (s.refill start koniec) = (l.foldlM f s).map (·.refill start koniec) := by
  induction l generalizing s with
  | nil => rfl
  | cons j l ih =>
    rw [List.foldlM_cons, List.foldlM_cons, hf]
    cases hj : f s j with
    | error e => rfl
    | ok t => exact ih t

theorem zwrocMutex_refill (i : Fin MAX_CV) (s : ServerState) (j : ℕ) :
    zwrocMutex i (s.refill start koniec) j = (zwrocMutex i s j).map (·.refill start koniec) := by
  simp only [zwrocMutex]
  -- the round starts by making the waiter the current process
  have hlock : ∀ p m, csLock (ServerState.refill ⟨s.M, s.CV, p, s.sent⟩ start koniec) m =
      (csLock ⟨s.M, s.CV, p, s.sent⟩ m).map (refillOutcome start koniec) :=
    fun p m => csLock_refill m
  change (csLock (ServerState.refill ⟨s.M, s.CV, (s.CV i).procesy j, s.sent⟩ start koniec)
    ((s.CV i).muteksy j) >>= _) = _
  rw [hlock]
  generalize (s.CV i).procesy j = p
  generalize (s.CV i).muteksy j = m
  cases csLock ⟨s.M, s.CV, p, s.sent⟩ m with
  | error e => rfl
  | ok r =>
    obtain ⟨response, t⟩ := r
    by_cases hr : response ≠ EDONTREPLY
    · simp only [Except.map, bind, Except.bind, if_pos hr]
      rfl
    · simp only [Except.map, bind, Except.bind, if_neg hr]
      rfl

theorem csBroadcast_refill (c : ℤ) :
    csBroadcast (s.refill start koniec) c = (csBroadcast s c).map (refillOutcome start koniec) := by
  unfold csBroadcast
  rw [indeksUzywanegoCv_refill]
  cases indeksUzywanegoCv s c with
  | none => rfl
  | some i =>
    simp only [ServerState.refill_CV, foldlM_refill (zwrocMutex_refill i)]
    cases (List.range (s.CV i).size).foldlM (zwrocMutex i) s with
    | error e => rfl
    | ok t => rfl

/-! ## §3 What the sweeps read -/

omit [Minix] in
/-- The scan of an empty queue finds nothing, and the scan of another one passes a head
    sentinel that holds something else. -/
theorem szukaj_refill {q : Kolejka} {p : ℤ} (h : q.elementy ≠ [] → q.start ≠ p ∧ a ≠ p) :
    (q.refill a b).szukaj p = q.szukaj p := by
  cases hq : q.elementy with
  | nil => simp [szukaj, czyPusto, hq]
  | cons x xs =>
    obtain ⟨hstart, ha⟩ := h (by simp [hq])
    simp [szukaj, czyPusto, forEach, hq, List.findIdx?_cons, hstart, ha]

omit [Minix] in
/-- Whatever the head sentinel holds, a scan for a process that is not in the queue leads to
    no removal. -/
theorem usunElement_of_not_mem {q : Kolejka} {p : ℤ} (hp : p ∉ q.elementy) {item : ℕ}
    (hitem : q.szukaj p = some item) : q.usunElement item = q := by
  by_cases hstart : q.start = p
  · have hzero : item = 0 := by
      unfold szukaj at hitem
      split_ifs at hitem
      simpa [forEach, List.findIdx?_cons, hstart, eq_comm] using hitem
    rw [hzero]
    rfl
  · rw [(szukaj_eq_none hstart).mpr hp] at hitem
    cases hitem

omit [Minix] in
theorem usunElement_refill (q : Kolejka) (item : ℕ) :
    (q.refill a b).usunElement item = (q.usunElement item).refill a b := by
  cases item <;> rfl

/-- Queues only lose elements. -/
private def Shrinks (s s' : ServerState) : Prop :=
  ∀ i, (s'.M i).kolejka.start = (s.M i).kolejka.start ∧
    (s'.M i).kolejka.elementy ⊆ (s.M i).kolejka.elementy

omit [Minix] in
private theorem setM_shrinks {i : Fin MAX_MUTEX} {x : Mutex}
    (hstart : x.kolejka.start = (s.M i).kolejka.start)
    (hsub : x.kolejka.elementy ⊆ (s.M i).kolejka.elementy) : Shrinks s (s.setM i x) := by
  intro j
  by_cases hj : j = i
  · subst hj
    simpa [ServerState.setM] using ⟨hstart, hsub⟩
  · simp [ServerState.setM, Function.update_of_ne hj]

omit [Minix] in
private theorem usunElement_shrinks (q : Kolejka) (item : ℕ) :
    (q.usunElement item).start = q.start ∧ (q.usunElement item).elementy ⊆ q.elementy := by
  cases item with
  | zero => exact ⟨rfl, fun _ h => h⟩
  | succ k => exact ⟨rfl, fun _ h => List.mem_of_mem_eraseIdx h⟩

private theorem csUnlock_shrinks (m : ℤ) : Shrinks s (csUnlock s m).2 := by
  have hrefl : Shrinks s s := fun i => ⟨rfl, fun _ h => h⟩
  unfold csUnlock
  cases indeksUzywanegoMutexa s m with
  | none => exact hrefl
  | some i =>
    dsimp only
    split_ifs with ho hempty
    · exact hrefl
    · exact setM_shrinks rfl fun _ h => h
    · -- taking the first element leaves the sentinels and drops one element
      have hfirst : (pierwszyKolejka (s.M i).kolejka).2.start = (s.M i).kolejka.start ∧
          (pierwszyKolejka (s.M i).kolejka).2.elementy ⊆ (s.M i).kolejka.elementy := by
        cases hq : (s.M i).kolejka.elementy with
        | nil => simp [pierwszyKolejka, hq]
        | cons p q => simp [pierwszyKolejka, hq]
      exact setM_shrinks hfirst.1 hfirst.2

omit [Minix] in
/-- Sweeps do not depend on the sentinels where no visit does. -/
private theorem foldl_refill {ι : Type} {P : ServerState → Prop}
    {f : ServerState → ι → ServerState} (hP : ∀ s i, P s → P (f s i))
    (hf : ∀ s i, P s → f (s.refill start koniec) i = (f s i).refill start koniec) (l : List ι)
    {s : ServerState} (hs : P s) :
    P (l.foldl f s) ∧ l.foldl f (s.refill start koniec) = (l.foldl f s).refill start koniec := by
  induction l generalizing s with
  | nil => exact ⟨hs, rfl⟩
  | cons i l ih =>
    rw [List.foldl_cons, List.foldl_cons, hf s i hs]
    exact ih (hP s i hs)

omit [Minix] in
private theorem Shrinks.refill {s s' : ServerState} (h : Shrinks s s') :
    Shrinks (s.refill start koniec) (s'.refill start koniec) := fun i => ⟨rfl, (h i).2⟩

omit [Minix] in
private theorem Unfooled.shrinks {s s' : ServerState} {p : ℤ} (h : Unfooled s p)
    (hs : Shrinks s s') : Unfooled s' p := by
  intro i hi
  rw [(hs i).1]
  apply h i
  obtain ⟨x, hx⟩ := List.exists_mem_of_ne_nil _ hi
  exact List.ne_nil_of_mem ((hs i).2 hx)

omit [Minix] in
private theorem Unhidden.shrinks {s s' : ServerState} {p : ℤ} (h : Unhidden s p)
    (hs : Shrinks s s') : Unhidden s' p := by
  intro i hi
  rw [(hs i).1]
  exact h i ((hs i).2 hi)

omit [Minix] in
private theorem usunZakonczonyProcesCV_refill (s : ServerState) (i : Fin MAX_CV) (j : ℕ) :
    usunZakonczonyProcesCV (s.refill start koniec) i j =
      (usunZakonczonyProcesCV s i j).refill start koniec := by
  unfold usunZakonczonyProcesCV
  rw [ServerState.refill_CV]
  split_ifs <;> rfl

omit [Minix] in
private theorem szukajCzekajacego_refill (s : ServerState) (i : Fin MAX_CV) (p : ℤ) :
    szukajCzekajacego (s.refill start koniec) i p = szukajCzekajacego s i p := rfl

/-- A visit of a condition; `report` is what happens before the waiter is taken out. -/
private def wypisz (report : ServerState → ServerState) (p : ℤ) (s : ServerState)
    (i : Fin MAX_CV) : ServerState :=
  if (s.CV i).uzywany then
    match szukajCzekajacego s i p with
    | none => s
    | some j => usunZakonczonyProcesCV (report s) i j
  else s

omit [Minix] in
private theorem wypisz_refill {report : ServerState → ServerState}
    (hreport : ∀ s, report (s.refill start koniec) = (report s).refill start koniec) (p : ℤ)
    (s : ServerState) (i : Fin MAX_CV) :
    wypisz report p (s.refill start koniec) i = (wypisz report p s i).refill start koniec := by
  unfold wypisz
  rw [ServerState.refill_CV, szukajCzekajacego_refill]
  split_ifs
  · cases szukajCzekajacego s i p with
    | none => rfl
    | some j =>
      dsimp only
      rw [hreport, usunZakonczonyProcesCV_refill]
  · rfl

theorem wyslijEINTR_refill {p : ℤ} (h : Unfooled s p) (h' : Unfooled (s.refill start koniec) p) :
    wyslijEINTR (s.refill start koniec) p = (wyslijEINTR s p).refill start koniec := by
  unfold wyslijEINTR
  dsimp only
  rw [(foldl_refill (P := fun s => Unfooled s p ∧ Unfooled (s.refill start koniec) p)
    (fun s i hs => ?_) (fun s i hs => ?_) _ ⟨h, h'⟩).2]
  · -- the conditions
    exact (foldl_refill (P := fun _ => True) (f := wypisz (wyslijWiadomosc EINTR p) p)
      (fun _ _ _ => trivial) (fun s i _ => wypisz_refill (fun _ => rfl) p s i) _ trivial).2
  · -- a queue only loses elements
    cases szukaj (s.M i).kolejka p with
    | none => exact hs
    | some item =>
      have hq := usunElement_shrinks (s.M i).kolejka item
      have hshrinks := setM_shrinks (s := wyslijWiadomosc EINTR p s)
        (x := { s.M i with kolejka := usunElement (s.M i).kolejka item }) hq.1 hq.2
      exact ⟨hs.1.shrinks hshrinks, hs.2.shrinks hshrinks.refill⟩
  · have hfind : szukaj ((s.refill start koniec).M i).kolejka p = szukaj (s.M i).kolejka p :=
      szukaj_refill fun hne => ⟨hs.1 i hne, hs.2 i hne⟩
    rw [hfind]
    cases szukaj (s.M i).kolejka p with
    | none => rfl
    | some item =>
      refine setM_refill (s := wyslijWiadomosc EINTR p s) ?_
      rw [Mutex.refill, ← usunElement_refill]
      rfl

/-- A visit of the second sweep of `usunZakonczonyProces`. -/
private def wykresl (p : ℤ) (s : ServerState) (i : Fin MAX_MUTEX) : ServerState :=
  match szukaj (s.M i).kolejka p with
  | none => s
  | some item => s.setM i { s.M i with kolejka := usunElement (s.M i).kolejka item }

omit [Minix] in
private theorem wykresl_of_not_mem {p : ℤ} {i : Fin MAX_MUTEX}
    (hp : p ∉ (s.M i).kolejka.elementy) : wykresl p s i = s := by
  unfold wykresl
  cases hitem : szukaj (s.M i).kolejka p with
  | none => rfl
  | some item =>
    dsimp only
    rw [usunElement_of_not_mem hp hitem]
    exact congrArg (fun M => ServerState.mk M s.CV s.aktualnyProces s.sent)
      (Function.update_eq_self i s.M)

omit [Minix] in
private theorem wykresl_shrinks (p : ℤ) (s : ServerState) (i : Fin MAX_MUTEX) :
    Shrinks s (wykresl p s i) := by
  unfold wykresl
  cases szukaj (s.M i).kolejka p with
  | none => exact fun _ => ⟨rfl, fun _ h => h⟩
  | some item =>
    have hq := usunElement_shrinks (s.M i).kolejka item
    exact setM_shrinks hq.1 hq.2

omit [Minix] in
private theorem wykresl_refill {p : ℤ} (h : Unhidden s p) (h' : Unhidden (s.refill start koniec) p)
    (i : Fin MAX_MUTEX) :
    wykresl p (s.refill start koniec) i = (wykresl p s i).refill start koniec := by
  by_cases hp : p ∈ (s.M i).kolejka.elementy
  · have hfind : szukaj ((s.refill start koniec).M i).kolejka p = szukaj (s.M i).kolejka p :=
      szukaj_refill fun _ => ⟨h i hp, h' i hp⟩
    unfold wykresl
    rw [hfind]
    cases szukaj (s.M i).kolejka p with
    | none => rfl
    | some item =>
      apply setM_refill
      rw [Mutex.refill, ← usunElement_refill]
      rfl
  · rw [wykresl_of_not_mem hp, wykresl_of_not_mem (s := s.refill start koniec) hp]

/-- A visit of its first sweep. -/
private def zwolnij (p : ℤ) (s : ServerState) (i : Fin MAX_MUTEX) : ServerState :=
  if (s.M i).uzywany && (s.M i).wlasciciel == p then (csUnlock s (s.M i).numer).2 else s

private theorem zwolnij_shrinks (p : ℤ) (s : ServerState) (i : Fin MAX_MUTEX) :
    Shrinks s (zwolnij p s i) := by
  unfold zwolnij
  split_ifs
  · exact csUnlock_shrinks _
  · exact fun _ => ⟨rfl, fun _ h => h⟩

private theorem zwolnij_refill (p : ℤ) (s : ServerState) (i : Fin MAX_MUTEX) :
    zwolnij p (s.refill start koniec) i = (zwolnij p s i).refill start koniec := by
  simp only [zwolnij, ServerState.refill_M, Mutex.refill_uzywany, Mutex.refill_wlasciciel,
    Mutex.refill_numer, csUnlock_refill]
  split_ifs <;> rfl

/-- `aktualnyProces = p` -/
private def ServerState.jako (s : ServerState) (p : ℤ) : ServerState := { s with aktualnyProces := p }

omit [Minix] in
private theorem jako_refill (p : ℤ) :
    (s.refill start koniec).jako p = (s.jako p).refill start koniec := rfl

/-- The three sweeps of `usunZakonczonyProces`, over any slots. -/
private def sprzatnij (p : ℤ) (l : List (Fin MAX_MUTEX)) (l' : List (Fin MAX_CV))
    (s : ServerState) : ServerState :=
  l'.foldl (wypisz (fun s => s) p) (l.foldl (wykresl p) (l.foldl (zwolnij p) s))

private theorem usunZakonczonyProces_eq_sprzatnij (s : ServerState) (p : ℤ) :
    usunZakonczonyProces s p =
      (sprzatnij p (List.finRange MAX_MUTEX) (List.finRange MAX_CV) (s.jako p)).jako
        s.aktualnyProces := by
  unfold usunZakonczonyProces
  generalize List.finRange MAX_MUTEX = l
  generalize List.finRange MAX_CV = l'
  rfl

private theorem sprzatnij_refill {p : ℤ} (h : Unhidden s p)
    (h' : Unhidden (s.refill start koniec) p) (l : List (Fin MAX_MUTEX)) (l' : List (Fin MAX_CV)) :
    sprzatnij p l l' (s.refill start koniec) = (sprzatnij p l l' s).refill start koniec := by
  have hP : ∀ {s s'}, Unhidden s p ∧ Unhidden (s.refill start koniec) p → Shrinks s s' →
      Unhidden s' p ∧ Unhidden (s'.refill start koniec) p :=
    fun hs hsh => ⟨hs.1.shrinks hsh, hs.2.shrinks hsh.refill⟩
  have hwypisz : ∀ s i, True → wypisz (fun s => s) p (s.refill start koniec) i =
      (wypisz (fun s => s) p s i).refill start koniec :=
    fun s i _ => wypisz_refill (fun _ => rfl) p s i
  obtain ⟨h₁, hunlock⟩ := foldl_refill (fun s i hs => hP hs (zwolnij_shrinks p s i))
    (fun s i _ => zwolnij_refill p s i) l (s := s) ⟨h, h'⟩
  obtain ⟨-, hqueues⟩ := foldl_refill (fun s i hs => hP hs (wykresl_shrinks p s i))
    (fun s i hs => wykresl_refill hs.1 hs.2 i) l h₁
  obtain ⟨-, hcv⟩ := foldl_refill (P := fun _ => True) (fun _ _ _ => trivial) hwypisz l'
    (s := l.foldl (wykresl p) (l.foldl (zwolnij p) s)) trivial
  rw [sprzatnij, hunlock, hqueues, hcv, sprzatnij]

theorem usunZakonczonyProces_refill {p : ℤ} (h : Unhidden s p)
    (h' : Unhidden (s.refill start koniec) p) :
    usunZakonczonyProces (s.refill start koniec) p =
      (usunZakonczonyProces s p).refill start koniec := by
  rw [usunZakonczonyProces_eq_sprzatnij, usunZakonczonyProces_eq_sprzatnij, jako_refill,
    sprzatnij_refill (s := s.jako p) h h', jako_refill, ServerState.refill_aktualnyProces]

end Refill

/-! ## §4 One message -/

section Handling

variable [Minix] {s : ServerState} {start koniec : Fin MAX_MUTEX → ℤ} {m : Message}

theorem odpowiedz_refill (r : ℤ × ServerState) :
    odpowiedz (refillOutcome start koniec r) = (odpowiedz r).refill start koniec := by
  unfold odpowiedz
  split_ifs <;> rfl

private theorem map_odpowiedz_refill (x : Except TableFault (ℤ × ServerState)) :
    (x.map (refillOutcome start koniec)).map odpowiedz =
      (x.map odpowiedz).map (·.refill start koniec) := by
  cases x with
  | error e => rfl
  | ok r => exact congrArg Except.ok (odpowiedz_refill r)

/-- **Step lemma**: a message that does not depend on the sentinels. -/
theorem obsluz_refill (h : m.Blind s) (h' : m.Blind (s.refill start koniec)) :
    obsluz (s.refill start koniec) m =
      (obsluz s m).map fun r => (r.1.refill start koniec, r.2) := by
  have hprzyjmij : ∀ p, (s.refill start koniec).przyjmij p = (s.przyjmij p).refill start koniec :=
    fun _ => rfl
  have hhandled : obslugaWiadomosci { s.refill start koniec with sent := [] } m =
      (obslugaWiadomosci { s with sent := [] } m).map (·.refill start koniec) := by
    rw [obslugaWiadomosci_eq, obslugaWiadomosci_eq]
    cases hreq : m.request with
    | lock p k => simp only [hprzyjmij, csLock_refill, map_odpowiedz_refill]
    | unlock p k =>
      simp only [hprzyjmij, csUnlock_refill, odpowiedz_refill]
      rfl
    | wait p c k => simp only [hprzyjmij, csWait_refill, map_odpowiedz_refill]
    | broadcast p c => simp only [hprzyjmij, csBroadcast_refill, map_odpowiedz_refill]
    | interrupt p =>
      exact congrArg Except.ok (wyslijEINTR_refill (s := s.przyjmij m.mSource)
        (h.interrupt p hreq) (h'.interrupt p hreq))
    | exit p =>
      exact congrArg Except.ok (usunZakonczonyProces_refill (s := s.przyjmij m.mSource)
        (h.exit p hreq) (h'.exit p hreq))
    | bad p => rfl
  unfold obsluz
  rw [hhandled]
  cases obslugaWiadomosci { s with sent := [] } m with
  | error e => rfl
  | ok t => rfl

end Handling

/-! ## §5 Runs -/

section Runs

variable [Minix]

/-- One message is handled, whatever the sentinels hold: requests come from processes that
    have no unanswered request, notifications from PM. -/
structure FreeStep (c : Config) (l : Message × List Reply) (c' : Config) : Prop where
  answered : ∀ p, l.1.request.sender = some p → p ∉ c.pending
  fromPM : FromPM l.1
  handled : obsluz c.server l.1 = .ok (c'.server, l.2)
  pending : c'.pending = unanswered (asked c.pending l.1.request) l.2

/-- Such a step that does not depend on the sentinels. -/
structure BlindStep (c : Config) (l : Message × List Reply) (c' : Config) : Prop
    extends FreeStep c l c' where
  blind : l.1.Blind c.server

theorem Step.free {c c' : Config} {l : Message × List Reply} (h : Step c l c') : FreeStep c l c' :=
  ⟨h.admissible.answered, h.fromPM, h.handled, h.pending⟩

/-- The same configuration, with `start` and `koniec` in the sentinels. -/
def Config.refill (c : Config) (start koniec : Fin MAX_MUTEX → ℤ) : Config :=
  ⟨c.server.refill start koniec, c.pending⟩

variable {c c₁ d₁ : Config} {start koniec : Fin MAX_MUTEX → ℤ}

/-- One step of two servers that differ in their sentinels. -/
theorem BlindStep.refill {m : Message} {out out' : List Reply} (h : BlindStep c (m, out) c₁)
    (h' : BlindStep (c.refill start koniec) (m, out') d₁) :
    out' = out ∧ d₁ = c₁.refill start koniec := by
  -- the two runs handle the message alike
  have hsame := obsluz_refill h.blind h'.blind
  have hd : obsluz (c.server.refill start koniec) m = .ok (d₁.server, out') := h'.handled
  rw [h.handled, hd] at hsame
  simp only [Except.map, Except.ok.injEq, Prod.mk.injEq] at hsame
  obtain ⟨hserver, hout⟩ := hsame
  have hpending : d₁.pending = c₁.pending := by
    rw [h'.pending, h.pending, hout]
    rfl
  refine ⟨hout, ?_⟩
  obtain ⟨t, q⟩ := d₁
  simp only at hserver hpending
  rw [hserver, hpending]
  rfl

/-- Two runs on the same messages. -/
theorem run_refill {ls ls' : List (Message × List Reply)} {d : Config}
    (h : Run BlindStep c ls c₁) (h' : Run BlindStep (c.refill start koniec) ls' d)
    (hmsgs : ls'.map Prod.fst = ls.map Prod.fst) :
    ls' = ls ∧ d = c₁.refill start koniec := by
  induction h generalizing ls' with
  | nil c =>
    rw [List.map_nil, List.map_eq_nil_iff] at hmsgs
    subst hmsgs
    cases h'
    exact ⟨rfl, rfl⟩
  | @cons c c₂ c₁ l ls hstep hrun ih =>
    cases h' with
    | nil => simp at hmsgs
    | @cons _ d₂ _ l' ls' hstep' hrun' =>
      obtain ⟨m, out⟩ := l
      obtain ⟨m', out'⟩ := l'
      simp only [List.map_cons, List.cons.injEq] at hmsgs
      obtain ⟨rfl, hmsgs⟩ := hmsgs
      obtain ⟨rfl, rfl⟩ := hstep.refill hstep'
      obtain ⟨rfl, rfl⟩ := ih hrun' hmsgs
      exact ⟨rfl, rfl⟩

/-- **The sentinels are not read**: two runs on the same messages from tables that differ only
in what `malloc` left in the sentinels send the same replies and end with the same tables, as
long as every message is received while its handling does not depend on the sentinels. -/
theorem sentinels_unread {start₁ koniec₁ start₂ koniec₂ : Fin MAX_MUTEX → ℤ}
    {ls₁ ls₂ : List (Message × List Reply)} {c₁ c₂ : Config}
    (h₁ : Run BlindStep (Config.initial start₁ koniec₁) ls₁ c₁)
    (h₂ : Run BlindStep (Config.initial start₂ koniec₂) ls₂ c₂)
    (hmsgs : ls₂.map Prod.fst = ls₁.map Prod.fst) :
    ls₂ = ls₁ ∧ c₂ = c₁.refill start₂ koniec₂ ∧ abs c₂.server = abs c₁.server := by
  have h₂' : Run BlindStep ((Config.initial start₁ koniec₁).refill start₂ koniec₂) ls₂ c₂ := h₂
  obtain ⟨hls, hc⟩ := run_refill h₁ h₂' hmsgs
  refine ⟨hls, hc, ?_⟩
  rw [hc]
  rfl

theorem BlindStep.imitate {l : Message × List Reply} (h : BlindStep c l c₁)
    (h' : l.1.Blind (c.server.refill start koniec)) :
    BlindStep (c.refill start koniec) l (c₁.refill start koniec) where
  answered := h.answered
  fromPM := h.fromPM
  handled := by
    have hsame := obsluz_refill h.blind h'
    rw [h.handled] at hsame
    exact hsame
  pending := h.pending
  blind := h'

/-! ## §6 A sentinel that is read -/

omit [Minix] in
/-- A request that is no notification does not depend on the sentinels. -/
theorem Message.blind_lock (p m x : ℤ) (s : ServerState) :
    (⟨p, CS_LOCK, m, x⟩ : Message).Blind s := by
  constructor <;> simp [request_lock]

/-- A queue with somebody in it and `p` in its head sentinel makes `wyslijEINTR` answer `p`. -/
theorem wyslijEINTR_fooled {s : ServerState} {p : ℤ} (h : ¬ Unfooled s p) :
    ⟨EINTR, p⟩ ∈ (wyslijEINTR s p).sent := by
  simp only [Unfooled, not_forall, ne_eq, not_not] at h
  obtain ⟨i, hne, hstart⟩ := h
  -- the scan of that queue stops at the sentinel
  have hfound : ((s.M i).kolejka.szukaj p).isSome = true := by
    simp [szukaj, czyPusto, forEach, hne, hstart, List.findIdx?_cons]
  rw [wyslijEINTR_scans]
  refine List.mem_append_left _ (List.mem_append_right _ (List.mem_flatMap.mpr ?_))
  exact ⟨i, List.mem_finRange i, by rw [if_pos hfound]; exact List.mem_singleton_self _⟩

/-- Where every queue with `p` in it holds `p` in its head sentinel too, and no condition lists
`p`, `wyslijEINTR` leaves the tables as they are. -/
theorem wyslijEINTR_of_hidden {s : ServerState} {p : ℤ}
    (hqueue : ∀ i, p ∈ (s.M i).kolejka.elementy → (s.M i).kolejka.start = p)
    (hcv : ∀ i, (s.CV i).uzywany = true → p ∉ (s.CV i).czekajacy.map (·.1)) :
    (wyslijEINTR s p).M = s.M ∧ (wyslijEINTR s p).CV = s.CV := by
  rw [wyslijEINTR_scans]
  constructor
  · funext i
    by_cases hmem : p ∈ (s.M i).kolejka.elementy
    · simp [Mutex.scanned, hqueue i hmem]
    · simp only [Mutex.scanned, Mutex.dropProc_of_not_mem hmem, ite_self]
  · funext i
    by_cases hused : (s.CV i).uzywany = true
    · have hnone : ((s.CV i).czekajacy.findIdx? fun w => w.1 == p) = none := by
        rw [List.findIdx?_eq_none_iff]
        intro w hw
        simpa using fun hwp : w.1 = p => hcv i hused (List.mem_map.mpr ⟨w, hw, hwp⟩)
      simp [ConditionVariable.dropProc, hused, hnone]
    · simp [ConditionVariable.dropProc, hused]

omit [Minix] in
private theorem tables_clear {s x : ServerState} (hs : TableInv s) (hM : x.M = s.M)
    (hCV : x.CV = s.CV) : TableInv { x with sent := [] } ∧ abs { x with sent := [] } = abs s := by
  refine ⟨hs.congr hM hCV, ?_⟩
  rw [abs_sent, abs, abs, hM, hCV]

/-- A `CS_EINTR` about a process that the head sentinel of its queue holds is answered, and
changes nothing. -/
theorem obsluz_eintr_hidden {s : ServerState} {p : ℤ} {m : Message} (hs : TableInv s)
    (ha : (abs s).WellFormed) (hr : m.request = .interrupt p) {i : Fin MAX_MUTEX}
    (hmem : p ∈ (s.M i).kolejka.elementy) (hstart : (s.M i).kolejka.start = p) :
    ∃ s' out, obsluz s m = .ok (s', out) ∧ TableInv s' ∧ abs s' = abs s ∧
      (∀ r ∈ out, r = ⟨EINTR, p⟩) ∧ out ≠ [] := by
  have hok := obsluz_interrupt (s := s) hr
  -- `p` is in no other list, so nothing is unlinked
  have honly : ∀ k, p ∈ listIn s k → k = .inl i := fun k hk =>
    (listIn_exclusive hs ha).eq_of_mem hk (mem_listIn_mutex.mpr hmem)
  obtain ⟨hM, hCV⟩ := wyslijEINTR_of_hidden (s := s.przyjmij m.mSource) (p := p)
    (fun j hj => by cases honly (.inl j) hj; exact hstart)
    (fun j hj hj' => by cases honly (.inr j) (mem_listIn_cv.mpr ⟨hj, hj'⟩))
  have hout : ∀ r ∈ (wyslijEINTR (s.przyjmij m.mSource) p).sent, r = ⟨EINTR, p⟩ := fun r hr =>
    (wyslijEINTR_replies hr).resolve_left (by simp)
  have hsent := wyslijEINTR_fooled (s := s.przyjmij m.mSource) (p := p)
    fun h => h i (List.ne_nil_of_mem hmem) hstart
  generalize wyslijEINTR (s.przyjmij m.mSource) p = x at hok hM hCV hout hsent
  obtain ⟨hinv, habs⟩ := tables_clear hs hM hCV
  exact ⟨_, _, hok, hinv, habs, hout, List.ne_nil_of_mem hsent⟩

/-- A queue with `p` in it and in its head sentinel keeps `p` through `usunZakonczonyProces`,
unless `p` owns the mutex too. -/
theorem usunZakonczonyProces_fooled {s : ServerState} {p : ℤ} (hs : TableInv s)
    {i : Fin MAX_MUTEX} (ho : (s.M i).wlasciciel ≠ p) (hmem : p ∈ (s.M i).kolejka.elementy)
    (hstart : (s.M i).kolejka.start = p) :
    p ∈ ((usunZakonczonyProces s p).M i).kolejka.elementy := by
  rw [usunZakonczonyProces_scans hs]
  simp only [Mutex.unlockedBy_of_ne ho]
  exact (Mutex.mem_scanned_self hmem).mpr (Or.inl hstart)

/-- Process `o` takes mutex `m` and process `p` waits for it, with anything in the
    sentinels. -/
theorem exists_contended {o p m : ℤ} (hop : o ≠ p) :
    ∃ c, Shows [(⟨o, CS_LOCK, m, 0⟩, [⟨OK, o⟩]), (⟨p, CS_LOCK, m, 0⟩, [])] c
        ⟨PartialMap.empty.set m (some (o, [p])), PartialMap.empty⟩ ∧
      ∀ start koniec, Run BlindStep (Config.initial start koniec)
        [(⟨o, CS_LOCK, m, 0⟩, [⟨OK, o⟩]), (⟨p, CS_LOCK, m, 0⟩, [])] (c.refill start koniec) := by
  obtain ⟨c₁, hstep₁, h₁⟩ := shows_initial.lock_free (p := o) (m := m)
    (Manager.not_waiting_empty o) rfl (by simp [Manager.empty, MAX_MUTEX])
  obtain ⟨c₂, hstep₂, h₂⟩ := h₁.lock_taken (p := p) (m := m) (o := o) (q := [])
    (by simp [Manager.empty, waiting_single_iff]) (by simp) hop
  have hblind : ∀ {c c' q out}, Step c (⟨q, CS_LOCK, m, 0⟩, out) c' →
      BlindStep c (⟨q, CS_LOCK, m, 0⟩, out) c' := fun h =>
    ⟨h.free, Message.blind_lock _ _ _ _⟩
  rw [PartialMap.set_set] at h₂
  refine ⟨c₂, h₂, fun start koniec => ?_⟩
  have hfirst : BlindStep (Config.initial start koniec) _ (c₁.refill start koniec) :=
    (hblind hstep₁).imitate (Message.blind_lock _ _ _ _)
  have hsecond : BlindStep (c₁.refill start koniec) _ (c₂.refill start koniec) :=
    (hblind hstep₂).imitate (Message.blind_lock _ _ _ _)
  exact .cons hfirst (.cons hsecond (.nil _))

private theorem exists_step {m : Message} {t : ServerState}
    (hok : obsluz c.server m = .ok ({ t with sent := [] }, t.sent))
    (hsender : ∀ p, m.request.sender = some p → p ∉ c.pending) (hpm : FromPM m) :
    ∃ d, FreeStep c (m, t.sent) d :=
  ⟨⟨{ t with sent := [] }, _⟩, hsender, hpm, hok, rfl⟩

/-- `CS_EINTR` needs no room, so it is always handled. -/
theorem exists_interrupt (c : Config) {m : Message} {p : ℤ} (hm : m.request = .interrupt p)
    (hpm : FromPM m) :
    ∃ d, FreeStep c (m, (wyslijEINTR (c.server.przyjmij m.mSource) p).sent) d :=
  exists_step (obsluz_interrupt hm) (by simp [hm, Request.sender]) hpm

end Runs

/-- Two processes ask for mutex 7, with 0 and with 5 in the sentinels. -/
theorem sentinels_unread_two_locks :
    letI := Minix.v321
    ∃ c, Run BlindStep (Config.initial (fun _ => 0) (fun _ => 0))
        [(⟨1, CS_LOCK, 7, 0⟩, [⟨OK, 1⟩]), (⟨2, CS_LOCK, 7, 0⟩, [])] c ∧
      ∃ d, Run BlindStep (Config.initial (fun _ => 5) (fun _ => 5))
        [(⟨1, CS_LOCK, 7, 0⟩, [⟨OK, 1⟩]), (⟨2, CS_LOCK, 7, 0⟩, [])] d ∧
      (abs d.server).mutexes.get 7 = some (1, [2]) ∧ abs d.server = abs c.server := by
  let _ := Minix.v321
  obtain ⟨c, hshows, hrun⟩ := exists_contended (o := 1) (p := 2) (m := 7) (by decide)
  have h₁ := hrun (fun _ => 0) (fun _ => 0)
  have h₂ := hrun (fun _ => 5) (fun _ => 5)
  have habs := (sentinels_unread h₁ h₂ rfl).2.2
  refine ⟨_, h₁, _, h₂, ?_, habs⟩
  have hc : abs (c.refill (fun _ => 5) (fun _ => 5)).server = abs c.server := rfl
  rw [hc, hshows.abs_eq]
  simp

/-- PM interrupts process 5, which waits for nothing, while process 2 waits for mutex 7.  With
0 in the sentinels nobody is answered; with 5 in them process 5 is sent `EINTR`. -/
theorem sentinel_answered :
    letI := Minix.v321
    ∃ out c d, out ≠ [] ∧
      Run FreeStep (Config.initial (fun _ => 0) (fun _ => 0))
        [(⟨1, CS_LOCK, 7, 0⟩, [⟨OK, 1⟩]), (⟨2, CS_LOCK, 7, 0⟩, []),
          (⟨Minix.PM_PROC_NR, CS_EINTR, 5, 0⟩, [])] c ∧
      Run FreeStep (Config.initial (fun _ => 5) (fun _ => 5))
        [(⟨1, CS_LOCK, 7, 0⟩, [⟨OK, 1⟩]), (⟨2, CS_LOCK, 7, 0⟩, []),
          (⟨Minix.PM_PROC_NR, CS_EINTR, 5, 0⟩, out)] d := by
  let _ := Minix.v321
  obtain ⟨c, hshows, hrun⟩ := exists_contended (o := 1) (p := 2) (m := 7) (by decide)
  have hpm : FromPM ⟨Minix.PM_PROC_NR, CS_EINTR, 5, 0⟩ := fun _ => rfl
  -- with zeros, process 5 is not found
  obtain ⟨out₀, c', hstep, hrep, -⟩ := hshows.step (request_eintr _ 5 0) hpm
    (by simp [Manager.Admits, Request.sender]) (by simp) (hshows.fits.remove 5)
  have hout₀ : out₀ = [] := by
    rcases hrep with ⟨hw, -⟩ | ⟨-, hout⟩
    · simp [waiting_single_iff] at hw
    · exact hout
  subst hout₀
  have hrun₁ := (hshows.run.mono fun _ _ _ h => h.free).snoc hstep.free
  -- with fives, the sentinel of the queue that process 2 is in is taken for process 5
  have hqueued : c.server.Queued 2 7 := by
    rw [queued_iff hshows.reachable.inv.tables, hshows.abs_eq,
      Manager.queue_of_get (o := 1) (q := [2]) (by simp)]
    simp
  have hfooled : ¬ Unfooled
      ((c.refill (fun _ => 5) (fun _ => 5)).server.przyjmij Minix.PM_PROC_NR) 5 := by
    obtain ⟨i, -, -, hi⟩ := hqueued
    intro h
    exact h i (List.ne_nil_of_mem hi) rfl
  have hsent := wyslijEINTR_fooled hfooled
  have hrun₂ := (hrun (fun _ => 5) (fun _ => 5)).mono fun _ _ _ h => h.toFreeStep
  obtain ⟨d, hd⟩ := exists_interrupt (c.refill (fun _ => 5) (fun _ => 5)) (request_eintr _ 5 0) hpm
  exact ⟨_, c', d, List.ne_nil_of_mem hsent, hrun₁, hrun₂.snoc hd⟩

end MinixCv.Server

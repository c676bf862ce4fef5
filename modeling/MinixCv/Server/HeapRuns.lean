import MinixCv.Server.HeapRefinement
import MinixCv.Server.Runs
import Mathlib.Algebra.BigOperators.Group.Finset.Basic
import Mathlib.Data.Set.Card

/-!
# Runs Of The Server With Its Memory

- `uruchom_represents`: `main` up to its loop makes initial tables
- `run_on_heap_refines`: every run with memory is a run on lists, and no message makes the
  server touch memory that it does not own
- `allocated_elements`: how much memory is in use after a run
-/

namespace MinixCv.Server.Sterta

open MinixCv.Lib MinixCv.LockManager

variable {A Q : Type}

/-! ## §1 The start -/

section Start

/-- The loop of `main` has made the queues of the slots `l`, and they are empty. -/
structure Created (t : Serwer A Q) (c : Q → Option (List (A × ℤ))) (l : List (Fin MAX_MUTEX)) :
    Prop where
  queues : QueueInv t.pamiec c
  made : ∀ i ∈ l, ∃ q k, PointsTo t.M t.pamiec c i q k []
  unmade : ∀ i, i ∉ l → (t.M i).kolejka = none
  unused : ∀ i, (t.M i).uzywany = false ∧ (t.M i).numer = 0 ∧ (t.M i).wlasciciel = 0
  apart : ∀ i j q, (t.M i).kolejka = some q → (t.M j).kolejka = some q → i = j
  owned : ∀ a, t.pamiec.elementy a ≠ none → ∃ i ∈ l, ∃ q k, PointsTo t.M t.pamiec c i q k [] ∧
    a ∈ k.adresy []
  empty : ∀ q w, c q = some w → w = []
  cv : t.CV = fun _ => ⟨false, 0, fun _ => 0, fun _ => 0, 0⟩
  aktualnyProces : t.aktualnyProces = 0
  sent : t.sent = []

variable [DecidableEq A] [DecidableEq Q] {t t' : Serwer A Q} {c : Q → Option (List (A × ℤ))}
  {l : List (Fin MAX_MUTEX)} {i : Fin MAX_MUTEX}

omit [DecidableEq A] [DecidableEq Q] in
theorem poczatek_created : Created (poczatek : Serwer A Q) (fun _ => none) [] where
  queues := pusta_inv
  made := by simp
  unmade := by simp [poczatek]
  unused := by simp [poczatek]
  apart := by simp [poczatek]
  owned := by simp [poczatek, Pamiec.pusta]
  empty := by simp
  cv := rfl
  aktualnyProces := rfl
  sent := rfl

/-- One round of the loop of `main`: there is no memory, or the queue of the slot is made. -/
theorem utworzKolejke_created (malloc : Malloc A Q) (h : Created t c l) (hi : i ∉ l) :
    utworzKolejke malloc t i = .error .brakPamieci ∨
      ∃ t' c', utworzKolejke malloc t i = .ok t' ∧ Created t' c' (i :: l) := by
  unfold utworzKolejke
  cases hq : malloc.kolejka t.przydzielono t.pamiec.kolejki with
  | none => exact .inl rfl
  | some q =>
  cases hs : malloc.element t.przydzielono t.pamiec.elementy with
  | none => exact .inl rfl
  | some start =>
  cases he : malloc.element (t.przydzielono + 1) (t.pamiec.elementy.alloc start.1 start.2) with
  | none =>
    left
    simp only [he]
  | some koniec =>
    right
    simp only [he]
    have hqfree := malloc.kolejka_free _ _ _ hq
    have hsfree := malloc.element_free _ _ _ hs
    have hne : start.1 ≠ koniec.1 := by
      intro heq
      have hfree := malloc.element_free _ _ _ he
      simp [Heap.alloc, ← heq] at hfree
    have hefree : t.pamiec.elementy koniec.1 = none := by
      have hfree := malloc.element_free _ _ _ he
      rwa [Heap.alloc, Function.update_of_ne (Ne.symm hne)] at hfree
    obtain ⟨p', hok, hkolejki, -, -, hframe⟩ := Pamiec.utworzKolejke_rep (q := q)
      hsfree hefree hne start.2 koniec.2
    have hstep : QueueStep t.pamiec (.utworzKolejke q start.1 koniec.1 start.2 koniec.2, none) p' :=
      ⟨⟨hqfree, hsfree, hefree, hne⟩, 0, by rw [QueueCall.wykonaj, hok]; rfl⟩
    have heffect := (hstep.effect h.queues).2
    -- no slot points to the new queue yet
    have hnew : ∀ j, (t.M j).kolejka ≠ some q := by
      intro j hj
      by_cases hmem : j ∈ l
      · obtain ⟨q', k, hw⟩ := h.made j hmem
        rw [hw.pointer, Option.some.injEq] at hj
        simp [← hj, hw.struct] at hqfree
      · simp [h.unmade j hmem] at hj
    have hkept : ∀ j ∈ l, ∀ q' k, PointsTo t.M t.pamiec c j q' k [] →
        PointsTo (Function.update t.M i { t.M i with uzywany := false, kolejka := some q }) p'
          (Function.update c q (some [])) j q' k [] := by
      intro j hj q' k hw
      have hji : j ≠ i := fun heq => hi (heq ▸ hj)
      have hq' : q' ≠ q := fun heq => hnew j (heq ▸ hw.pointer)
      exact ⟨by rw [Function.update_of_ne hji, hw.pointer], heffect.kept q' k hw.struct,
        by rw [Function.update_of_ne hq', hw.list]⟩
    have hself : PointsTo (Function.update t.M i { t.M i with uzywany := false, kolejka := some q })
        p' (Function.update c q (some [])) i q ⟨start.1, koniec.1⟩ [] :=
      ⟨by rw [Function.update_self], by rw [hkolejki, Function.update_self],
        by rw [Function.update_self]⟩
    rw [hok]
    refine ⟨_, Function.update c q (some []), rfl, heffect.inv, ?_, ?_, ?_, ?_, ?_, ?_, h.cv,
      h.aktualnyProces, h.sent⟩
    · intro j hj
      rcases List.mem_cons.mp hj with rfl | hj
      · exact ⟨q, _, hself⟩
      · obtain ⟨q', k, hw⟩ := h.made j hj
        exact ⟨q', k, hkept j hj q' k hw⟩
    · intro j hj
      rw [List.mem_cons, not_or] at hj
      simp only [Serwer.setM, Function.update_of_ne hj.1]
      exact h.unmade j hj.2
    · intro j
      by_cases hj : j = i
      · subst hj
        simpa [Serwer.setM] using (h.unused j).2
      · simpa only [Serwer.setM, Function.update_of_ne hj] using h.unused j
    · -- the pointers differ, since the new one is new
      intro j j' q' hj hj'
      simp only [Serwer.setM] at hj hj'
      by_cases hji : j = i
      · by_cases hji' : j' = i
        · rw [hji, hji']
        · rw [Function.update_of_ne hji'] at hj'
          rw [hji, Function.update_self, Option.some.injEq] at hj
          exact absurd (hj ▸ hj') (hnew j')
      · rw [Function.update_of_ne hji] at hj
        by_cases hji' : j' = i
        · rw [hji', Function.update_self, Option.some.injEq] at hj'
          exact absurd (hj' ▸ hj) (hnew j)
        · rw [Function.update_of_ne hji'] at hj'
          exact h.apart j j' q' hj hj'
    · intro a ha
      by_cases hmem : a = start.1 ∨ a = koniec.1
      · exact ⟨i, List.mem_cons_self, q, _, hself, by simpa [StrukturaKolejki.adresy] using hmem⟩
      · rw [not_or] at hmem
        have hold : t.pamiec.elementy a ≠ none := by
          rw [← hframe a hmem.1 hmem.2]
          exact ha
        obtain ⟨j, hj, q', k, hw, hin⟩ := h.owned a hold
        exact ⟨j, List.mem_cons_of_mem i hj, q', k, hkept j hj q' k hw, hin⟩
    · intro q' w hw
      by_cases hq' : q' = q
      · rw [hq', Function.update_self, Option.some.injEq] at hw
        exact hw.symm
      · rw [Function.update_of_ne hq'] at hw
        exact h.empty q' w hw

/-- The loop of `main`, by induction on the slots that are left. -/
theorem utworzKolejki_created (malloc : Malloc A Q) (h : Created t c l)
    {rest : List (Fin MAX_MUTEX)} (hnodup : (l.reverse ++ rest).Nodup) :
    rest.foldlM (utworzKolejke malloc) t = .error .brakPamieci ∨
      ∃ t' c', rest.foldlM (utworzKolejke malloc) t = .ok t' ∧
        Created t' c' (rest.reverse ++ l) := by
  induction rest generalizing t c l with
  | nil => exact .inr ⟨t, c, rfl, h⟩
  | cons i rest ih =>
    have hi : i ∉ l := by
      intro hmem
      exact (List.nodup_append.mp hnodup).2.2 i (List.mem_reverse.mpr hmem) i
        List.mem_cons_self rfl
    rw [List.foldlM_cons]
    rcases utworzKolejke_created malloc h hi with hout | ⟨t', c', hok, h'⟩
    · rw [hout]
      exact .inl rfl
    · rw [hok]
      have hnext := ih h' (by simpa using hnodup)
      simpa only [List.reverse_cons, List.append_assoc, List.cons_append, List.nil_append,
        bind, Except.bind] using hnext

omit [DecidableEq A] [DecidableEq Q] in
/-- What `main` has made stands for initial tables. -/
theorem Created.represents (h : Created t c l) (hall : ∀ i, i ∈ l) :
    ∃ start koniec, Represents t (initial start koniec) := by
  have hpoints : ∀ i, ∃ q k, PointsTo t.M t.pamiec c i q k [] := fun i => h.made i (hall i)
  choose q k hw using hpoints
  refine ⟨fun i => valueAt t.pamiec.elementy (k i).start,
    fun i => valueAt t.pamiec.elementy (k i).koniec, c, h.queues, fun i => ?_, h.apart,
    fun a ha => ?_, fun q' w hlist => ?_, h.cv.symm, h.aktualnyProces.symm, h.sent.symm⟩
  · obtain ⟨huzywany, hnumer, hwlasciciel⟩ := h.unused i
    refine ⟨q i, k i, [], hw i, ?_⟩
    rw [huzywany, hnumer, hwlasciciel]
    rfl
  · obtain ⟨i, -, q', k', hw', hmem⟩ := h.owned a ha
    exact ⟨i, q', k', [], hw', hmem⟩
  · simp [h.empty q' w hlist]

/-- `main` reaches its loop unless there is no memory for the queues. -/
theorem uruchom_represents (malloc : Malloc A Q) :
    uruchom malloc = .error .brakPamieci ∨
      ∃ t₀ start koniec, uruchom malloc = .ok t₀ ∧ Represents t₀ (initial start koniec) := by
  have hnodup : (([] : List (Fin MAX_MUTEX)).reverse ++ List.finRange MAX_MUTEX).Nodup := by
    simpa using List.nodup_finRange MAX_MUTEX
  rcases utworzKolejki_created malloc poczatek_created hnodup with hout | ⟨t', c', hok, h'⟩
  · exact .inl hout
  · obtain ⟨start, koniec, hstart⟩ := h'.represents (by simp)
    exact .inr ⟨t', start, koniec, hok, hstart⟩

theorem represents_of_uruchom {malloc : Malloc A Q} {t₀ : Serwer A Q}
    (hstart : uruchom malloc = .ok t₀) : ∃ start koniec, Represents t₀ (initial start koniec) := by
  rcases uruchom_represents malloc with hout | ⟨t₁, start, koniec, hok, h₁⟩
  · rw [hstart] at hout
    exact nomatch hout
  · rw [hstart, Except.ok.injEq] at hok
    exact ⟨start, koniec, hok ▸ h₁⟩

end Start

/-! ## §2 Runs -/

section Runs

variable [DecidableEq A] [DecidableEq Q] [Minix]

/-- One round of the loop of `main`, with the message and what was sent. -/
def Runda (malloc : Malloc A Q) (t : Serwer A Q) (l : Message × List Reply) (t' : Serwer A Q) :
    Prop :=
  obsluz malloc t l.1 = .ok (t', l.2)

/-- The same on lists. -/
def RundaNaListach (s : ServerState) (l : Message × List Reply) (s' : ServerState) : Prop :=
  Server.obsluz s l.1 = .ok (s', l.2)

variable {malloc : Malloc A Q} {t₀ t : Serwer A Q} {s₀ : ServerState}
  {ls : List (Message × List Reply)}

/-- **Run lemma**: rounds with memory are rounds on lists, with the same messages and the same
replies. -/
theorem run_represents (hrun : Run (Runda malloc) t₀ ls t) (h : Represents t₀ s₀) :
    ∃ s, Run RundaNaListach s₀ ls s ∧ Represents t s := by
  have hrun' := hrun.simulate RundaNaListach (R := Represents) (f := id) ?_ h
  · simpa only [List.map_id] using hrun'
  · intro t l t' s h hstep
    have hfollows := obsluz_follows malloc h l.1
    rw [hstep] at hfollows
    obtain ⟨⟨s', out⟩, hok, hs', hout⟩ := hfollows.of_ok
    exact ⟨s', by rw [RundaNaListach, id, hok, hout], hs'⟩

/-- **The server on the heap refines the server on lists**: whatever `malloc` returns, `main`
reaches its loop unless there is no memory for the queues; every run from there, on any
messages, is a run on lists with the same replies; and after it any message is handled as on
lists, fails at the same table, or finds no memory.  The server never reads or writes through
`NULL` otherwise, nor an element that is not allocated, frees none twice, and its loops end. -/
theorem run_on_heap_refines (malloc : Malloc A Q) :
    uruchom malloc = .error .brakPamieci ∨
      ∃ t₀ start koniec, uruchom malloc = .ok t₀ ∧
        ∀ ls t, Run (Runda malloc) t₀ ls t →
          ∃ s, Run RundaNaListach (initial start koniec) ls s ∧ Represents t s ∧
            ∀ m, Mirrors (fun x y => Represents x.1 y.1 ∧ x.2 = y.2) (obsluz malloc t m)
              (Server.obsluz s m) := by
  rcases uruchom_represents malloc with hout | ⟨t₀, start, koniec, hok, hstart⟩
  · exact .inl hout
  · refine .inr ⟨t₀, start, koniec, hok, fun ls t hrun => ?_⟩
    obtain ⟨s, hrun', h⟩ := run_represents hrun hstart
    exact ⟨s, hrun', h, fun m => obsluz_follows malloc h m⟩

end Runs

/-! ## §3 A `malloc` that counts -/

section Licznik

/-- A `malloc` that counts. -/
def Malloc.licznik : Malloc ℕ ℕ where
  element n H := if H n = none then some (n, ⟨none, 0⟩) else none
  kolejka n K := if K n = none then some n else none
  element_free n H x h := by
    split_ifs at h with hfree
    cases h
    exact hfree
  kolejka_free n K q h := by
    split_ifs at h with hfree
    cases h
    exact hfree

/-- Nothing at or behind the counter is in use. -/
def Wolne (t : Serwer ℕ ℕ) : Prop :=
  ∀ a, t.przydzielono ≤ a → t.pamiec.elementy a = none ∧ t.pamiec.kolejki a = none

theorem utworzKolejke_licznik {t : Serwer ℕ ℕ} (h : Wolne t) (i : Fin MAX_MUTEX) :
    ∃ t', utworzKolejke Malloc.licznik t i = .ok t' ∧ Wolne t' := by
  obtain ⟨hstart, hq⟩ := h t.przydzielono le_rfl
  obtain ⟨hkoniec, -⟩ := h (t.przydzielono + 1) (Nat.le_succ _)
  have hne : t.przydzielono + 1 ≠ t.przydzielono := Nat.succ_ne_self _
  obtain ⟨p', hok, hkolejki, -, -, hframe⟩ := Pamiec.utworzKolejke_rep (q := t.przydzielono)
    hstart hkoniec (Ne.symm hne) ⟨none, 0⟩ ⟨none, 0⟩
  refine ⟨{ t with pamiec := p', przydzielono := t.przydzielono + 2 }.setM i
    { t.M i with uzywany := false, kolejka := some t.przydzielono }, ?_, ?_⟩
  · simp only [utworzKolejke, Malloc.licznik, hq, hstart, if_true, Heap.alloc,
      Function.update_of_ne hne, hkoniec, hok, bind, Except.bind, Except.mapError]
  · intro a ha
    simp only [Serwer.setM] at ha ⊢
    have hold := h a (by omega)
    rw [hframe a (by omega) (by omega), hkolejki, Function.update_of_ne (by omega)]
    exact hold

theorem uruchom_licznik : ∃ t₀, uruchom Malloc.licznik = .ok t₀ ∧ Wolne t₀ := by
  have hloop : ∀ (l : List (Fin MAX_MUTEX)) (t : Serwer ℕ ℕ), Wolne t →
      ∃ t', l.foldlM (utworzKolejke Malloc.licznik) t = .ok t' ∧ Wolne t' := by
    intro l
    induction l with
    | nil => exact fun t h => ⟨t, rfl, h⟩
    | cons i l ih =>
      intro t h
      obtain ⟨t', hok, h'⟩ := utworzKolejke_licznik h i
      rw [List.foldlM_cons, hok]
      exact ih t' h'
  exact hloop _ poczatek fun a _ => ⟨rfl, rfl⟩

theorem wstaw_licznik {t : Serwer ℕ ℕ} {s : ServerState} (h : Represents t s) (hfree : Wolne t)
    (i : Fin MAX_MUTEX) (proces : ℤ) :
    ∃ t', wstaw Malloc.licznik t i proces = .ok t' ∧ Wolne t' := by
  obtain ⟨c, h⟩ := h
  obtain ⟨q, k, w, hw, -⟩ := h.points i
  obtain ⟨hnone, -⟩ := hfree t.przydzielono le_rfl
  have hlen := h.short q w hw.list
  obtain ⟨p', hok, hkolejki, -, -, hframe⟩ := Pamiec.wstaw_rep hw.struct (h.rep hw) proces hnone
    ⟨none, 0⟩ (n := t.rundy) (by simp only [Serwer.rundy]; omega)
  refine ⟨{ t with pamiec := p', przydzielono := t.przydzielono + 1 }, ?_, fun a ha => ?_⟩
  · simp only [wstaw, HeapImage.kolejkaMutexa hw, Malloc.licznik, hnone, if_true, hok, bind,
      Except.bind, Except.mapError]
  · dsimp only at ha ⊢
    have hold := hfree a (by omega)
    -- the elements of the queue were allocated before
    have hout : a ∉ k.adresy w := fun hmem => (h.rep hw).allocated hmem hold.1
    rw [hframe a hout (by omega), hkolejki]
    exact hold

variable [Minix] {t : Serwer ℕ ℕ} {s s' : ServerState} {p m : ℤ} {out : List Reply}

theorem csLock_licznik (h : Represents t s) (hfree : Wolne t) (numer : ℤ) :
    (∃ r t', csLock Malloc.licznik t numer = .ok (r, t') ∧ Wolne t') ∨
      ∃ f, csLock Malloc.licznik t numer = .error (.tablica f) := by
  unfold csLock
  cases indeksUzywanegoMutexa t numer with
  | none =>
    by_cases hroom : wolnyMutex t < MAX_MUTEX
    · exact .inl ⟨_, _, dif_pos hroom, hfree⟩
    · exact .inr ⟨_, dif_neg hroom⟩
  | some i =>
    by_cases howner : (t.M i).wlasciciel = t.aktualnyProces
    · exact .inl ⟨_, _, if_pos howner, hfree⟩
    · obtain ⟨t', hok, hfree'⟩ := wstaw_licznik h hfree i t.aktualnyProces
      refine .inl ⟨EDONTREPLY, t', ?_, hfree'⟩
      simp only [if_neg howner, hok, bind, Except.bind]

/-- A lock that the server on lists handles finds memory. -/
theorem lock_licznik (h : Represents t s) (hfree : Wolne t)
    (hok : Server.obsluz s ⟨p, CS_LOCK, m, 0⟩ = .ok (s', out)) :
    ∃ t', Runda Malloc.licznik t (⟨p, CS_LOCK, m, 0⟩, out) t' ∧ Represents t' s' ∧ Wolne t' := by
  have hfollows := obsluz_follows Malloc.licznik h ⟨p, CS_LOCK, m, 0⟩
  rw [hok] at hfollows
  have hstart : Represents { t with sent := [], aktualnyProces := p }
      { s with sent := [], aktualnyProces := p } := by
    obtain ⟨c, h⟩ := h
    exact ⟨c, (h.setSent []).setAktualny p⟩
  rcases csLock_licznik hstart hfree m with ⟨r, t₁, hlock, hfree₁⟩ | ⟨f, hlock⟩
  · obtain ⟨t', out', hrun, hfree'⟩ : ∃ t' out',
        obsluz Malloc.licznik t ⟨p, CS_LOCK, m, 0⟩ = .ok (t', out') ∧ Wolne t' := by
      by_cases hr : r = EDONTREPLY
      · refine ⟨{ t₁ with sent := [] }, t₁.sent, ?_, hfree₁⟩
        simp [obsluz, obslugaWiadomosci, wykonaj, CS_LOCK, hlock, hr, Except.map, bind, Except.bind]
      · refine ⟨{ t₁ with sent := [] }, t₁.sent ++ [⟨r, t₁.aktualnyProces⟩], ?_, hfree₁⟩
        simp [obsluz, obslugaWiadomosci, wykonaj, CS_LOCK, hlock, hr, Except.map, bind, Except.bind,
          wyslijWiadomosc]
    rw [hrun] at hfollows
    cases hfollows with
    | ok hR =>
      obtain ⟨hrep, rfl⟩ := hR
      exact ⟨t', hrun, hrep, hfree'⟩
  · have hrun : obsluz Malloc.licznik t ⟨p, CS_LOCK, m, 0⟩ = .error (.tablica f) := by
      simp [obsluz, obslugaWiadomosci, wykonaj, CS_LOCK, hlock, Except.map, bind, Except.bind]
    rw [hrun] at hfollows
    cases hfollows with
    | gaveUp _ hout => simp [OutOfMemory] at hout

/-- An unlock asks for no memory. -/
theorem csUnlock_ne_brakPamieci (t : Serwer ℕ ℕ) (numer : ℤ) :
    csUnlock t numer ≠ .error .brakPamieci := by
  unfold csUnlock
  cases indeksUzywanegoMutexa t numer with
  | none => simp
  | some i =>
    by_cases howner : (t.M i).wlasciciel ≠ t.aktualnyProces
    · simp [if_pos howner]
    · simp only [if_neg howner, oddajMutex, czyPusto, pierwszyKolejka, bind, Except.bind]
      cases hq : t.kolejkaMutexa i with
      | error e =>
        have he : e = .sterta .null := by
          unfold Serwer.kolejkaMutexa at hq
          split at hq
          · exact (Except.error.inj hq).symm
          · cases hq
        simp [he]
      | ok q =>
        cases hpusto : t.pamiec.czyPusto q with
        | error e => simp [hpusto, Except.mapError]
        | ok pusto =>
          cases hpierwszy : t.pamiec.pierwszyKolejka q <;> cases pusto <;>
            simp [hpusto, hpierwszy, Except.mapError]

theorem unlock_licznik (h : Represents t s)
    (hok : Server.obsluz s ⟨p, CS_UNLOCK, m, 0⟩ = .ok (s', out)) :
    ∃ t', Runda Malloc.licznik t (⟨p, CS_UNLOCK, m, 0⟩, out) t' ∧ Represents t' s' := by
  have hfollows := obsluz_follows Malloc.licznik h ⟨p, CS_UNLOCK, m, 0⟩
  rw [hok] at hfollows
  generalize hrun : obsluz Malloc.licznik t ⟨p, CS_UNLOCK, m, 0⟩ = x at hfollows
  cases hfollows with
  | @ok x y hR =>
    obtain ⟨t', out'⟩ := x
    obtain ⟨hrep, rfl⟩ := hR
    exact ⟨t', hrun, hrep⟩
  | gaveUp _ hout =>
    have hne := csUnlock_ne_brakPamieci { t with sent := [], aktualnyProces := p } m
    cases hunlock : csUnlock { t with sent := [], aktualnyProces := p } m <;>
      simp_all [obsluz, obslugaWiadomosci, wykonaj, CS_LOCK, CS_UNLOCK, OutOfMemory, Except.map,
        bind, Except.bind]

omit [Minix] in
/-- The elements of all queues, where one mutex is reserved. -/
theorem sum_elementy {s : ServerState} (hs : TableInv s) {m o : ℤ} {q : List ℤ}
    (hget : (Server.abs s).mutexes = PartialMap.empty.set m (some (o, q))) :
    ∑ i, (s.M i).kolejka.elementy.length = q.length := by
  have hm : (Server.abs s).mutexes.get m = some (o, q) := by simp [hget]
  obtain ⟨i, hused, hnumer, hval⟩ := (SlotView.toMap_get_eq_some_iff hs.mutexUnique).mp hm
  have hq : (s.M i).kolejka.elementy = q := congrArg Prod.snd hval
  rw [Finset.sum_eq_single i, hq]
  · intro j _ hj
    by_cases hj' : (s.M j).uzywany = true
    · -- a second slot in use would have the same number
      exfalso
      have hgetj : (Server.abs s).mutexes.get (s.M j).numer ≠ none := by
        rw [show (Server.abs s).mutexes.get (s.M j).numer = _ from
          SlotView.toMap_get_used hs.mutexUnique hj']
        simp
      have hnumerj : (s.M j).numer = m := by
        by_contra hne
        simp [hget, hne] at hgetj
      exact hj (hs.mutexUnique j i hj' hused (hnumerj.trans hnumer.symm))
    · rw [hs.free_empty j (by simpa using hj'), List.length_nil]
  · simp

/-- A request that fits is handled on lists as by the lock manager. -/
theorem obsluz_of_fits (hs : TableInv s) {x : Message} {r : Request} (hr : x.request = r)
    (hno : ∀ p, r ≠ .interrupt p ∧ r ≠ .exit p) (hfits : Fits ((Server.abs s).next r)) :
    ∃ out s', Server.obsluz s x = .ok (s', out) ∧ TableInv s' ∧
      Server.abs s' = (Server.abs s).next r ∧ (Server.abs s).Replies r out := by
  have hblind := (not_notification hr hno s).blind
  subst hr
  obtain ⟨⟨s', out⟩, hok⟩ := (obsluz_ok_iff hs).mpr hfits
  have hh := Handled.of_ok hs hblind hok
  refine ⟨out, s', hok, hh.tableInv, hh.abs_eq, hh.replies_of fun hint => ?_⟩
  obtain ⟨p, hp⟩ := hint
  exact absurd hp (hno p).1

/-- Processes `o`, `p` and `q` ask for `m`, and `o` unlocks it: `p` has it then, and `q` waits. -/
theorem queue_licznik {o p q : ℤ} (hop : o ≠ p) (hoq : o ≠ q) (m : ℤ) :
    ∃ t₀ t, uruchom Malloc.licznik = .ok t₀ ∧
      Run (Runda Malloc.licznik) t₀ [(⟨o, CS_LOCK, m, 0⟩, [⟨OK, o⟩]), (⟨p, CS_LOCK, m, 0⟩, []),
        (⟨q, CS_LOCK, m, 0⟩, []), (⟨o, CS_UNLOCK, m, 0⟩, [⟨0, p⟩, ⟨OK, o⟩])] t ∧
      ∃ s, Represents t s ∧ ∑ i, (s.M i).kolejka.elementy.length = 1 := by
  obtain ⟨t₀, hstart, hfree₀⟩ := uruchom_licznik
  obtain ⟨start, koniec, h₀⟩ := represents_of_uruchom hstart
  have hs₀ := initial_tableInv start koniec
  have habs₀ := abs_initial start koniec
  generalize initial start koniec = s₀ at h₀ hs₀ habs₀
  -- the first takes the mutex
  have hnone : (Server.abs s₀).mutexes.get m = none := by rw [habs₀]; rfl
  obtain ⟨o₁, s₁, hok₁, hs₁, habs₁, hrep₁⟩ := obsluz_of_fits hs₀ (request_lock o m 0) (by simp)
    (hs₀.fits.lock_free hnone (by rw [habs₀]; simp [Manager.empty, MAX_MUTEX]))
  rw [Manager.next, Manager.lock_of_none hnone, habs₀] at habs₁
  rw [Manager.Replies, Manager.lock_of_none hnone] at hrep₁
  obtain ⟨t₁, hrun₁, h₁, hfree₁⟩ := lock_licznik h₀ hfree₀ hok₁
  -- the other two wait
  have hget₁ : (Server.abs s₁).mutexes.get m = some (o, []) := by simp [habs₁]
  obtain ⟨o₂, s₂, hok₂, hs₂, habs₂, hrep₂⟩ := obsluz_of_fits hs₁ (request_lock p m 0) (by simp)
    (hs₁.fits.lock_taken hget₁ hop)
  obtain ⟨t₂, hrun₂, h₂, hfree₂⟩ := lock_licznik h₁ hfree₁ hok₂
  simp only [Manager.Replies, Manager.next, Manager.lock, hget₁, if_neg hop] at habs₂ hrep₂
  have hget₂ : (Server.abs s₂).mutexes.get m = some (o, [p]) := by simp [habs₂]
  obtain ⟨o₃, s₃, hok₃, hs₃, habs₃, hrep₃⟩ := obsluz_of_fits hs₂ (request_lock q m 0) (by simp)
    (hs₂.fits.lock_taken hget₂ hoq)
  obtain ⟨t₃, hrun₃, h₃, -⟩ := lock_licznik h₂ hfree₂ hok₃
  simp only [Manager.Replies, Manager.next, Manager.lock, hget₂, if_neg hoq] at habs₃ hrep₃
  -- the unlock frees the element of the second
  have hget₃ : (Server.abs s₃).mutexes.get m = some (o, [p, q]) := by simp [habs₃]
  obtain ⟨o₄, s₄, hok₄, hs₄, habs₄, hrep₄⟩ := obsluz_of_fits hs₃ (request_unlock o m 0) (by simp)
    (hs₃.fits.unlock o m)
  obtain ⟨t₄, hrun₄, h₄⟩ := unlock_licznik h₃ hok₄
  simp only [Manager.next, Manager.unlock, hget₃, ne_eq, not_true_eq_false, ↓reduceIte,
    Manager.Replies, List.cons_append, List.nil_append] at habs₄ hrep₄
  subst hrep₁ hrep₂ hrep₃ hrep₄
  refine ⟨t₀, t₄, hstart, .cons hrun₁ (.cons hrun₂ (.cons hrun₃ (.cons hrun₄ (.nil _)))), s₄, h₄,
    ?_⟩
  have hmutexes : (Server.abs s₄).mutexes = PartialMap.empty.set m (some (p, [q])) := by
    rw [habs₄, habs₃, habs₂, habs₁]
    simp [PartialMap.set_set, Manager.empty]
  rw [sum_elementy hs₄ hmutexes, List.length_singleton]

end Licznik

/-! ## §4 The memory in use -/

section Memory

variable [DecidableEq A] {t : Serwer A Q} {c : Q → Option (List (A × ℤ))} {s : ServerState}

/-- Two sentinels for every slot, and an element for every entry of a queue. -/
theorem HeapImage.ncard_allocated (h : HeapImage t c s) :
    {a | t.pamiec.elementy a ≠ none}.ncard =
      2 * MAX_MUTEX + ∑ i, (s.M i).kolejka.elementy.length := by
  choose q k w hw hs using h.mutex
  -- what is allocated are the elements of the queues, which share none
  have hset : {a | t.pamiec.elementy a ≠ none} =
      (Finset.univ.biUnion fun i => ((k i).adresy (w i)).toFinset : Finset A) := by
    ext a
    simp only [Set.mem_ofPred_eq, Finset.coe_biUnion, Finset.mem_coe, Finset.mem_univ, Set.iUnion_true,
      Set.mem_iUnion, List.mem_toFinset]
    constructor
    · intro ha
      obtain ⟨i, q', k', w', hw', hmem⟩ := h.owned a ha
      obtain ⟨-, rfl, rfl⟩ := HeapImage.unique (hw i) hw'
      exact ⟨i, hmem⟩
    · intro ha
      obtain ⟨i, hmem⟩ := ha
      exact (h.rep (hw i)).allocated hmem
  have hdisjoint : ((Finset.univ : Finset (Fin MAX_MUTEX)) : Set (Fin MAX_MUTEX)).PairwiseDisjoint
      fun i => ((k i).adresy (w i)).toFinset := by
    intro i _ j _ hij
    have hq : q i ≠ q j := by
      intro heq
      exact hij (h.apart i j (q j) (heq ▸ (hw i).pointer) (hw j).pointer)
    rw [Function.onFun, Finset.disjoint_left]
    intro a ha
    rw [List.mem_toFinset] at ha ⊢
    exact h.queues.disjoint hq (hw i).struct (hw j).struct (hw i).list (hw j).list a ha
  have hcard : ∀ i, ((k i).adresy (w i)).toFinset.card = 2 + (s.M i).kolejka.elementy.length := by
    intro i
    rw [List.toFinset_card_of_nodup (h.rep (hw i)).nodup, hs i]
    simp [StrukturaKolejki.adresy, kolejkaAt]
    omega
  rw [hset, Set.ncard_coe_finset, Finset.card_biUnion hdisjoint, Finset.sum_congr rfl fun i _ => hcard i,
    Finset.sum_add_distrib]
  simp [mul_comm]

variable [DecidableEq Q] [Minix]

/-- **No element leaks**: after any run from the start, on any messages, the memory in use is
two sentinels for every slot and one element for every entry in a queue, however long the run
was. -/
theorem allocated_elements {malloc : Malloc A Q} {t₀ t : Serwer A Q}
    {ls : List (Message × List Reply)} (hstart : uruchom malloc = .ok t₀)
    (hrun : Run (Runda malloc) t₀ ls t) :
    ∃ start koniec s, Run RundaNaListach (initial start koniec) ls s ∧ Represents t s ∧
      {a | t.pamiec.elementy a ≠ none}.ncard =
        2 * MAX_MUTEX + ∑ i, (s.M i).kolejka.elementy.length := by
  obtain ⟨start, koniec, h₀⟩ := represents_of_uruchom hstart
  obtain ⟨s, hrun', h⟩ := run_represents hrun h₀
  obtain ⟨c, hc⟩ := id h
  exact ⟨start, koniec, s, hrun', h, hc.ncard_allocated⟩

end Memory

/-- Three processes ask for mutex 7, and the first unlocks it: of the two elements that were
queued one is left. -/
theorem allocated_elements_first_lock :
    letI := Minix.v321
    ∃ t₀ t ls, uruchom Malloc.licznik = .ok t₀ ∧ Run (Runda Malloc.licznik) t₀ ls t ∧
      ls = [(⟨100, CS_LOCK, 7, 0⟩, [⟨OK, 100⟩]), (⟨101, CS_LOCK, 7, 0⟩, []),
        (⟨102, CS_LOCK, 7, 0⟩, []), (⟨100, CS_UNLOCK, 7, 0⟩, [⟨0, 101⟩, ⟨OK, 100⟩])] ∧
      {a | t.pamiec.elementy a ≠ none}.ncard = 2 * MAX_MUTEX + 1 ∧
      ∃ start koniec s, Run RundaNaListach (initial start koniec) ls s ∧ Represents t s ∧
        {a | t.pamiec.elementy a ≠ none}.ncard =
          2 * MAX_MUTEX + ∑ i, (s.M i).kolejka.elementy.length := by
  let _ := Minix.v321
  obtain ⟨t₀, t, hstart, hrun, s, ⟨c, hs⟩, hsum⟩ :=
    queue_licznik (o := 100) (p := 101) (q := 102) (by decide) (by decide) 7
  refine ⟨t₀, t, _, hstart, hrun, rfl, ?_, allocated_elements hstart hrun⟩
  rw [hs.ncard_allocated, hsum]

end MinixCv.Server.Sterta

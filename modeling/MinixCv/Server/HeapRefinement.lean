import MinixCv.Lib.Follows
import MinixCv.Server.HeapHandlers
import MinixCv.Server.QueueHistory

/-!
# The Server With Its Memory Refines The Server On Lists

`Handlers` computes with the values of the queues, `HeapHandlers` with their elements.

- `HeapImage`: the memory holds the queues of a state, and nothing else
- `…_follows`: each function does on the heap what it does on lists
- `obsluz_follows`: so does one message
-/

namespace MinixCv.Server

open MinixCv.Lib

/-! ## §1 What is freed -/

namespace Pamiec

variable {A Q : Type} [DecidableEq A] {p p' : Pamiec A Q} {q : Q} {k : StrukturaKolejki A}
  {w : List (A × ℤ)}

/-- The element that `pierwszyKolejka` takes out is freed. -/
theorem pierwszyKolejka_frees {a : A} {v r : ℤ} (hk : p.kolejki q = some k)
    (h : Rep p.elementy k ((a, v) :: w)) (hok : p.pierwszyKolejka q = .ok (r, p')) :
    p'.elementy a = none := by
  obtain ⟨v₀, hstart⟩ := h.start_next
  obtain ⟨next, ha⟩ := h.values (a, v) List.mem_cons_self
  simp only [List.map_cons, List.cons_append, List.head?_cons] at hstart
  simp only [pierwszyKolejka, kolejka_some hk, Heap.read_some hstart, Heap.read_some ha,
    Heap.write_some hstart, bind, Except.bind] at hok
  -- the last access is the one that frees the element
  cases hfree : Heap.free (Function.update p.elementy k.start (some ⟨next, v₀⟩)) (some a) with
  | error e =>
    rw [hfree] at hok
    simp at hok
  | ok H =>
    rw [hfree] at hok
    cases hok
    exact Heap.free_self hfree

omit [DecidableEq A] in
/-- Something links to every element between the sentinels. -/
theorem exists_before {w₁ w₂ : List (A × ℤ)} {x : A × ℤ}
    (h : Rep p.elementy k (w₁ ++ x :: w₂)) :
    ∃ a ∈ k.start :: (w₁ ++ x :: w₂).map Prod.fst, p.elementy.Link a x.1 := by
  have hchain := h.chain
  have hsplit : k.adresy (w₁ ++ x :: w₂) =
      (k.start :: w₁.map Prod.fst) ++ (x.1 :: w₂.map Prod.fst ++ [k.koniec]) := by
    simp [StrukturaKolejki.adresy]
  rw [hsplit, List.isChain_append] at hchain
  have hlast := List.getLast?_eq_some_getLast (List.cons_ne_nil k.start (w₁.map Prod.fst))
  refine ⟨_, ?_, hchain.2.2 _ hlast x.1 rfl⟩
  have hmem := List.getLast_mem (List.cons_ne_nil k.start (w₁.map Prod.fst))
  rw [List.map_append]
  exact List.mem_append_left ((x :: w₂).map Prod.fst) hmem

/-- The element that `usunElement` takes out is freed. -/
theorem usunElement_frees {w₁ w₂ : List (A × ℤ)} {item : A} {v : ℤ} {n : ℕ}
    (hk : p.kolejki q = some k) (h : Rep p.elementy k (w₁ ++ (item, v) :: w₂))
    (hn : (w₁ ++ (item, v) :: w₂).length + 1 < n) (hok : p.usunElement n q item = .ok p') :
    p'.elementy item = none := by
  obtain ⟨next, hitem⟩ := h.values (item, v) (by simp)
  obtain ⟨a, ha, v₀, hlink⟩ := exists_before h
  simp only [usunElement, forEach_rep hk h _ hn, bind, Except.bind] at hok
  -- the scan for the element before it cannot fail
  cases hfind : (k.start :: (w₁ ++ (item, v) :: w₂).map Prod.fst).find? fun b =>
      (p.elementy b).any fun e => e.next == some item with
  | none =>
    have hnone := List.find?_eq_none.mp hfind a ha
    simp [hlink] at hnone
  | some b =>
    obtain ⟨e, he⟩ : ∃ e, p.elementy b = some e := by
      have hb := List.find?_some hfind
      cases hcell : p.elementy b with
      | none => simp [hcell] at hb
      | some e => exact ⟨e, rfl⟩
    simp only [hfind, Heap.read_some he, Heap.read_some hitem, Heap.write_some he] at hok
    cases hfree : Heap.free (Function.update p.elementy b (some { e with next := next }))
        (some item) with
    | error f =>
      rw [hfree] at hok
      simp at hok
    | ok H =>
      rw [hfree] at hok
      cases hok
      exact Heap.free_self hfree

end Pamiec

/-- The scan stops inside the walk. -/
theorem Kolejka.szukaj_lt {q : Kolejka} {p : ℤ} {n : ℕ} (h : q.szukaj p = some n) :
    n < q.forEach.length := by
  unfold Kolejka.szukaj at h
  split_ifs at h
  exact (List.findIdx?_eq_some_iff_getElem.mp h).1

namespace Sterta

variable {A Q : Type}

/-! ## §2 The memory holds the queues of a state -/

/-- The queue at `q` with the struct `k` and the elements `w` is that of slot `i`. -/
structure PointsTo (M : Fin MAX_MUTEX → Mutex Q) (p : Pamiec A Q)
    (c : Q → Option (List (A × ℤ))) (i : Fin MAX_MUTEX) (q : Q) (k : StrukturaKolejki A)
    (w : List (A × ℤ)) : Prop where
  pointer : (M i).kolejka = some q
  struct : p.kolejki q = some k
  list : c q = some w

/-- The tables of `t` and `s` agree; the memory of `t` holds the queues of `s`, each with the
    elements `c`, and no other elements. -/
structure HeapImage (t : Serwer A Q) (c : Q → Option (List (A × ℤ))) (s : ServerState) : Prop where
  queues : QueueInv t.pamiec c
  mutex : ∀ i, ∃ q k w, PointsTo t.M t.pamiec c i q k w ∧ s.M i =
    ⟨(t.M i).uzywany, (t.M i).numer, (t.M i).wlasciciel, kolejkaAt t.pamiec.elementy k w⟩
  apart : ∀ i j q, (t.M i).kolejka = some q → (t.M j).kolejka = some q → i = j
  owned : ∀ a, t.pamiec.elementy a ≠ none → ∃ i q k w, PointsTo t.M t.pamiec c i q k w ∧ a ∈ k.adresy w
  short : ∀ q w, c q = some w → w.length ≤ t.przydzielono
  cv : s.CV = t.CV
  aktualnyProces : s.aktualnyProces = t.aktualnyProces
  sent : s.sent = t.sent

/-- `t` stands for `s`. -/
def Represents (t : Serwer A Q) (s : ServerState) : Prop := ∃ c, HeapImage t c s

/-- A run out of memory excuses everything. -/
def OutOfMemory (e : Blad) : Prop := e = .brakPamieci

/-- The two levels leave a table at the same place. -/
def SameTable (e : Blad) (f : TableFault) : Prop := e = .tablica f

/-- A function on the heap does what one on lists does. -/
abbrev Mirrors {α β : Type} (R : α → β → Prop) (x : Except Blad α) (y : Except TableFault β) :
    Prop := Follows OutOfMemory SameTable R x y

namespace HeapImage

variable {t : Serwer A Q} {c : Q → Option (List (A × ℤ))} {s : ServerState} {i : Fin MAX_MUTEX}
  {q : Q} {k : StrukturaKolejki A} {w w' : List (A × ℤ)}

/-- A slot points to one queue. -/
theorem unique {q' : Q} {k' : StrukturaKolejki A} (hw : PointsTo t.M t.pamiec c i q k w)
    (hw' : PointsTo t.M t.pamiec c i q' k' w') : q' = q ∧ k' = k ∧ w' = w := by
  have hq : q' = q := Option.some.inj (hw'.pointer.symm.trans hw.pointer)
  subst hq
  exact ⟨rfl, Option.some.inj (hw'.struct.symm.trans hw.struct),
    Option.some.inj (hw'.list.symm.trans hw.list)⟩

theorem rep (h : HeapImage t c s) (hw : PointsTo t.M t.pamiec c i q k w) : Rep t.pamiec.elementy k w :=
  h.queues.rep_of hw.struct hw.list

/-- Slot `i` of the state that `t` stands for. -/
theorem slot (h : HeapImage t c s) (i : Fin MAX_MUTEX) :
    (s.M i).uzywany = (t.M i).uzywany ∧ (s.M i).numer = (t.M i).numer ∧
      (s.M i).wlasciciel = (t.M i).wlasciciel := by
  obtain ⟨q, k, w, -, hs⟩ := h.mutex i
  rw [hs]
  exact ⟨rfl, rfl, rfl⟩

/-- What slot `i` points to, and the values there. -/
theorem points (h : HeapImage t c s) (i : Fin MAX_MUTEX) :
    ∃ q k w, PointsTo t.M t.pamiec c i q k w ∧ (s.M i).kolejka = kolejkaAt t.pamiec.elementy k w := by
  obtain ⟨q, k, w, hw, hs⟩ := h.mutex i
  exact ⟨q, k, w, hw, by rw [hs]⟩

theorem kolejka_eq (h : HeapImage t c s) (hw : PointsTo t.M t.pamiec c i q k w) :
    (s.M i).kolejka = kolejkaAt t.pamiec.elementy k w := by
  obtain ⟨q', k', w', hw', hs⟩ := h.points i
  obtain ⟨rfl, rfl, rfl⟩ := unique hw hw'
  exact hs

/-- A slot may change at will as long as both tables change alike. -/
theorem setM (h : HeapImage t c s) (i : Fin MAX_MUTEX) {x : Mutex Q} {y : Server.Mutex}
    (hx : x.kolejka = (t.M i).kolejka)
    (hy : y = ⟨x.uzywany, x.numer, x.wlasciciel, (s.M i).kolejka⟩) :
    HeapImage (t.setM i x) c (s.setM i y) := by
  subst hy
  have hpointer : ∀ j, ((t.setM i x).M j).kolejka = (t.M j).kolejka := by
    intro j
    by_cases hj : j = i
    · subst hj
      simp [Serwer.setM, hx]
    · simp [Serwer.setM, Function.update_of_ne hj]
  refine ⟨h.queues, fun j => ?_, fun j j' q hj hj' => ?_, fun a ha => ?_, h.short, h.cv,
    h.aktualnyProces, h.sent⟩
  · obtain ⟨q, k, w, hw, hs⟩ := h.mutex j
    refine ⟨q, k, w, ⟨(hpointer j).trans hw.pointer, hw.struct, hw.list⟩, ?_⟩
    by_cases hj : j = i
    · subst hj
      simp [ServerState.setM, Serwer.setM, hs]
    · simp only [ServerState.setM, Serwer.setM, Function.update_of_ne hj]
      exact hs
  · rw [hpointer] at hj hj'
    exact h.apart j j' q hj hj'
  · obtain ⟨j, q, k, w, hw, hmem⟩ := h.owned a ha
    exact ⟨j, q, k, w, ⟨(hpointer j).trans hw.pointer, hw.struct, hw.list⟩, hmem⟩

theorem setCV (h : HeapImage t c s) (j : Fin MAX_CV) (x : ConditionVariable) :
    HeapImage (t.setCV j x) c (s.setCV j x) :=
  ⟨h.queues, h.mutex, h.apart, h.owned, h.short, by simp [ServerState.setCV, Serwer.setCV, h.cv],
    h.aktualnyProces, h.sent⟩

theorem setAktualny (h : HeapImage t c s) (p : ℤ) :
    HeapImage { t with aktualnyProces := p } c { s with aktualnyProces := p } :=
  ⟨h.queues, h.mutex, h.apart, h.owned, h.short, h.cv, rfl, h.sent⟩

theorem setSent (h : HeapImage t c s) (out : List Reply) :
    HeapImage { t with sent := out } c { s with sent := out } :=
  ⟨h.queues, h.mutex, h.apart, h.owned, h.short, h.cv, h.aktualnyProces, rfl⟩

theorem wyslij (h : HeapImage t c s) (typ dokad : ℤ) :
    HeapImage (wyslijWiadomosc typ dokad t) c (Server.wyslijWiadomosc typ dokad s) := by
  have hsent := h.setSent (t.sent ++ [⟨typ, dokad⟩])
  rw [wyslijWiadomosc, Server.wyslijWiadomosc, h.sent]
  exact hsent

section Calls

variable [DecidableEq A] [DecidableEq Q]

/-- **One call on one queue**: it does to the values of that queue what the function of the
same name does, the other queues keep their elements, and what is allocated afterwards is in
the new list or was outside the old one. -/
theorem queueStep (h : HeapImage t c s) {x : QueueCall A Q} (hw : PointsTo t.M t.pamiec c i x.kolejka k w)
    {r : Option ℤ} {p' : Pamiec A Q} {n : ℕ} (hstep : QueueStep t.pamiec (x, r) p')
    (hlist : x.onLists c = Function.update c x.kolejka (some w'))
    (howned : ∀ a, p'.elementy a ≠ none → a ∉ k.adresy w' →
      t.pamiec.elementy a ≠ none ∧ a ∉ k.adresy w)
    (hn : t.przydzielono ≤ n) (hshort : w'.length ≤ n) :
    ∃ kolejka, (r, kolejka) = x.onKolejka (k.start :: w.map Prod.fst) (s.M i).kolejka ∧
      Represents { t with pamiec := p', przydzielono := n }
        (s.setM i { s.M i with kolejka := kolejka }) := by
  have heffect := (hstep.effect h.queues).2
  obtain ⟨w'', hw'', -, hvalues⟩ := queueStep_refines_kolejka h.queues hw.struct hw.list hstep
  have heq : w' = w'' := by
    rw [hlist] at hw''
    exact Option.some.inj ((Function.update_self x.kolejka _ c).symm.trans hw'')
  subst heq
  refine ⟨kolejkaAt p'.elementy k w', by rw [hvalues, h.kolejka_eq hw],
    Function.update c x.kolejka (some w'), ?_⟩
  generalize hq : x.kolejka = q at *
  -- slot `j ≠ i` points to another queue, which the call has not touched
  have hother : ∀ j q' k' v, j ≠ i → PointsTo t.M t.pamiec c j q' k' v →
      q' ≠ q ∧ p'.kolejki q' = some k' ∧ Function.update c q (some w') q' = some v := by
    intro j q' k' v hj hv
    have hq' : q' ≠ q := fun heq => hj (h.apart j i q (heq ▸ hv.pointer) hw.pointer)
    exact ⟨hq', heffect.kept q' k' hv.struct, by rw [Function.update_of_ne hq', hv.list]⟩
  have hself : PointsTo t.M p' (Function.update c q (some w')) i q k w' :=
    ⟨hw.pointer, heffect.kept q k hw.struct, Function.update_self q (some w') c⟩
  refine ⟨hlist ▸ heffect.inv, fun j => ?_, h.apart, fun a ha => ?_, fun q' v hv => ?_, h.cv,
    h.aktualnyProces, h.sent⟩
  · by_cases hj : j = i
    · subst hj
      refine ⟨q, k, w', hself, ?_⟩
      simpa [ServerState.setM] using h.slot j
    · obtain ⟨q', k', v, hv, hs⟩ := h.mutex j
      obtain ⟨hq', hk', hv'⟩ := hother j q' k' v hj hv
      have hsame := heffect.others q' k' v (hq ▸ hq') hv.struct hv.list
      have hvalues : kolejkaAt p'.elementy k' v = kolejkaAt t.pamiec.elementy k' v := by
        simp [kolejkaAt, valueAt, hsame k'.start (by simp [StrukturaKolejki.adresy]),
          hsame k'.koniec (by simp [StrukturaKolejki.adresy])]
      refine ⟨q', k', v, ⟨hv.pointer, hk', hv'⟩, ?_⟩
      simp only [ServerState.setM, Function.update_of_ne hj]
      rw [hs, hvalues]
  · by_cases hmem : a ∈ k.adresy w'
    · exact ⟨i, q, k, w', hself, hmem⟩
    · -- a cell outside the new list belongs to another queue, as before
      obtain ⟨hall, hout⟩ := howned a ha hmem
      obtain ⟨j, q', k', v, hv, hv'⟩ := h.owned a hall
      have hj : j ≠ i := by
        intro heq
        subst heq
        obtain ⟨rfl, rfl, rfl⟩ := unique hw hv
        exact hout hv'
      obtain ⟨-, hk', hlist'⟩ := hother j q' k' v hj hv
      exact ⟨j, q', k', v, ⟨hv.pointer, hk', hlist'⟩, hv'⟩
  · by_cases hq' : q' = q
    · subst hq'
      rw [Function.update_self, Option.some.injEq] at hv
      rw [← hv]
      exact hshort
    · rw [Function.update_of_ne hq'] at hv
      exact (h.short q' v hv).trans hn

/-! ## §3 The functions of `queue.h` -/

omit [DecidableEq A] [DecidableEq Q] in
theorem kolejkaMutexa (hw : PointsTo t.M t.pamiec c i q k w) : t.kolejkaMutexa i = .ok q := by
  simp [Serwer.kolejkaMutexa, hw.pointer]

omit [DecidableEq Q] in
theorem czyPusto_eq (h : HeapImage t c s) (i : Fin MAX_MUTEX) :
    czyPusto t i = .ok (s.M i).kolejka.czyPusto := by
  obtain ⟨q, k, w, hw, hs⟩ := h.points i
  simp only [Sterta.czyPusto, kolejkaMutexa hw, Pamiec.czyPusto_rep hw.struct (h.rep hw), hs,
    bind, Except.bind, Except.mapError]
  simp [Kolejka.czyPusto, kolejkaAt]

/-- A new element at the tail. -/
theorem wstaw_follows (h : HeapImage t c s) (malloc : Malloc A Q) (i : Fin MAX_MUTEX) (proces : ℤ) :
    Mirrors Represents (wstaw malloc t i proces)
      (.ok (s.setM i { s.M i with kolejka := (s.M i).kolejka.wstaw proces })) := by
  obtain ⟨q, k, w, hw, hs⟩ := h.points i
  simp only [Sterta.wstaw, kolejkaMutexa hw, bind, Except.bind]
  cases hmalloc : malloc.element t.przydzielono t.pamiec.elementy with
  | none => exact .gaveUp _ rfl
  | some nowy =>
    obtain ⟨nowy, smieci⟩ := nowy
    have hfree := malloc.element_free _ _ _ hmalloc
    have hlen := h.short q w hw.list
    obtain ⟨p', hok, -, -, -, hframe⟩ := Pamiec.wstaw_rep hw.struct (h.rep hw) proces hfree smieci
      (n := t.rundy) (by simp only [Serwer.rundy]; omega)
    have hstep : QueueStep t.pamiec (.wstaw q proces nowy smieci, none) p' :=
      ⟨⟨by simp [hw.struct], hfree⟩, t.rundy, by rw [QueueCall.wykonaj, hok]; rfl⟩
    have hlist : (QueueCall.wstaw q proces nowy smieci).onLists c =
        Function.update c q (some (w ++ [(nowy, proces)])) := by
      simp [QueueCall.onLists, hw.list]
    -- the only new cell is the new element
    have howned : ∀ a, p'.elementy a ≠ none → a ∉ k.adresy (w ++ [(nowy, proces)]) →
        t.pamiec.elementy a ≠ none ∧ a ∉ k.adresy w := by
      intro a ha hout
      have hne : a ≠ nowy := by
        intro heq
        exact hout (by simp [StrukturaKolejki.adresy, heq])
      have hold : a ∉ k.adresy w := by
        intro hmem
        apply hout
        simp only [StrukturaKolejki.adresy, List.map_append, List.cons_append, List.append_assoc,
          List.mem_cons, List.mem_append] at hmem ⊢
        tauto
      rw [hframe a hold hne] at ha
      exact ⟨ha, hold⟩
    obtain ⟨kolejka, hvalues, hnext⟩ := h.queueStep hw hstep hlist howned (Nat.le_succ _)
      (by simpa using hlen)
    cases hvalues
    simp only [hok, Except.mapError]
    exact .ok hnext

/-- The element behind the head sentinel is taken out. -/
theorem pierwszyKolejka_follows (h : HeapImage t c s) {i : Fin MAX_MUTEX}
    (hempty : (s.M i).kolejka.czyPusto = false) :
    ∃ t', pierwszyKolejka t i = .ok ((s.M i).kolejka.pierwszyKolejka.1, t') ∧
      Represents t' (s.setM i { s.M i with kolejka := (s.M i).kolejka.pierwszyKolejka.2 }) := by
  obtain ⟨q, k, w, hw, hs⟩ := h.points i
  have hrep := h.rep hw
  have hallowed : (QueueCall.pierwszyKolejka (A := A) q).Allowed t.pamiec := by
    change t.pamiec.czyPusto q = .ok false
    rw [Pamiec.czyPusto_rep hw.struct hrep, ← hempty, hs]
    simp [Kolejka.czyPusto, kolejkaAt]
  cases w with
  | nil => simp [hs, Kolejka.czyPusto, kolejkaAt] at hempty
  | cons y w =>
    obtain ⟨a, v⟩ := y
    obtain ⟨p', hok, -, -, -, hframe⟩ := Pamiec.pierwszyKolejka_rep hw.struct hrep
    have hstep : QueueStep t.pamiec (.pierwszyKolejka q, some v) p' :=
      ⟨hallowed, 0, by rw [QueueCall.wykonaj, hok]; rfl⟩
    have hlist : (QueueCall.pierwszyKolejka (A := A) q).onLists c =
        Function.update c q (some w) := by
      simp [QueueCall.onLists, hw.list]
    -- the element is freed, so it is not allocated outside the list
    have howned : ∀ b, p'.elementy b ≠ none → b ∉ k.adresy w →
        t.pamiec.elementy b ≠ none ∧ b ∉ k.adresy ((a, v) :: w) := by
      intro b hb hout
      have hba : b ≠ a := by
        intro heq
        subst heq
        exact hb (Pamiec.pierwszyKolejka_frees hw.struct hrep hok)
      have hold : b ∉ k.adresy ((a, v) :: w) := by
        intro hmem
        apply hout
        simp only [StrukturaKolejki.adresy, List.map_cons, List.cons_append, List.mem_cons,
          List.mem_append] at hmem ⊢
        tauto
      rw [hframe b hold] at hb
      exact ⟨hb, hold⟩
    have hlen := h.short q _ hw.list
    rw [List.length_cons] at hlen
    obtain ⟨kolejka, hvalues, hnext⟩ := h.queueStep hw hstep hlist howned le_rfl (by omega)
    simp only [QueueCall.onKolejka, Prod.mk.injEq, Option.some.injEq] at hvalues
    refine ⟨{ t with pamiec := p' }, ?_, hvalues.2 ▸ hnext⟩
    simp only [Sterta.pierwszyKolejka, kolejkaMutexa hw, hok, bind, Except.bind, Except.mapError,
      hvalues.1]

/-- The element at position `n` of the walk, behind the head sentinel or the sentinel itself,
    is taken out. -/
theorem usunElement_follows (h : HeapImage t c s) (hw : PointsTo t.M t.pamiec c i q k w) {item : A}
    {n : ℕ} (hitem : (k.start :: w.map Prod.fst)[n]? = some item) :
    ∃ t', usunElement t i item = .ok t' ∧
      Represents t' (s.setM i { s.M i with kolejka := (s.M i).kolejka.usunElement n }) := by
  have hrep := h.rep hw
  have hlen := h.short q w hw.list
  have hrounds : w.length + 1 < t.rundy := by
    unfold Serwer.rundy
    omega
  cases n with
  | zero =>
    -- the head sentinel: nothing is removed
    rw [List.getElem?_cons_zero, Option.some.injEq] at hitem
    subst hitem
    refine ⟨t, ?_, c, ?_⟩
    · simp only [Sterta.usunElement, kolejkaMutexa hw,
        Pamiec.usunElement_start hw.struct hrep hrounds, bind, Except.bind, Except.mapError]
    · simpa [ServerState.setM, Kolejka.usunElement] using h
  | succ n =>
    have hmem : item ∈ w.map Prod.fst := by
      rw [List.getElem?_cons_succ] at hitem
      exact List.mem_of_getElem? hitem
    obtain ⟨w₁, v, w₂, rfl, herase, hidx⟩ := hrep.exists_split hmem
    -- no element occurs twice, so its position is the one the scan has found
    have hn : n + 1 = w₁.length + 1 := by
      have hnodup := (List.nodup_append.mp hrep.nodup).1
      obtain ⟨hlt, hget⟩ := List.getElem?_eq_some_iff.mp hitem
      have hpos := hnodup.idxOf_getElem _ hlt
      rw [hget] at hpos
      exact hpos.symm.trans hidx
    obtain ⟨p', hok, -, -, -, hframe⟩ := Pamiec.usunElement_rep hw.struct hrep
      (n := t.rundy) (by omega)
    have hstep : QueueStep t.pamiec (.usunElement q item, none) p' :=
      ⟨⟨k, hw.struct, hrep.between_iff.mpr hmem⟩, t.rundy, by rw [QueueCall.wykonaj, hok]; rfl⟩
    have hlist : (QueueCall.usunElement q item).onLists c =
        Function.update c q (some (w₁ ++ w₂)) := by
      simp only [QueueCall.onLists, hw.list, Option.map_some, herase]
    have howned : ∀ a, p'.elementy a ≠ none → a ∉ k.adresy (w₁ ++ w₂) →
        t.pamiec.elementy a ≠ none ∧ a ∉ k.adresy (w₁ ++ (item, v) :: w₂) := by
      intro a ha hout
      have hne : a ≠ item := by
        intro heq
        subst heq
        exact ha (Pamiec.usunElement_frees hw.struct hrep hrounds hok)
      have hold : a ∉ k.adresy (w₁ ++ (item, v) :: w₂) := by
        intro hmem
        apply hout
        simp only [StrukturaKolejki.adresy, List.map_append, List.map_cons, List.cons_append,
          List.mem_cons, List.mem_append] at hmem ⊢
        tauto
      rw [hframe a hold] at ha
      exact ⟨ha, hold⟩
    simp only [List.length_append, List.length_cons] at hlen
    obtain ⟨kolejka, hvalues, hnext⟩ := h.queueStep hw hstep hlist howned le_rfl
      (by simp only [List.length_append]; omega)
    simp only [QueueCall.onKolejka, Prod.mk.injEq, true_and] at hvalues
    refine ⟨{ t with pamiec := p' }, ?_, ?_⟩
    · simp only [Sterta.usunElement, kolejkaMutexa hw, hok, bind, Except.bind, Except.mapError]
    · rw [hn, ← hidx, ← hvalues]
      exact hnext

omit [DecidableEq Q] in
/-- The scan on the heap stops at the element whose position the scan on the list finds. -/
theorem szukaj_eq (h : HeapImage t c s) (hw : PointsTo t.M t.pamiec c i q k w) (proces : ℤ) :
    szukaj t i proces =
      .ok (((s.M i).kolejka.szukaj proces).bind ((k.start :: w.map Prod.fst)[·]?)) := by
  have hrep := h.rep hw
  have hlen := h.short q w hw.list
  simp only [Sterta.szukaj, h.czyPusto_eq i, bind, Except.bind]
  cases hempty : (s.M i).kolejka.czyPusto with
  | true => simp [Kolejka.szukaj, hempty]
  | false =>
    have hne : w ≠ [] := by
      intro heq
      simp [h.kolejka_eq hw, Kolejka.czyPusto, kolejkaAt, heq] at hempty
    have hrounds : w.length + 1 < t.rundy := by
      unfold Serwer.rundy
      omega
    simp only [Bool.false_eq_true, if_false, kolejkaMutexa hw,
      Pamiec.forEach_rep hw.struct hrep _ hrounds, Except.mapError]
    rw [h.kolejka_eq hw, szukaj_kolejkaAt hrep hne, List.find?_eq_bind_findIdx?_getElem?]

end Calls

end HeapImage

/-! ## §4 The handlers -/

section Reading

variable {t : Serwer A Q} {s : ServerState}

theorem indeksUzywanegoMutexa_eq (h : Represents t s) (numer : ℤ) :
    indeksUzywanegoMutexa t numer = Server.indeksUzywanegoMutexa s numer := by
  obtain ⟨c, h⟩ := h
  unfold indeksUzywanegoMutexa Server.indeksUzywanegoMutexa
  congr 1
  funext i
  obtain ⟨huzywany, hnumer, -⟩ := h.slot i
  rw [huzywany, hnumer]

theorem wolnyMutex_eq (h : Represents t s) : wolnyMutex t = Server.wolnyMutex s := by
  obtain ⟨c, h⟩ := h
  unfold wolnyMutex Server.wolnyMutex
  congr 1
  funext i
  rw [(h.slot i).1]

theorem wlasciciel_eq (h : Represents t s) (i : Fin MAX_MUTEX) :
    (t.M i).wlasciciel = (s.M i).wlasciciel := by
  obtain ⟨c, h⟩ := h
  exact (h.slot i).2.2.symm

theorem aktualny_eq (h : Represents t s) : t.aktualnyProces = s.aktualnyProces := by
  obtain ⟨c, h⟩ := h
  exact h.aktualnyProces.symm

theorem cv_eq (h : Represents t s) : t.CV = s.CV := by
  obtain ⟨c, h⟩ := h
  exact h.cv.symm

end Reading

section Requests

variable [DecidableEq A] [DecidableEq Q] [Minix] {t : Serwer A Q} {s : ServerState}

/-- A result, and the states behind it. -/
def SameResult {R : Type} (x : R × Serwer A Q) (y : R × ServerState) : Prop :=
  x.1 = y.1 ∧ Represents x.2 y.2

theorem csLock_follows (malloc : Malloc A Q) (h : Represents t s) (numer : ℤ) :
    Mirrors SameResult (csLock malloc t numer) (Server.csLock s numer) := by
  unfold csLock Server.csLock
  rw [indeksUzywanegoMutexa_eq h]
  cases Server.indeksUzywanegoMutexa s numer with
  | none =>
    have hwolny := wolnyMutex_eq h
    by_cases hfree : Server.wolnyMutex s < MAX_MUTEX
    · simp only [dif_pos hfree, hwolny, aktualny_eq h]
      obtain ⟨c, h⟩ := h
      exact .ok ⟨rfl, c, h.setM _ rfl rfl⟩
    · simp only [dif_neg hfree, hwolny]
      exact .error rfl
  | some i =>
    simp only [wlasciciel_eq h, aktualny_eq h]
    apply Follows.ite Iff.rfl
    · exact fun _ => .ok ⟨rfl, h⟩
    · intro _
      obtain ⟨c, h⟩ := h
      apply Follows.bind_ok (h.wstaw_follows malloc i s.aktualnyProces)
      intro t' h'
      exact .ok ⟨rfl, h'⟩

omit [Minix] in
/-- The part of `cs_unlock` behind its checks. -/
theorem oddajMutex_follows (h : Represents t s) (i : Fin MAX_MUTEX) :
    Mirrors SameResult (oddajMutex t i)
      (.ok (if (s.M i).kolejka.czyPusto then (OK, s.setM i { s.M i with uzywany := false })
        else (OK, Server.wyslijWiadomosc 0 (s.M i).kolejka.pierwszyKolejka.1
          (s.setM i { s.M i with
            wlasciciel := (s.M i).kolejka.pierwszyKolejka.1
            kolejka := (s.M i).kolejka.pierwszyKolejka.2 })))) := by
  obtain ⟨c, h⟩ := h
  simp only [oddajMutex, h.czyPusto_eq i, bind, Except.bind]
  cases hempty : (s.M i).kolejka.czyPusto with
  | true =>
    obtain ⟨-, hnumer, hwlasciciel⟩ := h.slot i
    exact .ok ⟨rfl, c, h.setM i rfl (by rw [hnumer, hwlasciciel])⟩
  | false =>
    -- first the queue, then the owner
    obtain ⟨t', hok, c', h'⟩ := h.pierwszyKolejka_follows hempty
    obtain ⟨huzywany, hnumer, -⟩ := h'.slot i
    simp only [hok, Bool.false_eq_true, if_false]
    have hset := (h'.setM i (x := { t'.M i with wlasciciel := (s.M i).kolejka.pierwszyKolejka.1 })
      rfl rfl).wyslij 0 (s.M i).kolejka.pierwszyKolejka.1
    refine .ok ⟨rfl, c', ?_⟩
    simpa [ServerState.setM, ← huzywany, ← hnumer] using hset

theorem csUnlock_follows (h : Represents t s) (numer : ℤ) :
    Mirrors SameResult (csUnlock t numer) (.ok (Server.csUnlock s numer)) := by
  unfold csUnlock Server.csUnlock
  rw [indeksUzywanegoMutexa_eq h]
  cases Server.indeksUzywanegoMutexa s numer with
  | none => exact .ok ⟨rfl, h⟩
  | some i =>
    simp only [wlasciciel_eq h, aktualny_eq h]
    by_cases howner : (s.M i).wlasciciel ≠ s.aktualnyProces
    · rw [if_pos howner, if_pos howner]
      exact .ok ⟨rfl, h⟩
    · rw [if_neg howner, if_neg howner]
      exact oddajMutex_follows h i

omit [DecidableEq A] [DecidableEq Q] in
theorem dopiszCzekajacego_follows (h : Represents t s) (i : Fin MAX_CV) (cv : ConditionVariable)
    (numer : ℤ) :
    Mirrors SameResult (dopiszCzekajacego t i cv numer) (Server.dopiszCzekajacego s i cv numer) := by
  unfold dopiszCzekajacego Server.dopiszCzekajacego
  rw [aktualny_eq h]
  apply Follows.ite Iff.rfl
  · intro _
    obtain ⟨c, h⟩ := h
    exact .ok ⟨rfl, c, h.setCV i _⟩
  · exact fun _ => .error rfl

omit [DecidableEq A] [DecidableEq Q] in
theorem zarejestrujNaCv_follows (h : Represents t s) (numerCv numer : ℤ) :
    Mirrors SameResult (zarejestrujNaCv t numerCv numer)
      (Server.zarejestrujNaCv s numerCv numer) := by
  unfold zarejestrujNaCv Server.zarejestrujNaCv indeksUzywanegoCv Server.indeksUzywanegoCv
    wolnyCv Server.wolnyCv
  rw [cv_eq h]
  cases (List.finRange MAX_CV).find? fun i => (s.CV i).uzywany && (s.CV i).numer == numerCv with
  | some i => exact dopiszCzekajacego_follows h i (s.CV i) numer
  | none =>
    by_cases hfree : ((List.finRange MAX_CV).findIdx fun i => !(s.CV i).uzywany) < MAX_CV
    · simp only [dif_pos hfree]
      exact dopiszCzekajacego_follows h _ _ numer
    · simp only [dif_neg hfree]
      exact .error rfl

theorem csWait_follows (h : Represents t s) (numerCv numer : ℤ) :
    Mirrors SameResult (csWait t numerCv numer) (Server.csWait s numerCv numer) := by
  unfold csWait Server.csWait
  rw [indeksUzywanegoMutexa_eq h]
  cases Server.indeksUzywanegoMutexa s numer with
  | none => exact .ok ⟨rfl, h⟩
  | some i =>
    simp only [wlasciciel_eq h, aktualny_eq h]
    apply Follows.ite Iff.rfl
    · exact fun _ => .ok ⟨rfl, h⟩
    · intro _
      apply Follows.bind_ok (csUnlock_follows h numer)
      intro r hr
      exact zarejestrujNaCv_follows hr.2 numerCv numer

/-- One round of the loop of `cs_broadcast`. -/
theorem zwrocMutex_follows (malloc : Malloc A Q) (h : Represents t s) (i : Fin MAX_CV) (j : ℕ) :
    Mirrors Represents (zwrocMutex malloc i t j) (Server.zwrocMutex i s j) := by
  unfold zwrocMutex Server.zwrocMutex
  have hslot : s.CV i = t.CV i := congrFun (cv_eq h).symm i
  have hcaller : Represents { t with aktualnyProces := (t.CV i).procesy j }
      { s with aktualnyProces := (t.CV i).procesy j } := by
    obtain ⟨c, h⟩ := h
    exact ⟨c, h.setAktualny _⟩
  simp only [hslot]
  apply Follows.bind (csLock_follows malloc hcaller ((t.CV i).muteksy j))
  intro r r' hr
  obtain ⟨hresponse, hr⟩ := hr
  simp only [hresponse, aktualny_eq hr]
  obtain ⟨c, hr⟩ := hr
  -- the waiter is answered unless it has joined the queue
  by_cases hreply : r'.1 ≠ EDONTREPLY
  · have hsent := hr.wyslij 0 r'.2.aktualnyProces
    simp only [if_pos hreply, ← hsent.cv]
    exact .ok ⟨c, hsent.setCV i _⟩
  · simp only [if_neg hreply, ← hr.cv]
    exact .ok ⟨c, hr.setCV i _⟩

theorem csBroadcast_follows (malloc : Malloc A Q) (h : Represents t s) (numerCv : ℤ) :
    Mirrors SameResult (csBroadcast malloc t numerCv) (Server.csBroadcast s numerCv) := by
  unfold csBroadcast Server.csBroadcast indeksUzywanegoCv Server.indeksUzywanegoCv
  rw [cv_eq h]
  cases (List.finRange MAX_CV).find? fun i => (s.CV i).uzywany && (s.CV i).numer == numerCv with
  | none => exact .ok ⟨rfl, h⟩
  | some i =>
    simp only [aktualny_eq h]
    apply Follows.bind (Follows.foldlM (fun t s h j _ => zwrocMutex_follows malloc h i j) h)
    intro t' s' h'
    obtain ⟨c, h'⟩ := h'
    have hback := h'.setAktualny s.aktualnyProces
    have hslot : s'.CV i = t'.CV i := congrFun h'.cv i
    rw [hslot]
    exact .ok ⟨rfl, c, hback.setCV i _⟩

end Requests

/-! ## §5 The notifications -/

section Notifications

variable {t : Serwer A Q} {s : ServerState}

/-- What is done on both levels before an element is removed: only `sent` may change. -/
structure OnlySends (f : Serwer A Q → Serwer A Q) (g : ServerState → ServerState) : Prop where
  image : ∀ {t c s}, HeapImage t c s → HeapImage (f t) c (g s)
  tables : ∀ t, (f t).M = t.M ∧ (f t).pamiec = t.pamiec

theorem onlySends_wyslij (typ dokad : ℤ) :
    OnlySends (A := A) (Q := Q) (wyslijWiadomosc typ dokad) (Server.wyslijWiadomosc typ dokad) :=
  ⟨fun h => h.wyslij typ dokad, fun _ => ⟨rfl, rfl⟩⟩

theorem onlySends_id : OnlySends (A := A) (Q := Q) id id := ⟨fun h => h, fun _ => ⟨rfl, rfl⟩⟩

variable [DecidableEq A] [DecidableEq Q] {f : Serwer A Q → Serwer A Q}
  {g : ServerState → ServerState}

/-- One queue of the sweep. -/
theorem usunZKolejki_follows (hfg : OnlySends f g) (h : Represents t s) (proces : ℤ)
    (i : Fin MAX_MUTEX) :
    Mirrors Represents (usunZKolejki f proces t i)
      (.ok (match (s.M i).kolejka.szukaj proces with
        | none => s
        | some item => (g s).setM i
            { (g s).M i with kolejka := ((g s).M i).kolejka.usunElement item })) := by
  obtain ⟨c, h⟩ := h
  obtain ⟨q, k, w, hw, hs⟩ := h.points i
  obtain ⟨hM, hpamiec⟩ := hfg.tables t
  simp only [usunZKolejki, h.szukaj_eq hw, bind, Except.bind]
  cases hfind : (s.M i).kolejka.szukaj proces with
  | none => exact .ok ⟨c, h⟩
  | some n =>
    -- the position found on the list is one of the walk
    obtain ⟨item, hitem⟩ : ∃ item, (k.start :: w.map Prod.fst)[n]? = some item := by
      apply Option.isSome_iff_exists.mp
      rw [isSome_getElem?]
      simpa [hs, Kolejka.forEach, kolejkaAt] using Kolejka.szukaj_lt hfind
    obtain ⟨t', hok, h'⟩ := (hfg.image h).usunElement_follows (by rwa [hM, hpamiec]) hitem
    simp only [Option.bind_some, hitem, hok]
    exact .ok h'

omit [DecidableEq A] [DecidableEq Q] in
theorem usunZakonczonyProcesCV_follows (h : Represents t s) (i : Fin MAX_CV) (j : ℕ) :
    Represents (usunZakonczonyProcesCV t i j) (Server.usunZakonczonyProcesCV s i j) := by
  unfold usunZakonczonyProcesCV Server.usunZakonczonyProcesCV
  have hslot : s.CV i = t.CV i := congrFun (cv_eq h).symm i
  rw [hslot]
  obtain ⟨c, h⟩ := h
  split
  · exact ⟨c, h.setCV i _⟩
  · exact ⟨c, h.setCV i _⟩

omit [DecidableEq A] [DecidableEq Q] in
/-- One condition of the sweep. -/
theorem usunZCv_follows (hfg : OnlySends f g) (h : Represents t s) (proces : ℤ) (i : Fin MAX_CV) :
    Represents (usunZCv f proces t i)
      (if (s.CV i).uzywany then
        match Server.szukajCzekajacego s i proces with
        | none => s
        | some j => Server.usunZakonczonyProcesCV (g s) i j
      else s) := by
  unfold usunZCv szukajCzekajacego Server.szukajCzekajacego
  rw [cv_eq h]
  split
  · cases (List.range (s.CV i).size).find? fun j => (s.CV i).procesy j == proces with
    | none => exact h
    | some j =>
      obtain ⟨c, h⟩ := h
      exact usunZakonczonyProcesCV_follows ⟨c, hfg.image h⟩ i j
  · exact h

omit [DecidableEq A] [DecidableEq Q] in
/-- The sweep over the conditions, which cannot fail. -/
theorem foldl_follows {γ : Type} {f' : Serwer A Q → γ → Serwer A Q}
    {g' : ServerState → γ → ServerState}
    (hstep : ∀ t s, Represents t s → ∀ i, Represents (f' t i) (g' s i)) (l : List γ)
    (h : Represents t s) : Represents (l.foldl f' t) (l.foldl g' s) := by
  induction l generalizing t s with
  | nil => exact h
  | cons i l ih => exact ih (hstep t s h i)

variable [Minix]

theorem wyslijEINTR_follows (h : Represents t s) (proces : ℤ) :
    Mirrors Represents (wyslijEINTR t proces) (.ok (Server.wyslijEINTR s proces)) := by
  unfold wyslijEINTR Server.wyslijEINTR
  have hsend : OnlySends (A := A) (Q := Q) _ _ := onlySends_wyslij EINTR proces
  apply Follows.bind_ok
    (Follows.foldl (fun t s h i _ => usunZKolejki_follows hsend h proces i) h)
  intro t' h'
  exact .ok (foldl_follows (fun t s h i => usunZCv_follows hsend h proces i) _ h')

theorem odblokuj_follows (h : Represents t s) (proces : ℤ) (i : Fin MAX_MUTEX) :
    Mirrors Represents (odblokuj proces t i)
      (.ok (if (s.M i).uzywany && (s.M i).wlasciciel == proces then
        (Server.csUnlock s (s.M i).numer).2 else s)) := by
  obtain ⟨c, hc⟩ := id h
  obtain ⟨huzywany, hnumer, hwlasciciel⟩ := hc.slot i
  unfold odblokuj
  rw [huzywany, hnumer, hwlasciciel]
  split
  · apply Follows.bind_ok (csUnlock_follows h (t.M i).numer)
    exact fun r hr => .ok hr.2
  · exact .ok h

theorem usunZakonczonyProces_follows (h : Represents t s) (proces : ℤ) :
    Mirrors Represents (usunZakonczonyProces t proces)
      (.ok (Server.usunZakonczonyProces s proces)) := by
  unfold usunZakonczonyProces Server.usunZakonczonyProces
  rw [aktualny_eq h]
  have hstart : Represents { t with aktualnyProces := proces }
      { s with aktualnyProces := proces } := by
    obtain ⟨c, h⟩ := h
    exact ⟨c, h.setAktualny proces⟩
  -- three sweeps: unlock, leave the queues, leave the conditions
  have hunlock := Follows.foldl (R := Represents) (l := List.finRange MAX_MUTEX)
    (fun t s h i _ => odblokuj_follows h proces i) hstart
  refine Follows.bind_ok hunlock fun t₁ h₁ => ?_
  have hqueues := Follows.foldl (R := Represents) (l := List.finRange MAX_MUTEX)
    (fun t s h i _ => usunZKolejki_follows onlySends_id h proces i) h₁
  refine Follows.bind_ok hqueues fun t₂ h₂ => ?_
  obtain ⟨c, h₃⟩ := foldl_follows (fun t s h i => usunZCv_follows onlySends_id h proces i)
    (List.finRange MAX_CV) h₂
  simp only [id_eq] at h₃
  refine Follows.ok ⟨c, ?_⟩
  exact h₃.setAktualny s.aktualnyProces

end Notifications

/-! ## §6 Dispatch -/

section Dispatch

variable {t : Serwer A Q} {s : ServerState}

private theorem answered {x : Except Blad (ℤ × Serwer A Q)} {y : Except TableFault (ℤ × ServerState)}
    (h : Mirrors SameResult x y) :
    Mirrors SameResult (x.map fun r => (some r.1, r.2)) (y.map fun r => (some r.1, r.2)) :=
  h.map fun _ _ hr => ⟨congrArg some hr.1, hr.2⟩

private theorem unanswered {x : Except Blad (Serwer A Q)} {s' : ServerState}
    (h : Mirrors Represents x (.ok s')) :
    Mirrors (SameResult (R := Option ℤ)) (x.map fun t => (none, t)) (.ok (none, s')) :=
  Follows.map (y := .ok s') (g := fun s => (none, s)) h fun _ _ hr => ⟨rfl, hr⟩

variable [DecidableEq A] [DecidableEq Q] [Minix]

theorem wykonaj_follows (malloc : Malloc A Q) (h : Represents t s) (m : Message) :
    Mirrors SameResult (wykonaj malloc t m) (Server.wykonaj s m) := by
  unfold wykonaj Server.wykonaj
  apply Follows.ite Iff.rfl (fun _ => answered (csLock_follows malloc h m.m1i1))
  intro _
  apply Follows.ite Iff.rfl
    (fun _ => answered (y := .ok (Server.csUnlock s m.m1i1)) (csUnlock_follows h m.m1i1))
  intro _
  apply Follows.ite Iff.rfl (fun _ => answered (csWait_follows h m.m1i2 m.m1i1))
  intro _
  apply Follows.ite Iff.rfl (fun _ => answered (csBroadcast_follows malloc h m.m1i2))
  intro _
  exact Follows.ite Iff.rfl (fun _ => unanswered (wyslijEINTR_follows h m.pmProc))
    fun _ => unanswered (usunZakonczonyProces_follows h m.pmProc)

theorem obslugaWiadomosci_follows (malloc : Malloc A Q) (h : Represents t s) (m : Message) :
    Mirrors Represents (obslugaWiadomosci malloc t m) (Server.obslugaWiadomosci s m) := by
  unfold obslugaWiadomosci Server.obslugaWiadomosci
  have hsource : Represents { t with aktualnyProces := m.mSource }
      { s with aktualnyProces := m.mSource } := by
    obtain ⟨c, h⟩ := h
    exact ⟨c, h.setAktualny m.mSource⟩
  apply Follows.ite Iff.rfl
  · intro _
    obtain ⟨c, h⟩ := hsource
    exact .ok ⟨c, h.wyslij EINVAL m.mSource⟩
  · intro _
    apply Follows.bind (wykonaj_follows malloc hsource m)
    intro r r' hr
    obtain ⟨result, t'⟩ := r
    obtain ⟨result', s'⟩ := r'
    have hboth : result = result' ∧ Represents t' s' := hr
    obtain ⟨rfl, h'⟩ := hboth
    cases result with
    | none => exact .ok h'
    | some r =>
      simp only [aktualny_eq h']
      by_cases hreply : m.mType < 5 ∧ r ≠ EDONTREPLY
      · simp only [if_pos hreply]
        obtain ⟨c, h'⟩ := h'
        exact .ok ⟨c, h'.wyslij r s'.aktualnyProces⟩
      · simp only [if_neg hreply]
        exact .ok h'

/-- **Step lemma**: one message on the heap and on lists. -/
theorem obsluz_follows (malloc : Malloc A Q) (h : Represents t s) (m : Message) :
    Mirrors (fun x y => Represents x.1 y.1 ∧ x.2 = y.2) (obsluz malloc t m)
      (Server.obsluz s m) := by
  unfold obsluz Server.obsluz
  have hstart : Represents { t with sent := [] } { s with sent := [] } := by
    obtain ⟨c, h⟩ := h
    exact ⟨c, h.setSent []⟩
  apply Follows.bind (obslugaWiadomosci_follows malloc hstart m)
  intro t' s' h'
  obtain ⟨c, h'⟩ := h'
  exact .ok ⟨⟨c, h'.setSent []⟩, h'.sent.symm⟩

end Dispatch

end Sterta

end MinixCv.Server

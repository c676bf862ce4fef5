import MinixCv.Lib.Run
import MinixCv.Server.Queue
import MinixCv.Server.QueueHeap
import Mathlib.Logic.Relation

/-!
# Histories Of The Wait Queues

Any calls of the functions of `queue.h`, on any number of queues and in any order.

- `QueueStep`: a call that may be made, and that ends
- `QueueInv`: the invariant of every history
- `queue_is_fifo_list`: every queue is the list that its calls make
- `queueStep_refines_kolejka`: on the values of a queue, a call is what `Kolejka` says
-/

namespace MinixCv.Server

open MinixCv.Lib

/-! ## §1 Histories -/

/-- A call of a function of `queue.h`, with what `malloc` returned to it. -/
inductive QueueCall (A Q : Type) where
  | utworzKolejke (q : Q) (start koniec : A) (smieci smieci' : Element A)
  | wstaw (q : Q) (proces : ℤ) (nowyElement : A) (smieci : Element A)
  | pierwszyKolejka (q : Q)
  | usunElement (q : Q) (item : A)

namespace QueueCall

variable {A Q : Type}

def kolejka : QueueCall A Q → Q
  | utworzKolejke q _ _ _ _ | wstaw q _ _ _ | pierwszyKolejka q | usunElement q _ => q

section Calls

variable [DecidableEq A] [DecidableEq Q]

/-- The call returns a value and the memory it leaves. -/
def wykonaj (n : ℕ) (p : Pamiec A Q) :
    QueueCall A Q → Except HeapFault (Option ℤ × Pamiec A Q)
  | utworzKolejke q start koniec smieci smieci' =>
    (p.utworzKolejke q start koniec smieci smieci').map fun p' => (none, p')
  | wstaw q proces nowyElement smieci =>
    (p.wstaw n q proces nowyElement smieci).map fun p' => (none, p')
  | pierwszyKolejka q => (p.pierwszyKolejka q).map fun r => (some r.1, r.2)
  | usunElement q item => (p.usunElement n q item).map fun p' => (none, p')

end Calls

/-- When the call may be made: `malloc` returns what is not in use, `pierwszyKolejka` is called
    when `czyPusto` is `0`, and `usunElement` on an element between the sentinels. -/
def Allowed [DecidableEq A] (p : Pamiec A Q) : QueueCall A Q → Prop
  | utworzKolejke q start koniec _ _ =>
    p.kolejki q = none ∧ p.elementy start = none ∧ p.elementy koniec = none ∧ start ≠ koniec
  | wstaw q _ nowyElement _ => p.kolejki q ≠ none ∧ p.elementy nowyElement = none
  | pierwszyKolejka q => p.czyPusto q = .ok false
  | usunElement q item =>
    ∃ k, p.kolejki q = some k ∧ Relation.TransGen p.elementy.Link k.start item ∧
      Relation.TransGen p.elementy.Link item k.koniec

/-- What the call does to the lists: append at the tail, removal of the head, removal of the
    given element. -/
def onLists [DecidableEq A] [DecidableEq Q] (c : Q → Option (List (A × ℤ))) :
    QueueCall A Q → Q → Option (List (A × ℤ))
  | utworzKolejke q _ _ _ _ => Function.update c q (some [])
  | wstaw q proces nowyElement _ =>
    Function.update c q ((c q).map fun w => w ++ [(nowyElement, proces)])
  | pierwszyKolejka q => Function.update c q ((c q).map List.tail)
  | usunElement q item => Function.update c q ((c q).map (List.eraseP fun x => x.1 == item))

/-- What the call returns: `pierwszyKolejka` the value of the head. -/
def returned (c : Q → Option (List (A × ℤ))) : QueueCall A Q → Option ℤ
  | pierwszyKolejka q => (c q).bind fun w => w.head?.map Prod.snd
  | utworzKolejke _ _ _ _ _ | wstaw _ _ _ _ | usunElement _ _ => none

end QueueCall

/-- A call that may be made ends, after some number of rounds of its loop. -/
structure QueueStep {A Q : Type} [DecidableEq A] [DecidableEq Q] (p : Pamiec A Q)
    (x : QueueCall A Q × Option ℤ) (p' : Pamiec A Q) : Prop where
  allowed : x.1.Allowed p
  ran : ∃ n, x.1.wykonaj n p = .ok (x.2, p')

/-- The lists after the calls `xs`. -/
def contents {A Q : Type} [DecidableEq A] [DecidableEq Q] (xs : List (QueueCall A Q)) :
    Q → Option (List (A × ℤ)) :=
  xs.foldl QueueCall.onLists fun _ => none

/-! ## §2 The invariant of every history -/

/-- Every queue represents its list, and no two queues share an element. -/
structure QueueInv {A Q : Type} (p : Pamiec A Q) (c : Q → Option (List (A × ℤ))) : Prop where
  rep : ∀ q k, p.kolejki q = some k → ∃ w, c q = some w ∧ Rep p.elementy k w
  unknown : ∀ q, p.kolejki q = none → c q = none
  disjoint : ∀ {q q' k k' w w'}, q ≠ q' → p.kolejki q = some k → p.kolejki q' = some k' →
    c q = some w → c q' = some w' → ∀ a ∈ k.adresy w, a ∉ k'.adresy w'

section Invariant

variable {A Q : Type} {p p' : Pamiec A Q} {c : Q → Option (List (A × ℤ))} {q : Q}
  {k : StrukturaKolejki A} {w w' : List (A × ℤ)}

theorem QueueInv.rep_of (h : QueueInv p c) (hk : p.kolejki q = some k) (hw : c q = some w) :
    Rep p.elementy k w := by
  obtain ⟨w', hw', hrep⟩ := h.rep q k hk
  rw [hw, Option.some.injEq] at hw'
  exact hw' ▸ hrep

/-- A call that keeps within one queue, and within new elements, keeps the invariant. -/
theorem QueueInv.update [DecidableEq Q] (h : QueueInv p c)
    (hkolejki : p'.kolejki = Function.update p.kolejki q (some k))
    (hrep : Rep p'.elementy k w')
    (hnew : ∀ a ∈ k.adresy w', p.elementy a = none ∨
      ∃ w, p.kolejki q = some k ∧ c q = some w ∧ a ∈ k.adresy w)
    (hframe : ∀ q' k' w', q' ≠ q → p.kolejki q' = some k' → c q' = some w' →
      ∀ a ∈ k'.adresy w', p'.elementy a = p.elementy a) :
    QueueInv p' (Function.update c q (some w')) := by
  -- the elements of the other queues are not among those of `q`
  have hother : ∀ {q' k' w''}, q' ≠ q → p.kolejki q' = some k' → c q' = some w'' →
      ∀ a ∈ k.adresy w', a ∉ k'.adresy w'' := by
    intro q' k' w'' hne hk' hw'' a ha ha'
    rcases hnew a ha with hnone | ⟨w, hk, hw, haw⟩
    · exact (h.rep_of hk' hw'').allocated ha' hnone
    · exact h.disjoint (Ne.symm hne) hk hk' hw hw'' a haw ha'
  refine ⟨fun q' k' hk' => ?_, fun q' hq' => ?_, fun {q₁ q₂ k₁ k₂ w₁ w₂} hne hk₁ hk₂ hw₁ hw₂ => ?_⟩
  · rw [hkolejki] at hk'
    by_cases hq : q' = q
    · subst hq
      rw [Function.update_self, Option.some.injEq] at hk'
      exact ⟨w', by rw [Function.update_self], hk' ▸ hrep⟩
    · rw [Function.update_of_ne hq] at hk' ⊢
      obtain ⟨w'', hw'', hrep'⟩ := h.rep q' k' hk'
      exact ⟨w'', hw'', hrep'.congr (hframe q' k' w'' hq hk' hw'')⟩
  · rw [hkolejki] at hq'
    by_cases hq : q' = q
    · simp [hq] at hq'
    · rw [Function.update_of_ne hq] at hq' ⊢
      exact h.unknown q' hq'
  · rw [hkolejki] at hk₁ hk₂
    by_cases hq₁ : q₁ = q
    · subst hq₁
      rw [Function.update_self, Option.some.injEq] at hk₁ hw₁
      rw [Function.update_of_ne (Ne.symm hne)] at hk₂ hw₂
      subst hk₁
      subst hw₁
      exact hother (Ne.symm hne) hk₂ hw₂
    · rw [Function.update_of_ne hq₁] at hk₁ hw₁
      by_cases hq₂ : q₂ = q
      · subst hq₂
        rw [Function.update_self, Option.some.injEq] at hk₂ hw₂
        subst hk₂
        subst hw₂
        exact fun a ha ha' => hother hne hk₁ hw₁ a ha' ha
      · rw [Function.update_of_ne hq₂] at hk₂ hw₂
        exact h.disjoint hne hk₁ hk₂ hw₁ hw₂

/-- The elements between the sentinels are those of the list. -/
theorem Rep.between_iff {H : Heap A ℤ} (h : Rep H k w) {item : A} :
    Relation.TransGen H.Link k.start item ∧ Relation.TransGen H.Link item k.koniec ↔
      item ∈ w.map Prod.fst := by
  have hchain : (k.start :: (w.map Prod.fst ++ [k.koniec])).IsChain H.Link := h.chain
  constructor
  · intro hboth
    obtain ⟨hstart, hkoniec⟩ := hboth
    -- whatever is reached from `start` is in the rest of the chain
    have hreach : ∀ b, Relation.TransGen H.Link k.start b → b ∈ w.map Prod.fst ++ [k.koniec] := by
      intro b hb
      induction hb with
      | single hlink =>
        obtain ⟨v, hv⟩ := h.start_next
        obtain ⟨v', hv'⟩ := hlink
        rw [hv, Option.some.injEq, Cell.mk.injEq] at hv'
        exact List.mem_of_head? hv'.1
      | tail _ hlink ih =>
        rcases List.mem_append.mp ih with hc | hc
        · obtain ⟨b', hb', hlink'⟩ := Heap.exists_link_of_mem hchain.tail hc
          exact hlink.unique hlink' ▸ hb'
        · obtain ⟨v, hv⟩ := h.koniec
          obtain ⟨v', hv'⟩ := hlink
          rw [List.mem_singleton.mp hc, hv] at hv'
          simp at hv'
    rcases List.mem_append.mp (hreach item hstart) with hmem | hmem
    · exact hmem
    · -- `koniec` links to nothing
      rw [List.mem_singleton.mp hmem] at hkoniec
      obtain ⟨b, ⟨v', hv'⟩, -⟩ := Relation.TransGen.head'_iff.mp hkoniec
      obtain ⟨v, hv⟩ := h.koniec
      simp [hv] at hv'
  · intro hmem
    have hpair : (k.start :: (w.map Prod.fst ++ [k.koniec])).Pairwise (Relation.TransGen H.Link) :=
      List.isChain_iff_pairwise.mp (hchain.imp fun _ _ => Relation.TransGen.single)
    rw [List.pairwise_cons, List.pairwise_append] at hpair
    exact ⟨hpair.1 item (List.mem_append_left _ hmem), hpair.2.2.2 item hmem k.koniec (by simp)⟩

variable [DecidableEq A]

/-- An element of a queue, what is before and what is behind it. -/
theorem Rep.exists_split {H : Heap A ℤ} (h : Rep H k w) {item : A} (hitem : item ∈ w.map Prod.fst) :
    ∃ w₁ v w₂, w = w₁ ++ (item, v) :: w₂ ∧ (w.eraseP fun y => y.1 == item) = w₁ ++ w₂ ∧
      (k.start :: w.map Prod.fst).idxOf item = w₁.length + 1 := by
  obtain ⟨⟨a, v⟩, hmem, ha⟩ := List.mem_map.mp hitem
  have hitem : a = item := ha
  subst hitem
  obtain ⟨w₁, w₂, rfl⟩ := List.append_of_mem hmem
  have hnodup := h.nodup
  simp only [StrukturaKolejki.adresy, List.map_append, List.map_cons, List.cons_append,
    List.append_assoc, List.nodup_cons, List.mem_append, List.mem_cons, not_or] at hnodup
  -- no element before it has its address
  have hbefore : a ∉ w₁.map Prod.fst := fun hmem =>
    (List.nodup_append.mp hnodup.2).2.2 a hmem a (by simp) rfl
  refine ⟨w₁, v, w₂, rfl, ?_, ?_⟩
  · have hneg : ∀ y ∈ w₁, ¬ (y.1 == a) = true := by
      intro y hy heq
      have hya : y.1 = a := by simpa using heq
      exact hbefore (hya ▸ List.mem_map_of_mem hy)
    rw [List.eraseP_append_right _ hneg, List.eraseP_cons_of_pos (by simp)]
  · rw [List.idxOf_cons_ne _ hnodup.1.2.1, List.map_append, List.map_cons,
      List.idxOf_append_of_notMem hbefore]
    simp

variable [DecidableEq Q] {x : QueueCall A Q}

/-- A call that has ended does so with more time as well. -/
theorem QueueCall.wykonaj_mono {n m : ℕ} (hnm : n ≤ m) {r : Option ℤ × Pamiec A Q}
    (h : x.wykonaj n p = .ok r) : x.wykonaj m p = .ok r := by
  cases x with
  | utworzKolejke q start koniec smieci smieci' => exact h
  | pierwszyKolejka q => exact h
  | wstaw q proces nowyElement smieci =>
    -- the bound matters to the walk alone
    simp only [wykonaj, Pamiec.wstaw, bind, Except.bind] at h ⊢
    cases hk : p.kolejka q with
    | error e => simp [hk, Except.map] at h
    | ok k =>
      simp only [hk] at h ⊢
      cases hwalk : p.elementy.walk (fun _ => false) (fun e => e.next == some k.koniec) n
          (some k.start) with
      | error e => simp [hwalk, Except.map] at h
      | ok last =>
        simp only [hwalk] at h
        simpa only [Heap.walk_mono hnm hwalk] using h
  | usunElement q item =>
    simp only [wykonaj, Pamiec.usunElement, Pamiec.forEach, bind, Except.bind] at h ⊢
    cases hk : p.kolejka q with
    | error e => simp [hk, Except.map] at h
    | ok k =>
      simp only [hk] at h ⊢
      cases hwalk : p.elementy.walk (fun a => a == k.koniec) (fun e => e.next == some item) n
          (some k.start) with
      | error e => simp [hwalk, Except.map] at h
      | ok i =>
        simp only [hwalk] at h
        simpa only [Heap.walk_mono hnm hwalk] using h

/-- What a call comes to. -/
structure Effect (p : Pamiec A Q) (c : Q → Option (List (A × ℤ))) (x : QueueCall A Q)
    (p' : Pamiec A Q) : Prop where
  inv : QueueInv p' (x.onLists c)
  values : SameValues p.elementy p'.elementy
  kept : ∀ q k, p.kolejki q = some k → p'.kolejki q = some k
  others : ∀ q k w, q ≠ x.kolejka → p.kolejki q = some k → c q = some w →
    ∀ a ∈ k.adresy w, p'.elementy a = p.elementy a

/-- A call within the queue `k`, from a list to another. -/
private theorem effect_of_rep (h : QueueInv p c) (hk : p.kolejki x.kolejka = some k)
    (hw : c x.kolejka = some w) (hkolejki : p'.kolejki = p.kolejki) (hrep : Rep p'.elementy k w')
    (hvalues : SameValues p.elementy p'.elementy)
    (hlists : x.onLists c = Function.update c x.kolejka (some w'))
    (hnew : ∀ a ∈ k.adresy w', p.elementy a = none ∨ a ∈ k.adresy w)
    (hframe : ∀ a, a ∉ k.adresy w → p.elementy a ≠ none → p'.elementy a = p.elementy a) :
    Effect p c x p' := by
  -- the other queues have none of the cells that were written
  have hothers : ∀ q k' w'', q ≠ x.kolejka → p.kolejki q = some k' → c q = some w'' →
      ∀ a ∈ k'.adresy w'', p'.elementy a = p.elementy a := by
    intro q k' w'' hne hk' hw'' a ha
    exact hframe a (h.disjoint hne hk' hk hw'' hw a ha) ((h.rep_of hk' hw'').allocated ha)
  have hsame : p'.kolejki = Function.update p.kolejki x.kolejka (some k) := by
    rw [hkolejki, ← hk, Function.update_eq_self]
  refine ⟨?_, hvalues, fun q k' hk' => hkolejki ▸ hk', hothers⟩
  rw [hlists]
  refine h.update hsame hrep (fun a ha => ?_) hothers
  rcases hnew a ha with hnone | hmem
  · exact Or.inl hnone
  · exact Or.inr ⟨w, hk, hw, hmem⟩

theorem wykonaj_utworzKolejke (h : QueueInv p c) {start koniec : A} {s s' : Element A}
    (hx : (QueueCall.utworzKolejke q start koniec s s').Allowed p) (n : ℕ) :
    ∃ p', (QueueCall.utworzKolejke q start koniec s s').wykonaj n p = .ok (none, p') ∧
      Effect p c (.utworzKolejke q start koniec s s') p' := by
  obtain ⟨hq, hstart, hkoniec, hne⟩ := hx
  obtain ⟨p', hok, hkolejki, hrep, hvalues, hsame⟩ :=
    Pamiec.utworzKolejke_rep (q := q) hstart hkoniec hne s s'
  -- the elements of the other queues are allocated, the new sentinels are not
  have hothers : ∀ q' k' w', q' ≠ q → p.kolejki q' = some k' → c q' = some w' →
      ∀ a ∈ k'.adresy w', p'.elementy a = p.elementy a := by
    intro q' k' w' _ hk' hw' a ha
    have hall := (h.rep_of hk' hw').allocated ha
    exact hsame a (fun heq => hall (heq ▸ hstart)) (fun heq => hall (heq ▸ hkoniec))
  refine ⟨p', by rw [QueueCall.wykonaj, hok]; rfl, ?_, hvalues, fun q' k' hk' => ?_, hothers⟩
  · refine h.update hkolejki hrep (fun a ha => Or.inl ?_) hothers
    simp only [StrukturaKolejki.adresy, List.map_nil, List.cons_append, List.nil_append,
      List.mem_cons, List.not_mem_nil, or_false] at ha
    rcases ha with rfl | rfl
    · exact hstart
    · exact hkoniec
  · have hq' : q' ≠ q := fun heq => by simp [heq, hq] at hk'
    rw [hkolejki, Function.update_of_ne hq', hk']

theorem wykonaj_wstaw (h : QueueInv p c) {proces : ℤ} {nowy : A} {s : Element A}
    (hx : (QueueCall.wstaw q proces nowy s).Allowed p) (hw : c q = some w) {n : ℕ}
    (hn : w.length < n) :
    ∃ p', (QueueCall.wstaw q proces nowy s).wykonaj n p = .ok (none, p') ∧
      Effect p c (.wstaw q proces nowy s) p' := by
  obtain ⟨hq, hnowy⟩ := hx
  obtain ⟨k, hk⟩ := Option.ne_none_iff_exists'.mp hq
  obtain ⟨p', hok, hkolejki, hrep, hvalues, hframe⟩ :=
    Pamiec.wstaw_rep hk (h.rep_of hk hw) proces hnowy s hn
  refine ⟨p', by rw [QueueCall.wykonaj, hok]; rfl,
    effect_of_rep h hk hw hkolejki hrep hvalues (by simp [QueueCall.onLists, QueueCall.kolejka, hw])
      (fun a ha => ?_) fun a ha hall => hframe a ha fun heq => hall (heq ▸ hnowy)⟩
  simp only [StrukturaKolejki.adresy, List.map_append, List.map_cons, List.map_nil, List.cons_append,
    List.mem_cons, List.mem_append, List.not_mem_nil, or_false] at ha ⊢
  -- the head sentinel, the old elements, the new one, the tail sentinel
  rcases ha with ha | (ha | ha) | ha
  · exact Or.inr (Or.inl ha)
  · exact Or.inr (Or.inr (Or.inl ha))
  · exact Or.inl (ha ▸ hnowy)
  · exact Or.inr (Or.inr (Or.inr ha))

theorem wykonaj_pierwszyKolejka (h : QueueInv p c)
    (hx : (QueueCall.pierwszyKolejka (A := A) q).Allowed p) (n : ℕ) :
    ∃ p', (QueueCall.pierwszyKolejka q).wykonaj n p =
        .ok ((QueueCall.pierwszyKolejka q).returned c, p') ∧ Effect p c (.pierwszyKolejka q) p' := by
  -- the server looks at `czyPusto` first, so there is a first element
  have hempty : p.czyPusto q = .ok false := hx
  cases hk : p.kolejki q with
  | none => simp [Pamiec.czyPusto, Pamiec.kolejka, hk, bind, Except.bind] at hempty
  | some k =>
    obtain ⟨w, hw, hrep⟩ := h.rep q k hk
    rw [Pamiec.czyPusto_rep hk hrep, Except.ok.injEq] at hempty
    cases w with
    | nil => simp at hempty
    | cons y w =>
      obtain ⟨a, v⟩ := y
      obtain ⟨p', hok, hkolejki, hrep', hvalues, hframe⟩ := Pamiec.pierwszyKolejka_rep hk hrep
      refine ⟨p', by rw [QueueCall.wykonaj, hok]; simp [QueueCall.returned, hw, Except.map],
        effect_of_rep h hk hw hkolejki hrep' hvalues
          (by simp [QueueCall.onLists, QueueCall.kolejka, hw]) (fun b hb => Or.inr ?_)
          fun b hb _ => hframe b hb⟩
      simp only [StrukturaKolejki.adresy, List.map_cons, List.cons_append, List.mem_cons,
        List.mem_append] at hb ⊢
      tauto

theorem wykonaj_usunElement (h : QueueInv p c) {item : A}
    (hx : (QueueCall.usunElement q item).Allowed p) (hw : c q = some w) {n : ℕ}
    (hn : w.length < n) :
    ∃ p', (QueueCall.usunElement q item).wykonaj n p = .ok (none, p') ∧
      Effect p c (.usunElement q item) p' := by
  obtain ⟨k, hk, hbetween⟩ := hx
  have hrep := h.rep_of hk hw
  -- the element is one of the list; everything around it stays
  obtain ⟨w₁, v, w₂, rfl, herase, -⟩ := hrep.exists_split (hrep.between_iff.mp hbetween)
  obtain ⟨p', hok, hkolejki, hrep', hvalues, hframe⟩ := Pamiec.usunElement_rep hk hrep hn
  refine ⟨p', by rw [QueueCall.wykonaj, hok]; rfl,
    effect_of_rep h hk hw hkolejki hrep' hvalues
      (by simp only [QueueCall.onLists, QueueCall.kolejka, hw, Option.map_some, herase])
      (fun b hb => Or.inr ?_) fun b hb _ => hframe b hb⟩
  simp only [StrukturaKolejki.adresy, List.map_append, List.map_cons, List.cons_append,
    List.mem_cons, List.mem_append] at hb ⊢
  tauto

/-- **Step lemma**: a call that may be made ends without a fault as soon as its loop may run
through the queue; it returns what the lists say and keeps the invariant. -/
theorem wykonaj_ok (h : QueueInv p c) (hx : x.Allowed p) {n : ℕ}
    (hn : ∀ w, c x.kolejka = some w → w.length < n) :
    ∃ p', x.wykonaj n p = .ok (x.returned c, p') ∧ Effect p c x p' := by
  -- a queue that exists has a list
  have hlist : ∀ q, p.kolejki q ≠ none → ∃ w, c q = some w := by
    intro q hq
    obtain ⟨k, hk⟩ := Option.ne_none_iff_exists'.mp hq
    obtain ⟨w, hw, -⟩ := h.rep q k hk
    exact ⟨w, hw⟩
  cases x with
  | utworzKolejke q start koniec s s' => exact wykonaj_utworzKolejke h hx n
  | wstaw q proces nowy s =>
    obtain ⟨w, hw⟩ := hlist q hx.1
    exact wykonaj_wstaw h hx hw (hn w hw)
  | pierwszyKolejka q => exact wykonaj_pierwszyKolejka h hx n
  | usunElement q item =>
    have hq : p.kolejki q ≠ none := by
      obtain ⟨k, hk, -⟩ := hx
      simp [hk]
    obtain ⟨w, hw⟩ := hlist q hq
    exact wykonaj_usunElement h hx hw (hn w hw)

theorem QueueStep.effect (h : QueueInv p c) {r : Option ℤ} (hs : QueueStep p (x, r) p') :
    r = x.returned c ∧ Effect p c x p' := by
  obtain ⟨n, hn⟩ := hs.ran
  -- give the loop time for the whole queue as well
  obtain ⟨m, hm⟩ : ∃ m, ∀ w, c x.kolejka = some w → w.length < m := by
    cases hc : c x.kolejka with
    | none => exact ⟨0, by simp⟩
    | some w => exact ⟨w.length + 1, by simp⟩
  obtain ⟨p'', hok, heffect⟩ := wykonaj_ok h hs.allowed (n := n + m)
    fun w hw => lt_of_lt_of_le (hm w hw) (Nat.le_add_left m n)
  rw [QueueCall.wykonaj_mono (Nat.le_add_right n m) hn, Except.ok.injEq, Prod.mk.injEq] at hok
  obtain ⟨hr, rfl⟩ := hok
  exact ⟨hr, heffect⟩

omit [DecidableEq A] [DecidableEq Q] in
theorem pusta_inv : QueueInv (Pamiec.pusta : Pamiec A Q) fun _ => none := by
  refine ⟨fun q k hk => ?_, fun _ _ => rfl, fun _ hk => ?_⟩
  · simp [Pamiec.pusta] at hk
  · simp [Pamiec.pusta] at hk

/-- **Run lemma**: calls keep the invariant, for the lists that they make. -/
theorem run_inv {xs : List (QueueCall A Q × Option ℤ)} (h : Run QueueStep p xs p') (hp : QueueInv p c) :
    QueueInv p' ((xs.map Prod.fst).foldl QueueCall.onLists c) := by
  induction h generalizing c with
  | nil _ => exact hp
  | cons hstep _ ih => exact ih (hstep.effect hp).2.inv

theorem history_inv {xs : List (QueueCall A Q × Option ℤ)} (h : Run QueueStep Pamiec.pusta xs p) :
    QueueInv p (contents (xs.map Prod.fst)) :=
  run_inv h pusta_inv

/-- **The linked queue is a FIFO list**: after any history of calls, on any number of queues,
each queue is an acyclic chain of allocated elements from `start` to `koniec` that holds the
list its calls make; `czyPusto` tells whether that is empty, `FOR_EACH` runs through it, every
call that may be made ends without a fault, returns what the list says and leaves the elements
of the other queues alone; and no two queues share an element. -/
theorem queue_is_fifo_list {xs : List (QueueCall A Q × Option ℤ)} (h : Run QueueStep Pamiec.pusta xs p) :
    (∀ q k, p.kolejki q = some k → ∃ w, contents (xs.map Prod.fst) q = some w ∧
      Rep p.elementy k w ∧ p.czyPusto q = .ok w.isEmpty ∧
      ∀ n, w.length + 1 < n → ∀ stop, p.forEach n q stop =
        .ok ((k.start :: w.map Prod.fst).find? fun a => (p.elementy a).any stop)) ∧
    (∀ x : QueueCall A Q, x.Allowed p → ∀ n,
      (∀ w, contents (xs.map Prod.fst) x.kolejka = some w → w.length < n) →
      ∃ p', x.wykonaj n p = .ok (x.returned (contents (xs.map Prod.fst)), p')) ∧
    (∀ x r p', QueueStep p (x, r) p' → r = x.returned (contents (xs.map Prod.fst)) ∧
      ∀ q k w, q ≠ x.kolejka → p.kolejki q = some k →
        contents (xs.map Prod.fst) q = some w →
        p'.kolejki q = some k ∧ ∀ a ∈ k.adresy w, p'.elementy a = p.elementy a) ∧
    ∀ q q' k k' w w', q ≠ q' → p.kolejki q = some k → p.kolejki q' = some k' →
      contents (xs.map Prod.fst) q = some w → contents (xs.map Prod.fst) q' = some w' →
      ∀ a ∈ k.adresy w, a ∉ k'.adresy w' := by
  have hinv := history_inv h
  refine ⟨fun q k hk => ?_, fun x hx n hn => ?_, fun x r p' hs => ?_, ?_⟩
  · obtain ⟨w, hw, hrep⟩ := hinv.rep q k hk
    exact ⟨w, hw, hrep, Pamiec.czyPusto_rep hk hrep,
      fun n hn stop => Pamiec.forEach_rep hk hrep stop hn⟩
  · obtain ⟨p', hok, -⟩ := wykonaj_ok hinv hx hn
    exact ⟨p', hok⟩
  · obtain ⟨hr, heffect⟩ := hs.effect hinv
    exact ⟨hr, fun q k w hne hk hw => ⟨heffect.kept q k hk, heffect.others q k w hne hk hw⟩⟩
  · exact fun q q' k k' w w' hne hk hk' hw hw' => hinv.disjoint hne hk hk' hw hw'

end Invariant

/-- Two elements with the value 5; the second one is removed, and the first one is left. -/
theorem queue_is_fifo_list_equal_values :
    ∃ p : Pamiec ℕ ℕ, Run QueueStep Pamiec.pusta
        [(.utworzKolejke 0 10 11 ⟨none, 0⟩ ⟨none, 0⟩, none), (.wstaw 0 5 12 ⟨none, 0⟩, none),
          (.wstaw 0 5 13 ⟨none, 0⟩, none), (.usunElement 0 13, none)] p ∧
      p.kolejki 0 = some ⟨10, 11⟩ ∧ Rep p.elementy ⟨10, 11⟩ [(12, 5)] := by
  have hrun : ∃ p : Pamiec ℕ ℕ, Run QueueStep Pamiec.pusta
      [(.utworzKolejke 0 10 11 ⟨none, 0⟩ ⟨none, 0⟩, none), (.wstaw 0 5 12 ⟨none, 0⟩, none),
        (.wstaw 0 5 13 ⟨none, 0⟩, none), (.usunElement 0 13, none)] p ∧
      p.kolejki 0 = some ⟨10, 11⟩ := by
    refine ⟨_, .cons ⟨⟨rfl, rfl, rfl, by decide⟩, 9, rfl⟩ (.cons ⟨⟨by decide, rfl⟩, 9, rfl⟩
      (.cons ⟨⟨by decide, rfl⟩, 9, rfl⟩ (.cons ⟨⟨⟨10, 11⟩, rfl, ?_, ?_⟩, 9, rfl⟩ (.nil _)))), rfl⟩
    · exact .tail (.single (b := 12) ⟨0, rfl⟩) ⟨5, rfl⟩
    · exact .single ⟨5, rfl⟩
  obtain ⟨p, hrun, hk⟩ := hrun
  obtain ⟨w, hw, hrep, -⟩ := (queue_is_fifo_list hrun).1 0 ⟨10, 11⟩ hk
  have hlist : w = [(12, 5)] := by
    simpa [contents, QueueCall.onLists, eq_comm] using hw
  exact ⟨p, hrun, hk, hlist ▸ hrep⟩

/-! ## §3 The values of a queue -/

section Values

variable {A : Type}

def valueAt (H : Heap A ℤ) (a : A) : ℤ := ((H a).map Cell.val).getD 0

/-- The queue by its values: what the two sentinels and the elements between them hold. -/
def kolejkaAt (H : Heap A ℤ) (k : StrukturaKolejki A) (w : List (A × ℤ)) : Kolejka :=
  ⟨valueAt H k.start, valueAt H k.koniec, w.map Prod.snd⟩

variable {H H' : Heap A ℤ} {k : StrukturaKolejki A} {w w' : List (A × ℤ)}

theorem SameValues.valueAt_eq (h : SameValues H H') {a : A} (ha : H a ≠ none) (ha' : H' a ≠ none) :
    valueAt H' a = valueAt H a := by
  obtain ⟨e, he⟩ := Option.ne_none_iff_exists'.mp ha
  obtain ⟨e', he'⟩ := Option.ne_none_iff_exists'.mp ha'
  simp [valueAt, he, he', h a e e' he he']

/-- The sentinels of a queue keep their values. -/
theorem SameValues.kolejkaAt_eq (h : SameValues H H') (hrep : Rep H k w) (hrep' : Rep H' k w') :
    kolejkaAt H' k w' = { kolejkaAt H k w with elementy := w'.map Prod.snd } := by
  have hstart : ∀ w, k.start ∈ k.adresy w := by simp [StrukturaKolejki.adresy]
  have hkoniec : ∀ w, k.koniec ∈ k.adresy w := by simp [StrukturaKolejki.adresy]
  rw [kolejkaAt, h.valueAt_eq (hrep.allocated (hstart w)) (hrep'.allocated (hstart w')),
    h.valueAt_eq (hrep.allocated (hkoniec w)) (hrep'.allocated (hkoniec w'))]
  rfl

private theorem findIdx?_congr {p q : A → Bool} {l : List A} (h : ∀ a ∈ l, p a = q a) :
    l.findIdx? p = l.findIdx? q := by
  induction l with
  | nil => rfl
  | cons a l ih =>
    rw [List.findIdx?_cons, List.findIdx?_cons, h a (by simp),
      ih fun b hb => h b (List.mem_cons_of_mem a hb)]

/-- The scan of a queue that is not empty finds what `FOR_EACH` stops at. -/
theorem szukaj_kolejkaAt (h : Rep H k w) (hw : w ≠ []) (v : ℤ) :
    (kolejkaAt H k w).szukaj v =
      (k.start :: w.map Prod.fst).findIdx? fun a => (H a).any fun e => e.val == v := by
  have hvalues : valueAt H k.start :: w.map Prod.snd =
      (k.start :: w.map Prod.fst).map (valueAt H) := by
    rw [List.map_cons, List.map_map, List.cons.injEq]
    refine ⟨rfl, List.map_congr_left fun x hx => ?_⟩
    obtain ⟨n, hn⟩ := h.values x hx
    simp [valueAt, hn]
  have hempty : ¬ (kolejkaAt H k w).czyPusto = true := by
    simpa [Kolejka.czyPusto, kolejkaAt] using hw
  rw [Kolejka.szukaj, if_neg hempty, Kolejka.forEach]
  change (valueAt H k.start :: w.map Prod.snd).findIdx? _ = _
  rw [hvalues, List.findIdx?_map]
  -- the two scans ask the same of every element
  apply findIdx?_congr
  intro a ha
  obtain ⟨e, he⟩ := Option.ne_none_iff_exists'.mp
    (h.allocated (List.mem_append_left _ ha : a ∈ k.adresy w))
  simp [valueAt, he]

variable {Q : Type} [DecidableEq A] [DecidableEq Q] {p p' : Pamiec A Q}
  {c : Q → Option (List (A × ℤ))} {x : QueueCall A Q} {r : Option ℤ}

/-- The call on the values of a queue whose elements, behind the head sentinel too, are
    `adresy`. -/
def QueueCall.onKolejka (adresy : List A) (q : Kolejka) : QueueCall A Q → Option ℤ × Kolejka
  | utworzKolejke _ _ _ _ _ => (none, q)
  | wstaw _ proces _ _ => (none, q.wstaw proces)
  | pierwszyKolejka _ => (some q.pierwszyKolejka.1, q.pierwszyKolejka.2)
  | usunElement _ item => (none, q.usunElement (adresy.idxOf item))

/-- **The queues in memory refine `Kolejka`**: a call on a queue does to its values what the
function of the same name does, and returns the same. -/
theorem queueStep_refines_kolejka (h : QueueInv p c) (hk : p.kolejki x.kolejka = some k)
    (hw : c x.kolejka = some w) (hs : QueueStep p (x, r) p') :
    ∃ w', x.onLists c x.kolejka = some w' ∧ Rep p'.elementy k w' ∧
      (r, kolejkaAt p'.elementy k w') =
        x.onKolejka (k.start :: w.map Prod.fst) (kolejkaAt p.elementy k w) := by
  obtain ⟨hr, heffect⟩ := hs.effect h
  obtain ⟨w', hw', hrep'⟩ := heffect.inv.rep _ k (heffect.kept _ k hk)
  have hrep := h.rep_of hk hw
  -- the values in the cells do not change, so both sides are computed from the old heap
  have hvals := heffect.values.kolejkaAt_eq hrep hrep'
  refine ⟨w', hw', hrep', ?_⟩
  rw [hvals, hr]
  cases x with
  | utworzKolejke q start koniec s s' =>
    have hnone : p.kolejki q = none := hs.allowed.1
    simp [QueueCall.kolejka, hnone] at hk
  | wstaw q proces nowy s =>
    simp only [QueueCall.kolejka, QueueCall.onLists, Function.update_self] at hw hw'
    rw [hw, Option.map_some, Option.some.injEq] at hw'
    simp [QueueCall.returned, QueueCall.onKolejka, Kolejka.wstaw, kolejkaAt, ← hw']
  | pierwszyKolejka q =>
    simp only [QueueCall.kolejka, QueueCall.onLists, Function.update_self] at hk hw hw'
    rw [hw, Option.map_some, Option.some.injEq] at hw'
    have hempty : p.czyPusto q = .ok false := hs.allowed
    rw [Pamiec.czyPusto_rep hk hrep, Except.ok.injEq] at hempty
    cases w with
    | nil => simp at hempty
    | cons y w =>
      simp [QueueCall.returned, QueueCall.onKolejka, Kolejka.pierwszyKolejka, kolejkaAt, hw, ← hw']
  | usunElement q item =>
    simp only [QueueCall.kolejka, QueueCall.onLists, Function.update_self] at hk hw hw'
    rw [hw, Option.map_some, Option.some.injEq] at hw'
    obtain ⟨k', hk', hbetween⟩ := hs.allowed
    rw [hk, Option.some.injEq] at hk'
    subst hk'
    obtain ⟨w₁, v, w₂, hsplit, herase, hidx⟩ := hrep.exists_split (hrep.between_iff.mp hbetween)
    rw [herase] at hw'
    subst hw'
    simp only [QueueCall.onKolejka, hidx, Kolejka.usunElement, kolejkaAt]
    rw [hsplit]
    simp [QueueCall.returned, List.eraseIdx_append_of_length_le]

end Values

end MinixCv.Server

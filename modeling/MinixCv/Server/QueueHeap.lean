import MinixCv.Lib.LinkedCells
import Mathlib.Data.Int.Notation

/-!
# The Wait Queue In Memory

`queue.h` as it is written: elements on a heap, linked by `nastepny`, between the two
sentinels of a queue.  `A` are the addresses of elements and `Q` those of queues.  What
`malloc` returns, an address that is not in use and what it holds, is an argument of the
functions that call it.

- `Rep`: a queue represents a list of elements
- `…_rep`: what each function does to it
-/

namespace MinixCv.Server

open MinixCv.Lib

/-- `struct element`: `next` is `nastepny`, `val` is `proces`. -/
abbrev Element (A : Type) := Cell A ℤ

/-- `struct kolejka` -/
structure StrukturaKolejki (A : Type) where
  start : A
  koniec : A
  deriving DecidableEq, Repr

/-- The elements and the queues in memory. -/
structure Pamiec (A Q : Type) where
  elementy : Heap A ℤ
  kolejki : Q → Option (StrukturaKolejki A)

namespace Pamiec

variable {A Q : Type}

/-- Nothing has been allocated. -/
def pusta : Pamiec A Q := ⟨fun _ => none, fun _ => none⟩

/-! ## §1 `queue.h` -/

/-- `*q` -/
def kolejka (p : Pamiec A Q) (q : Q) : Except HeapFault (StrukturaKolejki A) :=
  match p.kolejki q with
  | none => .error .dangling
  | some k => .ok k

variable [DecidableEq A] [DecidableEq Q]

/-- `malloc` has returned `q`, `start` and `koniec`. -/
def utworzKolejke (p : Pamiec A Q) (q : Q) (start koniec : A) (smieci smieci' : Element A) :
    Except HeapFault (Pamiec A Q) := do
  let H := (p.elementy.alloc start smieci).alloc koniec smieci'
  let s ← H.read (some start)
  let H ← H.write (some start) { s with next := some koniec }
  let e ← H.read (some koniec)
  let H ← H.write (some koniec) { e with next := none }
  .ok ⟨H, Function.update p.kolejki q (some ⟨start, koniec⟩)⟩

/-- `malloc` has returned `nowyElement`.  The loop has no end but its last element; `n` bounds
    its rounds. -/
def wstaw (n : ℕ) (p : Pamiec A Q) (q : Q) (proces : ℤ) (nowyElement : A) (smieci : Element A) :
    Except HeapFault (Pamiec A Q) := do
  let k ← p.kolejka q
  let last ← p.elementy.walk (fun _ => false) (fun e => e.next == some k.koniec) n (some k.start)
  let H := p.elementy.alloc nowyElement smieci
  let e ← H.read (some nowyElement)
  let H ← H.write (some nowyElement) { e with val := proces }
  let l ← H.read last
  let H ← H.write last { l with next := some nowyElement }
  let e ← H.read (some nowyElement)
  let H ← H.write (some nowyElement) { e with next := some k.koniec }
  .ok { p with elementy := H }

def pierwszyKolejka (p : Pamiec A Q) (q : Q) : Except HeapFault (ℤ × Pamiec A Q) := do
  let k ← p.kolejka q
  let s ← p.elementy.read (some k.start)
  let first ← p.elementy.read s.next
  let H ← p.elementy.write (some k.start) { s with next := first.next }
  let H ← H.free s.next
  .ok (first.val, { p with elementy := H })

def czyPusto (p : Pamiec A Q) (q : Q) : Except HeapFault Bool := do
  let k ← p.kolejka q
  let s ← p.elementy.read (some k.start)
  .ok (s.next == some k.koniec)

/-- `FOR_EACH`, with a body that leaves the loop at the first element that satisfies `stop`;
    `none` when the loop runs through. -/
def forEach (n : ℕ) (p : Pamiec A Q) (q : Q) (stop : Element A → Bool) :
    Except HeapFault (Option A) := do
  let k ← p.kolejka q
  p.elementy.walk (fun a => a == k.koniec) stop n (some k.start)

def usunElement (n : ℕ) (p : Pamiec A Q) (q : Q) (item : A) : Except HeapFault (Pamiec A Q) := do
  let i ← p.forEach n q fun e => e.next == some item
  match i with
  | none => .ok p
  | some i =>
    let e ← p.elementy.read (some i)
    let x ← p.elementy.read (some item)
    let H ← p.elementy.write (some i) { e with next := x.next }
    let H ← H.free (some item)
    .ok { p with elementy := H }

end Pamiec

/-! ## §2 A queue represents a list of elements -/

section Representation

variable {A : Type}

/-- The elements of a queue, its sentinels first and last. -/
def StrukturaKolejki.adresy (k : StrukturaKolejki A) (w : List (A × ℤ)) : List A :=
  k.start :: w.map Prod.fst ++ [k.koniec]

/-- Following `nastepny` from `start` meets the elements `w`, with their values, and then
    `koniec`, and nothing twice. -/
structure Rep (H : Heap A ℤ) (k : StrukturaKolejki A) (w : List (A × ℤ)) : Prop where
  chain : (k.adresy w).IsChain H.Link
  nodup : (k.adresy w).Nodup
  koniec : ∃ v, H k.koniec = some ⟨none, v⟩
  values : ∀ x ∈ w, ∃ n, H x.1 = some ⟨n, x.2⟩

/-- No element that stays allocated changes its value. -/
def SameValues (H H' : Heap A ℤ) : Prop :=
  ∀ a c c', H a = some c → H' a = some c' → c'.val = c.val

variable {H H' : Heap A ℤ} {k : StrukturaKolejki A} {w : List (A × ℤ)}

theorem StrukturaKolejki.mem_adresy {y : A × ℤ} (hy : y ∈ w) : y.1 ∈ k.adresy w := by
  simp only [StrukturaKolejki.adresy, List.cons_append, List.mem_cons, List.mem_append, List.mem_map]
  exact Or.inr (Or.inl ⟨y, hy, rfl⟩)

/-- A queue depends on its own elements only. -/
theorem Rep.congr (h : Rep H k w) (hsame : ∀ a ∈ k.adresy w, H' a = H a) : Rep H' k w where
  chain := Heap.isChain_congr (fun a ha => hsame a (List.mem_append_left _ ha)) h.chain
  nodup := h.nodup
  koniec := by
    rw [hsame _ (by simp [StrukturaKolejki.adresy])]
    exact h.koniec
  values x hx := by
    rw [hsame _ (StrukturaKolejki.mem_adresy hx)]
    exact h.values x hx

/-- `start->nastepny` -/
theorem Rep.start_next (h : Rep H k w) :
    ∃ v, H k.start = some ⟨(w.map Prod.fst ++ [k.koniec]).head?, v⟩ := by
  have hchain := h.chain
  rw [StrukturaKolejki.adresy, List.cons_append, List.isChain_cons] at hchain
  obtain ⟨c, hc⟩ : ∃ c, (w.map Prod.fst ++ [k.koniec]).head? = some c := by
    cases w <;> simp
  obtain ⟨v, hv⟩ := hchain.1 c hc
  exact ⟨v, by rw [hv, hc]⟩

/-- Every element of a queue is allocated. -/
theorem Rep.allocated (h : Rep H k w) {a : A} (ha : a ∈ k.adresy w) : H a ≠ none := by
  rw [StrukturaKolejki.adresy, List.mem_append, List.mem_cons, List.mem_map] at ha
  rcases ha with (rfl | ⟨x, hx, rfl⟩) | ha
  · obtain ⟨v, hv⟩ := h.start_next
    simp [hv]
  · obtain ⟨n, hn⟩ := h.values x hx
    simp [hn]
  · obtain ⟨v, hv⟩ := h.koniec
    rw [List.mem_singleton.mp ha]
    simp [hv]

/-! ## §3 What each function does -/

namespace Pamiec

variable {Q : Type} {p : Pamiec A Q} {q : Q}

theorem kolejka_some (hk : p.kolejki q = some k) : p.kolejka q = .ok k := by
  simp [kolejka, hk]

variable [DecidableEq A]

theorem czyPusto_rep (hk : p.kolejki q = some k) (h : Rep p.elementy k w) :
    p.czyPusto q = .ok w.isEmpty := by
  obtain ⟨v, hv⟩ := h.start_next
  simp only [czyPusto, kolejka_some hk, Heap.read_some hv, bind, Except.bind]
  cases hw : w with
  | nil => simp
  | cons x l =>
    -- the first element is not the tail sentinel
    have hne : x.1 ≠ k.koniec := by
      have hnodup := h.nodup
      rw [hw, StrukturaKolejki.adresy] at hnodup
      simp only [List.map_cons, List.cons_append, List.nodup_cons, List.mem_append, List.mem_cons,
        List.not_mem_nil, or_false, not_or] at hnodup
      exact hnodup.2.1.2
    simpa using hne

/-- `FOR_EACH` visits `start` and the elements of the queue. -/
theorem forEach_rep (hk : p.kolejki q = some k) (h : Rep p.elementy k w) (stop : Element A → Bool)
    {n : ℕ} (hn : w.length + 1 < n) :
    p.forEach n q stop =
      .ok ((k.start :: w.map Prod.fst).find? fun a => (p.elementy a).any stop) := by
  simp only [forEach, kolejka_some hk, bind, Except.bind]
  -- the walk meets the tail sentinel only behind the last element
  have hkoniec : ∀ a ∈ k.start :: w.map Prod.fst, (a == k.koniec) = false := by
    intro a ha
    have hnodup := List.nodup_append.mp h.nodup
    simpa using hnodup.2.2 a ha k.koniec (by simp)
  cases hfind : (k.start :: w.map Prod.fst).find? fun a => (p.elementy a).any stop with
  | none =>
    -- no element stops the walk: it ends at the tail sentinel
    rw [List.find?_eq_none] at hfind
    refine Heap.walk_ends h.chain (by simp) (fun a ha => ⟨hkoniec a ha, fun c hc => ?_⟩)
      (by simpa using hn)
    simpa [hc] using hfind a ha
  | some x =>
    -- the walk stops at the first match, behind elements that do not match
    obtain ⟨hx, l₁, l₂, hl, hbefore⟩ := List.find?_eq_some_iff_append.mp hfind
    obtain ⟨c, hc, hstop⟩ : ∃ c, p.elementy x = some c ∧ stop c = true := by
      cases hc : p.elementy x with
      | none => simp [hc] at hx
      | some c => exact ⟨c, rfl, by simpa [hc] using hx⟩
    have hchain := h.chain
    have hlen := congrArg List.length hl
    rw [StrukturaKolejki.adresy, hl, List.append_assoc, List.cons_append, List.isChain_split] at hchain
    have hhead : some k.start = (l₁ ++ [x]).head? := by
      cases l₁ with
      | nil => simpa using congrArg List.head? hl
      | cons y l => simpa using congrArg List.head? hl
    rw [hhead]
    refine Heap.walk_stops hchain.1 hc hstop (hkoniec x (by rw [hl]; simp))
      (fun a ha => ⟨hkoniec a (by rw [hl]; simp [ha]), fun c hc => ?_⟩) ?_
    · simpa [hc] using hbefore a ha
    · simp only [List.length_cons, List.length_map, List.length_append] at hlen
      omega

omit [DecidableEq A] in
/-- The last element of a queue, or its head sentinel. -/
private theorem exists_last (k : StrukturaKolejki A) (w : List (A × ℤ)) :
    ∃ l x, k.start :: w.map Prod.fst = l ++ [x] ∧ l.length = w.length := by
  refine ⟨(k.start :: w.map Prod.fst).dropLast, (k.start :: w.map Prod.fst).getLast (by simp), ?_, ?_⟩
  · rw [List.dropLast_append_getLast]
  · simp

theorem wstaw_rep (hk : p.kolejki q = some k) (h : Rep p.elementy k w) (proces : ℤ) {nowy : A}
    (hnowy : p.elementy nowy = none) (smieci : Element A) {n : ℕ} (hn : w.length < n) :
    ∃ p', p.wstaw n q proces nowy smieci = .ok p' ∧ p'.kolejki = p.kolejki ∧
      Rep p'.elementy k (w ++ [(nowy, proces)]) ∧ SameValues p.elementy p'.elementy ∧
      ∀ a, a ∉ k.adresy w → a ≠ nowy → p'.elementy a = p.elementy a := by
  obtain ⟨l, x, hl, hlen⟩ := exists_last k w
  have hchain := h.chain
  have hnodup := h.nodup
  have hadresy : k.adresy w = l ++ x :: k.koniec :: [] := by simp [StrukturaKolejki.adresy, hl]
  rw [hadresy] at hchain hnodup
  have hfresh : nowy ∉ k.adresy w := fun hmem => h.allocated hmem hnowy
  have hxnowy : x ≠ nowy := by
    intro hx
    exact hfresh (by rw [hadresy]; simp [hx])
  obtain ⟨v, hx⟩ := (List.isChain_cons.mp (List.isChain_split.mp hchain).2).1 k.koniec rfl
  -- the loop finds the element before the tail sentinel
  have hends : ∀ a ∈ l ++ [x], (fun _ => false) a = false := fun _ _ => rfl
  have hwalk := Heap.walk_pred hchain hnodup hends (hlen ▸ hn)
  have hhead : (l ++ x :: k.koniec :: []).head? = some k.start := by
    rw [← hadresy]
    rfl
  rw [hhead] at hwalk
  have heval : ∃ p', p.wstaw n q proces nowy smieci = .ok p' ∧ p'.kolejki = p.kolejki ∧
      p'.elementy nowy = some ⟨some k.koniec, proces⟩ ∧ p'.elementy x = some ⟨some nowy, v⟩ ∧
      ∀ a, a ≠ nowy → a ≠ x → p'.elementy a = p.elementy a := by
    simp only [wstaw, kolejka_some hk, hwalk, bind, Except.bind, Heap.read, Heap.write, Heap.alloc,
      Function.update_self, Function.update_of_ne hxnowy, Function.update_of_ne (Ne.symm hxnowy), hx,
      Option.isSome_some, if_true]
    refine ⟨_, rfl, rfl, by simp, by simp [Function.update_of_ne hxnowy], fun a ha hax => ?_⟩
    simp [Function.update_of_ne ha, Function.update_of_ne hax]
  obtain ⟨p', hok, hkolejki, hnowy', hx', hsame⟩ := heval
  have hframe : ∀ a, a ∉ k.adresy w → a ≠ nowy → p'.elementy a = p.elementy a := by
    intro a ha hne
    exact hsame a hne fun hax => ha (by rw [hadresy]; simp [hax])
  have hnew : k.adresy (w ++ [(nowy, proces)]) = l ++ [x, nowy, k.koniec] := by
    simp only [StrukturaKolejki.adresy, List.map_append, List.map_cons, List.map_nil]
    rw [← List.cons_append, hl]
    simp
  have hkoniec : k.koniec ≠ nowy ∧ k.koniec ≠ x := by
    constructor
    · intro heq
      exact hfresh (by rw [hadresy, ← heq]; simp)
    · intro heq
      have := (List.nodup_append.mp hnodup).2.1
      simp [heq] at this
  refine ⟨p', hok, hkolejki, ⟨?_, ?_, ?_, ?_⟩, fun a c c' hc hc' => ?_, hframe⟩
  · rw [hnew]
    refine Heap.isChain_insert hchain (fun a ha => hsame a ?_ ?_) ⟨v, hx'⟩ ⟨proces, hnowy'⟩
    · intro heq
      subst heq
      exact hfresh (by rw [hadresy]; simp [ha])
    · intro heq
      subst heq
      exact (List.nodup_append.mp hnodup).2.2 a ha a (by simp) rfl
  · have hperm : (l ++ [x, nowy, k.koniec]).Perm (nowy :: (l ++ [x, k.koniec])) := by
      have hmiddle : ((l ++ [x]) ++ nowy :: [k.koniec]).Perm (nowy :: ((l ++ [x]) ++ [k.koniec])) :=
        List.perm_middle
      simpa using hmiddle
    rw [hnew, hperm.nodup_iff, List.nodup_cons, ← hadresy]
    exact ⟨hfresh, h.nodup⟩
  · rw [hsame _ hkoniec.1 hkoniec.2]
    exact h.koniec
  · intro y hy
    rcases List.mem_append.mp hy with hy | hy
    · obtain ⟨m, hm⟩ := h.values y hy
      by_cases hyx : y.1 = x
      · -- the element before the tail sentinel keeps its value
        rw [hyx, hx, Option.some.injEq, Cell.mk.injEq] at hm
        exact ⟨_, by rw [hyx, hx', hm.2]⟩
      · have hynowy : y.1 ≠ nowy := fun heq => by simp [heq, hnowy] at hm
        exact ⟨m, by rw [hsame _ hynowy hyx, hm]⟩
    · rw [List.mem_singleton.mp hy]
      exact ⟨_, hnowy'⟩
  · have hanowy : a ≠ nowy := fun heq => by simp [heq, hnowy] at hc
    by_cases hax : a = x
    · rw [hax, hx, Option.some.injEq] at hc
      rw [hax, hx', Option.some.injEq] at hc'
      rw [← hc, ← hc']
    · rw [hsame a hanowy hax, hc, Option.some.injEq] at hc'
      rw [hc']

/-- Linking an element `x` past the element `item`, and freeing that. -/
private theorem unlink_rep (h : Rep H k w) {l₁ l₂ : List A} {x item : A} {next : Option A} {v v' : ℤ}
    (hadresy : k.adresy w = l₁ ++ x :: item :: l₂ ++ [k.koniec])
    (hx : H x = some ⟨some item, v⟩) (hitem : H item = some ⟨next, v'⟩)
    {w' : List (A × ℤ)} (hw' : k.adresy w' = l₁ ++ x :: l₂ ++ [k.koniec]) (hsub : w' ⊆ w) :
    Rep (Function.update (Function.update H x (some ⟨next, v⟩)) item none) k w' ∧
      SameValues H (Function.update (Function.update H x (some ⟨next, v⟩)) item none) ∧
      ∀ a, a ∉ k.adresy w →
        Function.update (Function.update H x (some ⟨next, v⟩)) item none a = H a := by
  have hperm : (k.adresy w).Perm (item :: k.adresy w') := by
    rw [hadresy, hw']
    have hmiddle : ((l₁ ++ [x]) ++ item :: (l₂ ++ [k.koniec])).Perm
        (item :: ((l₁ ++ [x]) ++ (l₂ ++ [k.koniec]))) := List.perm_middle
    simpa using hmiddle
  have hnodup := hperm.nodup_iff.mp h.nodup
  rw [List.nodup_cons] at hnodup
  obtain ⟨hitem', hnodup'⟩ := hnodup
  have hxmem : x ∈ k.adresy w' := by rw [hw']; simp
  have hxitem : x ≠ item := fun heq => hitem' (heq ▸ hxmem)
  generalize hH' : Function.update (Function.update H x (some ⟨next, v⟩)) item none = H'
  have hx' : H' x = some ⟨next, v⟩ := by
    rw [← hH', Function.update_of_ne hxitem, Function.update_self]
  have hfreed : H' item = none := by rw [← hH', Function.update_self]
  have hsame : ∀ a, a ≠ x → a ≠ item → H' a = H a := by
    intro a hax hai
    rw [← hH', Function.update_of_ne hai, Function.update_of_ne hax]
  have hsame' : ∀ a ∈ k.adresy w', a ≠ x → H' a = H a :=
    fun a ha hax => hsame a hax fun hai => hitem' (hai ▸ ha)
  -- `x` occurs once in the chain
  have hnotx : ∀ a, a ∈ l₁ ∨ a ∈ l₂ ++ [k.koniec] → a ≠ x := by
    rw [hw', List.append_assoc, List.cons_append] at hnodup'
    have hx := (List.nodup_middle.mp hnodup')
    rw [List.nodup_cons, List.mem_append] at hx
    exact fun a ha hax => hx.1 (hax ▸ ha)
  have hin : ∀ a, a ∈ l₁ ∨ a ∈ l₂ ++ [k.koniec] → H' a = H a := by
    intro a ha
    refine hsame' a ?_ (hnotx a ha)
    rw [hw', List.append_assoc, List.cons_append, List.mem_append, List.mem_cons]
    tauto
  refine ⟨⟨?_, hnodup', ?_, fun y hy => ?_⟩, fun a c c' hc hc' => ?_, fun a ha => hsame a ?_ ?_⟩
  · rw [hw']
    refine Heap.isChain_unlink (hadresy ▸ h.chain) (fun a ha => hin a (Or.inl ha))
      (fun a ha => hin a (Or.inr (List.mem_append_left _ ha))) ?_
    intro c hex
    obtain ⟨v'', hc⟩ := hex
    rw [hitem, Option.some.injEq, Cell.mk.injEq] at hc
    exact ⟨v, by rw [hx', hc.1]⟩
  · rw [hin k.koniec (Or.inr (by simp))]
    exact h.koniec
  · obtain ⟨m, hm⟩ := h.values y (hsub hy)
    by_cases hyx : y.1 = x
    · -- `x` keeps its value
      rw [hyx, hx, Option.some.injEq, Cell.mk.injEq] at hm
      exact ⟨_, by rw [hyx, hx', hm.2]⟩
    · exact ⟨m, by rw [hsame' _ (StrukturaKolejki.mem_adresy hy) hyx, hm]⟩
  · have hai : a ≠ item := fun heq => by simp [heq, hfreed] at hc'
    by_cases hax : a = x
    · rw [hax, hx, Option.some.injEq] at hc
      rw [hax, hx', Option.some.injEq] at hc'
      rw [← hc, ← hc']
    · rw [hsame a hax hai, hc, Option.some.injEq] at hc'
      rw [hc']
  · intro heq
    subst heq
    exact ha (hperm.mem_iff.mpr (List.mem_cons_of_mem _ hxmem))
  · intro heq
    subst heq
    exact ha (hperm.mem_iff.mpr List.mem_cons_self)

theorem pierwszyKolejka_rep {a : A} {v : ℤ} (hk : p.kolejki q = some k)
    (h : Rep p.elementy k ((a, v) :: w)) :
    ∃ p', p.pierwszyKolejka q = .ok (v, p') ∧ p'.kolejki = p.kolejki ∧ Rep p'.elementy k w ∧
      SameValues p.elementy p'.elementy ∧
      ∀ b, b ∉ k.adresy ((a, v) :: w) → p'.elementy b = p.elementy b := by
  -- the first element hangs behind the head sentinel
  obtain ⟨v₀, hstart⟩ := h.start_next
  obtain ⟨next, ha⟩ := h.values (a, v) (by simp)
  simp only [List.map_cons, List.cons_append, List.head?_cons] at hstart
  have hne : a ≠ k.start := by
    have hnodup := h.nodup
    simp only [StrukturaKolejki.adresy, List.map_cons, List.cons_append, List.nodup_cons,
      List.mem_cons, not_or] at hnodup
    exact fun heq => hnodup.1.1 heq.symm
  have hadresy : k.adresy ((a, v) :: w) = [] ++ k.start :: a :: w.map Prod.fst ++ [k.koniec] := by
    simp [StrukturaKolejki.adresy]
  have hadresy' : k.adresy w = [] ++ k.start :: w.map Prod.fst ++ [k.koniec] := by
    simp [StrukturaKolejki.adresy]
  obtain ⟨hrep, hvalues, hframe⟩ := unlink_rep h hadresy hstart ha hadresy' (by simp)
  refine ⟨⟨Function.update (Function.update p.elementy k.start (some ⟨next, v₀⟩)) a none, p.kolejki⟩,
    ?_, rfl, hrep, hvalues, hframe⟩
  simp only [pierwszyKolejka, kolejka_some hk, Heap.read_some hstart, Heap.read_some ha,
    Heap.write_some hstart, bind, Except.bind]
  rw [Heap.free_some (c := ⟨next, v⟩) (by rw [Function.update_of_ne hne, ha])]

/-- The given element is removed, wherever it is and whatever its value. -/
theorem usunElement_rep {w₁ w₂ : List (A × ℤ)} {item : A} {v : ℤ} (hk : p.kolejki q = some k)
    (h : Rep p.elementy k (w₁ ++ (item, v) :: w₂)) {n : ℕ}
    (hn : (w₁ ++ (item, v) :: w₂).length < n) :
    ∃ p', p.usunElement n q item = .ok p' ∧ p'.kolejki = p.kolejki ∧
      Rep p'.elementy k (w₁ ++ w₂) ∧ SameValues p.elementy p'.elementy ∧
      ∀ a, a ∉ k.adresy (w₁ ++ (item, v) :: w₂) → p'.elementy a = p.elementy a := by
  obtain ⟨next, hitem⟩ := h.values (item, v) (by simp)
  -- the element before it
  obtain ⟨l, x, hl, hlen⟩ := exists_last k w₁
  have hadresy : k.adresy (w₁ ++ (item, v) :: w₂) =
      l ++ x :: item :: w₂.map Prod.fst ++ [k.koniec] := by
    simp only [StrukturaKolejki.adresy, List.map_append, List.map_cons]
    rw [← List.cons_append, hl]
    simp
  have hadresy' : k.adresy (w₁ ++ w₂) = l ++ x :: w₂.map Prod.fst ++ [k.koniec] := by
    simp only [StrukturaKolejki.adresy, List.map_append]
    rw [← List.cons_append, hl]
    simp
  have hchain := h.chain
  have hnodup := h.nodup
  rw [hadresy, List.append_assoc, List.cons_append, List.cons_append] at hchain hnodup
  obtain ⟨v₀, hx⟩ := (List.isChain_cons.mp (List.isChain_split.mp hchain).2).1 item rfl
  have hends : ∀ a ∈ l ++ [x], (a == k.koniec) = false := by
    intro a ha
    have hsplit : l ++ x :: item :: (w₂.map Prod.fst ++ [k.koniec]) =
        (l ++ [x]) ++ (item :: w₂.map Prod.fst ++ [k.koniec]) := by simp
    rw [hsplit] at hnodup
    simpa using (List.nodup_append.mp hnodup).2.2 a ha k.koniec (by simp)
  have hlong : l.length < n := by
    simp only [List.length_append, List.length_cons] at hn
    omega
  have hwalk := Heap.walk_pred hchain hnodup hends hlong
  have hhead : (l ++ x :: item :: (w₂.map Prod.fst ++ [k.koniec])).head? = some k.start := by
    have hfirst := congrArg List.head? hadresy
    simpa [StrukturaKolejki.adresy] using hfirst.symm
  rw [hhead] at hwalk
  have hxitem : item ≠ x := by
    intro heq
    subst heq
    have := (List.nodup_append.mp hnodup).2.1
    simp at this
  have hsub : w₁ ++ w₂ ⊆ w₁ ++ (item, v) :: w₂ := by
    intro y hy
    rcases List.mem_append.mp hy with hy | hy <;> simp [hy]
  obtain ⟨hrep, hvalues, hframe⟩ := unlink_rep h hadresy hx hitem hadresy' hsub
  refine ⟨⟨Function.update (Function.update p.elementy x (some ⟨next, v₀⟩)) item none, p.kolejki⟩,
    ?_, rfl, hrep, hvalues, hframe⟩
  simp only [usunElement, forEach, kolejka_some hk, hwalk, Heap.read_some hx, Heap.read_some hitem,
    Heap.write_some hx, bind, Except.bind]
  rw [Heap.free_some (c := ⟨next, v⟩) (by rw [Function.update_of_ne hxitem, hitem])]

/-- No element precedes the head sentinel, so it is never removed. -/
theorem usunElement_start (hk : p.kolejki q = some k) (h : Rep p.elementy k w) {n : ℕ}
    (hn : w.length + 1 < n) : p.usunElement n q k.start = .ok p := by
  have hnone : ((k.start :: w.map Prod.fst).find? fun a =>
      (p.elementy a).any fun e => e.next == some k.start) = none := by
    rw [List.find?_eq_none]
    intro a ha
    obtain ⟨b, hb, v, hv⟩ : ∃ b ∈ w.map Prod.fst ++ [k.koniec], p.elementy.Link a b := by
      have hchain : (k.start :: (w.map Prod.fst ++ [k.koniec])).IsChain p.elementy.Link := h.chain
      rcases List.mem_cons.mp ha with rfl | ha
      · obtain ⟨v, hv⟩ := h.start_next
        obtain ⟨b, hb⟩ : ∃ b, (w.map Prod.fst ++ [k.koniec]).head? = some b := by
          cases w <;> simp
        exact ⟨b, List.mem_of_head? hb, v, by rw [hv, hb]⟩
      · exact Heap.exists_link_of_mem hchain.tail ha
    have hb' : b ≠ k.start := fun heq => (List.nodup_cons.mp h.nodup).1 (heq ▸ hb)
    simpa [hv] using hb'
  simp only [usunElement, forEach_rep hk h _ hn, hnone, bind, Except.bind]

variable [DecidableEq Q]

/-- Two new sentinels are an empty queue. -/
theorem utworzKolejke_rep {start koniec : A} (hstart : p.elementy start = none)
    (hkoniec : p.elementy koniec = none) (hne : start ≠ koniec) (smieci smieci' : Element A) :
    ∃ p', p.utworzKolejke q start koniec smieci smieci' = .ok p' ∧
      p'.kolejki = Function.update p.kolejki q (some ⟨start, koniec⟩) ∧
      Rep p'.elementy ⟨start, koniec⟩ [] ∧ SameValues p.elementy p'.elementy ∧
      ∀ a, a ≠ start → a ≠ koniec → p'.elementy a = p.elementy a := by
  -- run the function: two cells, linked, with whatever values `malloc` left
  have heval : ∃ p', p.utworzKolejke q start koniec smieci smieci' = .ok p' ∧
      p'.kolejki = Function.update p.kolejki q (some ⟨start, koniec⟩) ∧
      p'.elementy start = some ⟨some koniec, smieci.val⟩ ∧
      p'.elementy koniec = some ⟨none, smieci'.val⟩ ∧
      ∀ a, a ≠ start → a ≠ koniec → p'.elementy a = p.elementy a := by
    simp only [utworzKolejke, bind, Except.bind, Heap.read, Heap.write, Heap.alloc,
      Function.update_self, Function.update_of_ne hne, Function.update_of_ne (Ne.symm hne),
      Option.isSome_some, if_true]
    refine ⟨_, rfl, rfl, by simp [Function.update_of_ne hne], by simp, fun a has hak => ?_⟩
    simp [Function.update_of_ne has, Function.update_of_ne hak]
  obtain ⟨p', hok, hkolejki, hs, he, hsame⟩ := heval
  refine ⟨p', hok, hkolejki, ⟨?_, ?_, ⟨_, he⟩, by simp⟩, fun a c c' hc hc' => ?_, hsame⟩
  · have hlink : Heap.Link p'.elementy start koniec := ⟨_, hs⟩
    simpa [StrukturaKolejki.adresy] using hlink
  · simpa [StrukturaKolejki.adresy] using hne
  · have has : a ≠ start := fun heq => by simp [heq, hstart] at hc
    have hak : a ≠ koniec := fun heq => by simp [heq, hkoniec] at hc
    rw [hsame a has hak, hc, Option.some.injEq] at hc'
    rw [hc']

end Pamiec

end Representation

end MinixCv.Server

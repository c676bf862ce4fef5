import Mathlib.Data.List.Chain
import Mathlib.Data.List.Nodup
import Mathlib.Logic.Function.Basic
import Mathlib.Tactic.Common

/-!
# Linked Cells On A Heap

A heap of cells with a link and a value.  An access through the null pointer or to a cell
that is not allocated is a fault, and so is a loop that does not end.

- `walk`: follow the links until the loop ends or a cell stops it
- `Link`: one cell links to another; a list in memory is a `List.IsChain` of it
- `isChain_insert`, `isChain_unlink`: changing the links in the middle of a chain
-/

namespace MinixCv.Lib

universe u v

/-- A cell; the link `none` is the null pointer. -/
structure Cell (A : Type u) (V : Type v) where
  next : Option A
  val : V
  deriving DecidableEq, Repr

/-- The allocated cells. -/
abbrev Heap (A : Type u) (V : Type v) := A → Option (Cell A V)

inductive HeapFault where
  | null
  | dangling
  | endless
  deriving DecidableEq, Repr

namespace Heap

variable {A : Type u} {V : Type v}

/-! ## §1 Accesses -/

section Accesses

variable [DecidableEq A]

def read (H : Heap A V) : Option A → Except HeapFault (Cell A V)
  | none => .error .null
  | some a =>
    match H a with
    | none => .error .dangling
    | some c => .ok c

def write (H : Heap A V) (w : Option A) (c : Cell A V) : Except HeapFault (Heap A V) :=
  match w with
  | none => .error .null
  | some a => if (H a).isSome then .ok (Function.update H a (some c)) else .error .dangling

def free (H : Heap A V) (w : Option A) : Except HeapFault (Heap A V) :=
  match w with
  | none => .error .null
  | some a => if (H a).isSome then .ok (Function.update H a none) else .error .dangling

/-- Allocate the cell `a`, with whatever is in it. -/
def alloc (H : Heap A V) (a : A) (garbage : Cell A V) : Heap A V :=
  Function.update H a (some garbage)

variable {H : Heap A V} {a : A} {c : Cell A V}

omit [DecidableEq A] in
theorem read_some (h : H a = some c) : H.read (some a) = .ok c := by
  simp [read, h]

theorem write_some (h : H a = some c) (c' : Cell A V) :
    H.write (some a) c' = .ok (Function.update H a (some c')) := by
  simp [write, h]

theorem free_some (h : H a = some c) : H.free (some a) = .ok (Function.update H a none) := by
  simp [free, h]

theorem free_self {H' : Heap A V} (h : H.free (some a) = .ok H') : H' a = none := by
  unfold free at h
  dsimp only at h
  split_ifs at h
  cases h
  exact Function.update_self a none H

end Accesses

/-- Follow the links from `w`.  The loop is left at a cell where `ends` holds, before the cell
    is read, and at a cell whose contents satisfy `stop`; the latter is returned. -/
def walk (H : Heap A V) (ends : A → Bool) (stop : Cell A V → Bool) :
    ℕ → Option A → Except HeapFault (Option A)
  | 0, _ => .error .endless
  | _ + 1, none => .error .null
  | n + 1, some a =>
    if ends a then .ok none
    else
      match H a with
      | none => .error .dangling
      | some c => if stop c then .ok (some a) else walk H ends stop n c.next

section Walk

variable {H : Heap A V} {ends : A → Bool} {stop : Cell A V → Bool}

/-- A loop that has ended does so with more time as well. -/
theorem walk_mono {n m : ℕ} (hnm : n ≤ m) {w r : Option A} (h : walk H ends stop n w = .ok r) :
    walk H ends stop m w = .ok r := by
  -- the walk that ends within `n` cells sees the same cells with a larger bound
  induction n generalizing m w with
  | zero => simp [walk] at h
  | succ n ih =>
    obtain ⟨m, rfl⟩ : ∃ m', m = m' + 1 := ⟨m - 1, by omega⟩
    cases w with
    | none => simp [walk] at h
    | some a =>
      rw [walk] at h ⊢
      split_ifs at h ⊢ with hends
      · exact h
      · cases hc : H a with
        | none => simp [hc] at h
        | some c =>
          simp only [hc] at h ⊢
          split_ifs at h ⊢ with hstop
          · exact h
          · exact ih (by omega) h

end Walk

/-! ## §2 Chains -/

/-- The cell `a` is allocated and links to `b`. -/
def Link (H : Heap A V) (a b : A) : Prop := ∃ v, H a = some ⟨some b, v⟩

variable {H H' : Heap A V} {a b x y : A} {l l₁ l₂ : List A}

/-- A cell links to one cell at most. -/
theorem Link.unique (h : H.Link a x) (h' : H.Link a y) : x = y := by
  obtain ⟨v, hv⟩ := h
  obtain ⟨v', hv'⟩ := h'
  rw [hv] at hv'
  simpa using congrArg (Option.map Cell.next) hv'

/-- The cells before the last one decide whether a list is a chain. -/
theorem isChain_congr (hsame : ∀ a ∈ l, H' a = H a) (h : (l ++ [b]).IsChain H.Link) :
    (l ++ [b]).IsChain H'.Link := by
  induction l with
  | nil => simp
  | cons a l ih =>
    have hl : (l ++ [b]).IsChain H'.Link :=
      ih (fun c hc => hsame c (List.mem_cons_of_mem a hc)) h.tail
    rw [List.cons_append, List.isChain_cons] at h ⊢
    refine ⟨fun c hc => ?_, hl⟩
    obtain ⟨v, hv⟩ := h.1 c hc
    exact ⟨v, by rw [hsame a (by simp), hv]⟩

/-- A cell `x` is linked to a new cell `n`, and that to where `x` was linked to. -/
theorem isChain_insert {n : A} (h : (l ++ [x, b]).IsChain H.Link)
    (hsame : ∀ a ∈ l, H' a = H a) (hx : H'.Link x n) (hn : H'.Link n b) :
    (l ++ [x, n, b]).IsChain H'.Link := by
  rw [List.isChain_split] at h ⊢
  refine ⟨isChain_congr hsame h.1, ?_⟩
  simp [hx, hn]

/-- A cell `x` is linked past the cell `y`. -/
theorem isChain_unlink (h : (l₁ ++ x :: y :: l₂ ++ [b]).IsChain H.Link)
    (hsame₁ : ∀ a ∈ l₁, H' a = H a) (hsame₂ : ∀ a ∈ l₂, H' a = H a)
    (hx : ∀ c, H.Link y c → H'.Link x c) : (l₁ ++ x :: l₂ ++ [b]).IsChain H'.Link := by
  rw [List.append_assoc, List.cons_append, List.isChain_split] at h ⊢
  refine ⟨isChain_congr hsame₁ h.1, ?_⟩
  have hrest : (l₂ ++ [b]).IsChain H'.Link := isChain_congr hsame₂ h.2.tail.tail
  rw [List.isChain_cons]
  refine ⟨fun c hc => hx c ?_, hrest⟩
  have hy : (y :: (l₂ ++ [b])).IsChain H.Link := h.2.tail
  rw [List.isChain_cons] at hy
  exact hy.1 c hc

/-! ## §3 Walking along a chain -/

section Along

variable {ends : A → Bool} {stop : Cell A V → Bool}

/-- The walk along `l` meets nothing that stops it, and goes on behind `l`. -/
theorem walk_along (h : (l ++ [b]).IsChain H.Link)
    (hpass : ∀ a ∈ l, ends a = false ∧ ∀ c, H a = some c → stop c = false) (n : ℕ) :
    walk H ends stop (l.length + n) (l ++ [b]).head? = walk H ends stop n (some b) := by
  induction l with
  | nil => simp
  | cons a l ih =>
    obtain ⟨hends, hstop⟩ := hpass a (by simp)
    have hl := ih h.tail fun c hc => hpass c (List.mem_cons_of_mem a hc)
    rw [List.cons_append, List.isChain_cons] at h
    -- the next cell is the head of the rest
    obtain ⟨c, hc⟩ : ∃ c, (l ++ [b]).head? = some c := by
      cases l <;> simp
    obtain ⟨v, hv⟩ := h.1 c hc
    rw [List.length_cons, Nat.succ_add, List.cons_append, List.head?_cons, walk, if_neg (by simp [hends])]
    simp only [hv, hstop _ hv, Bool.false_eq_true, if_false]
    rw [← hc, hl]

/-- The first cell that stops the loop is returned. -/
theorem walk_stops (h : (l ++ [x]).IsChain H.Link) {c : Cell A V} (hx : H x = some c)
    (hstop : stop c = true) (hends : ends x = false)
    (hpass : ∀ a ∈ l, ends a = false ∧ ∀ c, H a = some c → stop c = false) {n : ℕ}
    (hn : l.length < n) : walk H ends stop n (l ++ [x]).head? = .ok (some x) := by
  obtain ⟨k, rfl⟩ : ∃ k, n = l.length + (k + 1) := ⟨n - l.length - 1, by omega⟩
  rw [walk_along h hpass, walk, if_neg (by simp [hends])]
  simp [hx, hstop]

/-- If no cell stops the loop, it goes to its end. -/
theorem walk_ends (h : (l ++ [b]).IsChain H.Link) (hends : ends b = true)
    (hpass : ∀ a ∈ l, ends a = false ∧ ∀ c, H a = some c → stop c = false) {n : ℕ}
    (hn : l.length < n) : walk H ends stop n (l ++ [b]).head? = .ok none := by
  obtain ⟨k, rfl⟩ : ∃ k, n = l.length + (k + 1) := ⟨n - l.length - 1, by omega⟩
  rw [walk_along h hpass, walk, if_pos hends]

/-- Every cell of a chain but the last links to a cell of the chain. -/
theorem exists_link_of_mem (h : (l ++ [x]).IsChain H.Link) (ha : a ∈ l) :
    ∃ b ∈ l ++ [x], H.Link a b := by
  obtain ⟨l₁, l₂, rfl⟩ := List.append_of_mem ha
  rw [List.append_assoc, List.cons_append, List.isChain_split] at h
  obtain ⟨c, hc⟩ : ∃ c, (l₂ ++ [x]).head? = some c := by
    cases l₂ <;> simp
  have hlink := (List.isChain_cons.mp h.2).1 c hc
  have hmem : c ∈ l₂ ++ [x] := List.mem_of_head? hc
  refine ⟨c, ?_, hlink⟩
  rw [List.append_assoc, List.cons_append]
  exact List.mem_append_right _ (List.mem_cons_of_mem _ hmem)

/-- The walk that looks for the cell before `y` finds it. -/
theorem walk_pred [DecidableEq A] (h : (l₁ ++ x :: y :: l₂).IsChain H.Link)
    (hnodup : (l₁ ++ x :: y :: l₂).Nodup) (hends : ∀ a ∈ l₁ ++ [x], ends a = false) {n : ℕ}
    (hn : l₁.length < n) :
    walk H ends (fun c => c.next == some y) n (l₁ ++ x :: y :: l₂).head? = .ok (some x) := by
  rw [List.isChain_split] at h
  obtain ⟨v, hx⟩ := (List.isChain_cons.mp h.2).1 y rfl
  have hy : y ∉ l₁ ++ [x] := by
    intro hmem
    have hsplit : l₁ ++ x :: y :: l₂ = (l₁ ++ [x]) ++ y :: l₂ := by simp
    rw [hsplit] at hnodup
    exact (List.nodup_append.mp hnodup).2.2 y hmem y (by simp) rfl
  have hhead : (l₁ ++ x :: y :: l₂).head? = (l₁ ++ [x]).head? := by
    cases l₁ <;> rfl
  rw [hhead]
  apply walk_stops h.1 hx (by simp) (hends x (by simp)) _ hn
  -- an earlier cell links to one before `y`
  intro a ha
  refine ⟨hends a (List.mem_append_left _ ha), fun c hc => ?_⟩
  obtain ⟨b, hb, v', hv'⟩ := exists_link_of_mem h.1 ha
  rw [hc, Option.some.injEq] at hv'
  subst hv'
  have hby : b ≠ y := fun hby => hy (hby ▸ hb)
  simpa using hby

end Along

end Heap

end MinixCv.Lib

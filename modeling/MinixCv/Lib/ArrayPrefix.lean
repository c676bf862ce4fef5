import Mathlib.Data.List.Basic
import Mathlib.Logic.Function.Basic
import Mathlib.Tactic.Common

/-!
# Arrays Read Up To A Size

An array whose first `n` cells are in use and whose other cells hold old contents,
read as a list:

- `arrayPrefix`: the first `n` cells
- `arrayPrefix_push`: writing cell `n` and raising the size appends
- `shiftDown`, `arrayPrefix_shiftDown`: moving the cells behind `k` one place down and
  lowering the size erases entry `k`
- `find_range_eq_findIdx`: the search loop over the cells is a search in the list
-/

namespace MinixCv.Lib

universe u

variable {α : Type u}

/-- The first `n` cells of `f`. -/
def arrayPrefix (f : ℕ → α) (n : ℕ) : List α := (List.range n).map f

@[simp] theorem arrayPrefix_zero (f : ℕ → α) : arrayPrefix f 0 = [] := rfl

@[simp] theorem length_arrayPrefix (f : ℕ → α) (n : ℕ) : (arrayPrefix f n).length = n := by
  simp [arrayPrefix]

theorem mem_arrayPrefix {f : ℕ → α} {n : ℕ} {a : α} :
    a ∈ arrayPrefix f n ↔ ∃ j < n, f j = a := by
  simp [arrayPrefix]

theorem arrayPrefix_congr {f g : ℕ → α} {n : ℕ} (h : ∀ j < n, f j = g j) :
    arrayPrefix f n = arrayPrefix g n := by
  apply List.map_congr_left
  intro j hj
  exact h j (List.mem_range.mp hj)

/-- Writing the first cell behind the size and raising the size appends. -/
theorem arrayPrefix_push (f : ℕ → α) (n : ℕ) (a : α) :
    arrayPrefix (Function.update f n a) (n + 1) = arrayPrefix f n ++ [a] := by
  unfold arrayPrefix
  rw [List.range_succ, List.map_append]
  congr 1
  · apply arrayPrefix_congr
    intro j hj
    exact Function.update_of_ne (Nat.ne_of_lt hj) a f
  · simp

/-- Copy the cells `k + 1, …, n - 1` one place down, in rising order. -/
def shiftDown (f : ℕ → α) (k n : ℕ) : ℕ → α :=
  (List.range' (k + 1) (n - 1 - k)).foldl (fun f j => Function.update f (j - 1) (f j)) f

theorem shiftDown_apply (f : ℕ → α) (k n j : ℕ) :
    shiftDown f k n j = if k ≤ j ∧ j + 1 < n then f (j + 1) else f j := by
  -- after `m` rounds the cells `k, …, k + m - 1` hold their right neighbours
  have key : ∀ m j, (List.range' (k + 1) m).foldl (fun f j => Function.update f (j - 1) (f j)) f j =
      if k ≤ j ∧ j < k + m then f (j + 1) else f j := by
    intro m
    induction m with
    | zero =>
      intro j
      rw [if_neg (by omega)]
      rfl
    | succ m ih =>
      intro j
      rw [List.range'_concat, List.foldl_append, List.foldl_cons, List.foldl_nil,
        Function.update_apply, ih, ih]
      split_ifs <;> first | omega | rfl | (congr 1; omega)
  rw [shiftDown, key]
  have : (k ≤ j ∧ j < k + (n - 1 - k)) ↔ (k ≤ j ∧ j + 1 < n) := by omega
  simp only [this]

/-- Shifting down from `k` and lowering the size erases entry `k`. -/
theorem arrayPrefix_shiftDown (f : ℕ → α) {k n : ℕ} (hk : k < n) :
    arrayPrefix (shiftDown f k n) (n - 1) = (arrayPrefix f n).eraseIdx k := by
  apply List.ext_getElem
  · simp [List.length_eraseIdx, hk]
  · intro j hj₁ hj₂
    -- entry `j` is cell `j` before the erased one and cell `j + 1` behind it
    have hj : j < n - 1 := by simpa using hj₁
    simp only [arrayPrefix, List.getElem_map, List.getElem_range, List.getElem_eraseIdx]
    rw [shiftDown_apply]
    split_ifs <;> first | rfl | omega

/-- The loop that stops at the first cell satisfying `p` finds the list index of its entry. -/
theorem find_range_eq_findIdx (f : ℕ → α) (p : α → Bool) (n : ℕ) :
    (List.range n).find? (fun j => p (f j)) = (arrayPrefix f n).findIdx? p := by
  -- both sides give the least index whose entry satisfies `p`
  ext k
  rw [List.find?_range_eq_some, List.findIdx?_eq_some_iff_getElem]
  constructor
  · intro hboth
    obtain ⟨hk, hmem, hlt⟩ := hboth
    refine ⟨by simpa using hmem, by simpa [arrayPrefix] using hk, ?_⟩
    intro j hj
    simpa [arrayPrefix] using hlt j hj
  · intro hboth
    obtain ⟨hmem, hk, hlt⟩ := hboth
    refine ⟨by simpa [arrayPrefix] using hk, by simpa using hmem, ?_⟩
    intro j hj
    simpa [arrayPrefix] using hlt j hj

end MinixCv.Lib

import Mathlib.Data.List.Nodup
import Mathlib.Data.List.Count
import Mathlib.Algebra.BigOperators.Group.Finset.Basic
import Mathlib.Algebra.Order.BigOperators.Group.Finset
import Mathlib.Data.Finset.Union
import Mathlib.Tactic.Common

/-!
# Families Of Lists Without Repetition

A family of waiting lists in which nobody is listed twice, neither in one list nor in
two.  The lemmas say how such a family may change (`Exclusive.mono`,
`Exclusive.append`) and how it is counted (`sum_count`, `sum_length_le`).
-/

namespace MinixCv.Lib

universe u v

variable {ι : Type u} {α : Type v}

/-- `a` stands in some list of the family. -/
def Listed (w : ι → List α) (a : α) : Prop := ∃ i, a ∈ w i

/-- Nobody is listed twice in the whole family. -/
structure Exclusive (w : ι → List α) : Prop where
  nodup : ∀ i, (w i).Nodup
  eq_of_mem : ∀ {i j a}, a ∈ w i → a ∈ w j → i = j

theorem Listed.mono {w w' : ι → List α} (h : ∀ i, (w' i).Sublist (w i)) {a : α}
    (ha : Listed w' a) : Listed w a := by
  obtain ⟨i, hi⟩ := ha
  exact ⟨i, (h i).subset hi⟩

/-- Shrinking lists keeps a family exclusive. -/
theorem Exclusive.mono {w w' : ι → List α} (hw : Exclusive w)
    (h : ∀ i, (w' i).Sublist (w i)) : Exclusive w' where
  nodup i := (hw.nodup i).sublist (h i)
  eq_of_mem hi hj := hw.eq_of_mem ((h _).subset hi) ((h _).subset hj)

/-- Appending somebody who is not listed keeps a family exclusive. -/
theorem Exclusive.append {w w' : ι → List α} (hw : Exclusive w) {a : α} (ha : ¬ Listed w a)
    {i : ι} (hi : w' i = w i ++ [a]) (hne : ∀ j, j ≠ i → w' j = w j) : Exclusive w' := by
  -- the only new membership is that of `a` in list `i`
  have hmem : ∀ j b, b ∈ w' j → b ∈ w j ∨ (b = a ∧ j = i) := by
    intro j b hb
    by_cases hj : j = i
    · subst hj
      rw [hi] at hb
      rcases List.mem_append.mp hb with h | h
      · exact Or.inl h
      · exact Or.inr ⟨by simpa using h, rfl⟩
    · rw [hne j hj] at hb
      exact Or.inl hb
  constructor
  · intro j
    by_cases hj : j = i
    · subst hj
      rw [hi]
      have hfresh : a ∉ w j := fun h => ha ⟨j, h⟩
      simpa using (hw.nodup j).append (List.nodup_singleton a) (by simpa using hfresh)
    · rw [hne j hj]
      exact hw.nodup j
  · intro j k b hj hk
    rcases hmem j b hj with hj | ⟨rfl, rfl⟩ <;> rcases hmem k b hk with hk | ⟨hb, rfl⟩
    · exact hw.eq_of_mem hj hk
    · subst hb
      exact absurd ⟨j, hj⟩ ha
    · exact absurd ⟨k, hk⟩ ha
    · rfl

/-- Over the whole family everybody is counted once or not at all. -/
theorem Exclusive.sum_count [Fintype ι] [DecidableEq ι] [DecidableEq α] {w : ι → List α}
    (hw : Exclusive w) (a : α) [Decidable (Listed w a)] :
    ∑ i, (w i).count a = if Listed w a then 1 else 0 := by
  split_ifs with h
  · obtain ⟨i, hi⟩ := h
    -- the list that holds `a` counts it once, the others not at all
    rw [Finset.sum_eq_single i]
    · exact List.count_eq_one_of_mem (hw.nodup i) hi
    · intro j _ hji
      exact List.count_eq_zero_of_not_mem fun hj => hji (hw.eq_of_mem hj hi)
    · simp
  · apply Finset.sum_eq_zero
    intro i _
    exact List.count_eq_zero_of_not_mem fun hi => h ⟨i, hi⟩

/-- The lists of an exclusive family together are no longer than any set they draw from. -/
theorem Exclusive.sum_length_le [DecidableEq α] {w : ι → List α} (hw : Exclusive w)
    (I : Finset ι) {F : Finset α} (hF : ∀ i ∈ I, ∀ a ∈ w i, a ∈ F) :
    ∑ i ∈ I, (w i).length ≤ F.card := by
  calc ∑ i ∈ I, (w i).length = ∑ i ∈ I, (w i).toFinset.card := by
        apply Finset.sum_congr rfl
        intro i _
        exact (List.toFinset_card_of_nodup (hw.nodup i)).symm
    _ = (I.biUnion fun i => (w i).toFinset).card := by
        -- the lists are disjoint, so their union is as large as all of them together
        rw [Finset.card_biUnion]
        intro i _ j _ hij
        rw [Function.onFun, Finset.disjoint_left]
        intro a hi hj
        exact hij (hw.eq_of_mem (List.mem_toFinset.mp hi) (List.mem_toFinset.mp hj))
    _ ≤ F.card := by
        apply Finset.card_le_card
        intro a ha
        obtain ⟨i, hi, hai⟩ := Finset.mem_biUnion.mp ha
        exact hF i hi a (List.mem_toFinset.mp hai)

/-- A scan that reports `x` at every index satisfying `p`, when at most one does. -/
theorem flatMap_report {β : Type*} (p : ι → Bool) (x : β) (l : List ι) (hl : l.Nodup)
    (hp : ∀ i ∈ l, ∀ j ∈ l, p i = true → p j = true → i = j) :
    (l.flatMap fun i => if p i = true then [x] else []) = if l.any p = true then [x] else [] := by
  induction l with
  | nil => simp
  | cons i l ih =>
    have ih' := ih hl.tail fun a ha b hb => hp a (List.mem_cons_of_mem _ ha) b (List.mem_cons_of_mem _ hb)
    rw [List.flatMap_cons, ih']
    by_cases hi : p i = true
    · -- a hit at the head is the only one, so the rest reports nothing
      have hnone : l.any p = false := by
        rw [List.any_eq_false]
        intro j hj hpj
        have := hp i (by simp) j (List.mem_cons_of_mem _ hj) hi hpj
        exact (List.nodup_cons.mp hl).1 (this ▸ hj)
      simp [hi, hnone]
    · simp [hi]

end MinixCv.Lib

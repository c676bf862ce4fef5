import Mathlib.Algebra.BigOperators.Group.Finset.Piecewise
import Mathlib.Algebra.Order.BigOperators.Group.Finset
import Mathlib.Data.Finset.Card

/-!
# Counting Processes

Finitely many processes stand at places, and each place counts for some number: the sum over
all of them, and how it changes when one process moves, starts or ends.
-/

namespace MinixCv.Lib

universe u v w

variable {P : Type u} {L : Type v}

/-- The processes count for `n` together, each at its place `l` for `f l`. -/
def Census (place : P → Option L) (f : L → ℕ) (n : ℕ) : Prop :=
  ∃ T : Finset P, (∀ p ∉ T, place p = none) ∧ ∑ p ∈ T, (place p).elim 0 f = n

namespace Census

variable {place : P → Option L} {f : L → ℕ} {n : ℕ} {p : P} {l : L}

theorem eq_zero (h : Census place f n) (hf : ∀ p l, place p = some l → f l = 0) : n = 0 := by
  obtain ⟨T, -, hsum⟩ := h
  rw [← hsum]
  refine Finset.sum_eq_zero fun p _ => ?_
  cases hp : place p with
  | none => rfl
  | some l => exact hf p l hp

/-- One process counts for no more than all. -/
theorem le (h : Census place f n) (hp : place p = some l) : f l ≤ n := by
  obtain ⟨T, hT, hsum⟩ := h
  have hmem : p ∈ T := by
    by_contra hmem
    rw [hT p hmem] at hp
    cases hp
  calc f l = (place p).elim 0 f := by rw [hp]; rfl
    _ ≤ ∑ q ∈ T, (place q).elim 0 f :=
        Finset.single_le_sum (f := fun q => (place q).elim 0 f) (fun _ _ => Nat.zero_le _) hmem
    _ = n := hsum

/-- If everybody counts, there are no more processes than are counted. -/
theorem card_le (h : Census place f n) (hf : ∀ l, 1 ≤ f l) :
    ∃ U : Finset P, (∀ p l, place p = some l → p ∈ U) ∧ U.card ≤ n := by
  obtain ⟨T, hT, hsum⟩ := h
  refine ⟨T.filter fun p => (place p).isSome, fun p l hp => ?_, ?_⟩
  · rw [Finset.mem_filter]
    refine ⟨?_, by rw [hp]; rfl⟩
    by_contra hmem
    rw [hT p hmem] at hp
    cases hp
  · rw [← hsum, Finset.card_filter]
    refine Finset.sum_le_sum fun p _ => ?_
    cases hp : place p with
    | none => exact Nat.zero_le _
    | some l => exact hf l

/-- Nobody counts for more than before, so neither do all; and if somebody counts for less, so
do all. -/
theorem lower {place' : P → Option L} (h : Census place f n)
    (hnone : ∀ p, place p = none → place' p = none)
    (hle : ∀ p, (place' p).elim 0 f ≤ (place p).elim 0 f) :
    ∃ k ≤ n, Census place' f k ∧
      ((∃ p, (place' p).elim 0 f < (place p).elim 0 f) → k < n) := by
  obtain ⟨T, hT, hsum⟩ := h
  refine ⟨∑ p ∈ T, (place' p).elim 0 f, ?_, ⟨T, fun p hp => hnone p (hT p hp), rfl⟩, ?_⟩
  · rw [← hsum]
    exact Finset.sum_le_sum fun p _ => hle p
  · rintro ⟨p, hlt⟩
    rw [← hsum]
    refine Finset.sum_lt_sum (fun q _ => hle q) ⟨p, ?_, hlt⟩
    by_contra hp
    rw [hT p hp] at hlt
    exact Nat.not_lt_zero _ hlt

/-- Whatever else is counted, the processes count for some number. -/
theorem exists_other {K : Type w} {place' : P → Option K} (h : Census place f n)
    (hnone : ∀ p, place p = none → place' p = none) (g : K → ℕ) : ∃ k, Census place' g k := by
  obtain ⟨T, hT, -⟩ := h
  exact ⟨_, T, fun p hp => hnone p (hT p hp), rfl⟩

variable [DecidableEq P]

/-- The others count for `k`, wherever `p` goes. -/
theorem update (h : Census place f n) (p : P) :
    ∃ k, n = k + (place p).elim 0 f ∧
      ∀ x : Option L, Census (Function.update place p x) f (k + x.elim 0 f) := by
  obtain ⟨T, hT, hsum⟩ := h
  refine ⟨∑ q ∈ T.erase p, (place q).elim 0 f, ?_, fun x => ⟨insert p T, fun q hq => ?_, ?_⟩⟩
  · by_cases hp : p ∈ T
    · rw [← hsum, Finset.sum_erase_add _ _ hp]
    · rw [hT p hp, Finset.erase_eq_of_notMem hp, hsum]
      rfl
  · rw [Finset.mem_insert, not_or] at hq
    rw [Function.update_of_ne hq.1]
    exact hT q hq.2
  · rw [← Finset.insert_erase (Finset.mem_insert_self p T), Finset.erase_insert_eq_erase,
      Finset.sum_insert (Finset.notMem_erase p T), Function.update_self, add_comm]
    congr 1
    refine Finset.sum_congr rfl fun q hq => ?_
    rw [Function.update_of_ne (Finset.ne_of_mem_erase hq)]

/-- One process moves. -/
theorem move (h : Census place f n) (hp : place p = some l) (l' : L) :
    ∃ k, n = k + f l ∧ Census (Function.update place p (some l')) f (k + f l') := by
  obtain ⟨k, hn, hk⟩ := h.update p
  rw [hp] at hn
  exact ⟨k, hn, hk (some l')⟩

/-- One process starts. -/
theorem start (h : Census place f n) (hp : place p = none) (l : L) :
    Census (Function.update place p (some l)) f (n + f l) := by
  obtain ⟨k, hn, hk⟩ := h.update p
  rw [hp, Option.elim_none, add_zero] at hn
  exact hn ▸ hk (some l)

/-- One process ends. -/
theorem finish (h : Census place f n) (hp : place p = some l) :
    ∃ k, n = k + f l ∧ Census (Function.update place p none) f k := by
  obtain ⟨k, hn, hk⟩ := h.update p
  rw [hp] at hn
  exact ⟨k, hn, hk none⟩

theorem first (p : P) (l : L) : Census (Function.update (fun _ => none) p (some l)) f (f l) := by
  have hnone : Census (fun _ : P => (none : Option L)) f 0 := ⟨∅, by simp, by simp⟩
  simpa using hnone.start rfl l

end Census

end MinixCv.Lib

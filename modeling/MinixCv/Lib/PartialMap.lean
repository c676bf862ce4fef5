import Mathlib.Data.Set.Card
import Mathlib.Data.Fintype.Card
import Mathlib.Tactic.Common

/-!
# Finite Partial Maps

A partial map `K → Option V` that carries the proof that only finitely many keys
are bound.  The operations are the two that first-fit tables need:

- `set`: bind or unbind one key
- `filterMapVals`: rewrite every bound value at once, dropping some of them

`count` is the number of bound keys.
-/

namespace MinixCv.Lib

universe u v

/-- A partial map with finitely many bound keys. -/
@[ext]
structure PartialMap (K : Type u) (V : Type v) where
  get : K → Option V
  finite_dom : {k | get k ≠ none}.Finite

namespace PartialMap

variable {K : Type u} {V : Type v}

/-- The map with no bound key. -/
def empty : PartialMap K V where
  get _ := none
  finite_dom := by simp

@[simp] theorem empty_get (k : K) : (empty : PartialMap K V).get k = none := rfl

/-- Bind `k` to `o`, or unbind it when `o` is `none`. -/
def set [DecidableEq K] (f : PartialMap K V) (k : K) (o : Option V) : PartialMap K V where
  get := Function.update f.get k o
  finite_dom := by
    -- no key but `k` can have become bound
    apply (f.finite_dom.insert k).subset
    intro k' hk'
    by_cases h : k' = k
    · exact Or.inl h
    · right
      simpa [Function.update_of_ne h] using hk'

section Set

variable [DecidableEq K]

theorem set_get (f : PartialMap K V) (k k' : K) (o : Option V) :
    (f.set k o).get k' = if k' = k then o else f.get k' := by
  simp [set, Function.update_apply]

@[simp] theorem set_get_self (f : PartialMap K V) (k : K) (o : Option V) :
    (f.set k o).get k = o := by
  simp [set_get]

@[simp] theorem set_get_of_ne (f : PartialMap K V) {k k' : K} (h : k' ≠ k) (o : Option V) :
    (f.set k o).get k' = f.get k' := by
  simp [set_get, h]

theorem set_set (f : PartialMap K V) (k : K) (o o' : Option V) :
    (f.set k o).set k o' = f.set k o' := by
  apply PartialMap.ext
  exact Function.update_idem _ _ _

end Set

/-- Rewrite every bound value with `g`; keys whose value `g` drops become unbound. -/
def filterMapVals (f : PartialMap K V) (g : V → Option V) : PartialMap K V where
  get k := (f.get k).bind g
  finite_dom := by
    apply f.finite_dom.subset
    intro k hk hnone
    simp [hnone] at hk

@[simp] theorem filterMapVals_get (f : PartialMap K V) (g : V → Option V) (k : K) :
    (f.filterMapVals g).get k = (f.get k).bind g := rfl

/-- Number of bound keys. -/
noncomputable def count (f : PartialMap K V) : ℕ := {k | f.get k ≠ none}.ncard

@[simp] theorem count_empty : (empty : PartialMap K V).count = 0 := by
  simp [count]

/-- Binding a fresh key adds one to the count. -/
theorem count_set_fresh [DecidableEq K] {f : PartialMap K V} {k : K} (h : f.get k = none)
    (v : V) : (f.set k (some v)).count = f.count + 1 := by
  -- the domain grows by `k` and by nothing else
  have hdom : {k' | (f.set k (some v)).get k' ≠ none} = insert k {k' | f.get k' ≠ none} := by
    ext k'
    by_cases hk : k' = k <;> simp [set_get, hk]
  unfold count
  rw [hdom, Set.ncard_insert_of_notMem (by simp [h]) f.finite_dom]

/-- Rebinding a bound key keeps the count. -/
theorem count_set_bound [DecidableEq K] {f : PartialMap K V} {k : K} (h : f.get k ≠ none)
    (v : V) : (f.set k (some v)).count = f.count := by
  have hdom : {k' | (f.set k (some v)).get k' ≠ none} = {k' | f.get k' ≠ none} := by
    ext k'
    by_cases hk : k' = k <;> simp [set_get, hk, h]
  unfold count
  rw [hdom]

/-- A map whose bound keys are all bound in another has at most its count. -/
theorem count_le_of_dom {f g : PartialMap K V} (h : ∀ k, f.get k ≠ none → g.get k ≠ none) :
    f.count ≤ g.count :=
  Set.ncard_le_ncard h g.finite_dom

end PartialMap

end MinixCv.Lib

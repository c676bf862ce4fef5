import Mathlib.Logic.Relation
import Mathlib.Order.WellFounded
import Mathlib.Order.RelClasses
import Mathlib.Tactic.Common

/-!
# What Must Happen

A system whose own steps are mixed with steps of its surroundings.  A property is inevitable
when every path on which the system goes on reaches it, whatever is chosen on the way, and the
system never gets stuck before.

- `Inevitable`: the property is reached on every path
- `Inevitable.of_variant`: it is, if the own steps lower a variant that the others do not raise
- `Inevitable.exists_path`: the own steps alone reach it
-/

namespace MinixCv.Lib

universe u v

variable {S : Type u} {A : Type v}

/-- Whatever `others` do first, `P` holds or there is a `step` to take; and every step taken
    before `P` holds leads to a state from which `P` is inevitable. -/
inductive Inevitable (others step : S → S → Prop) (P : S → Prop) : S → Prop where
  | intro {s : S} :
      (∀ t, Relation.ReflTransGen others s t → P t ∨ ∃ u, step t u) →
      (∀ t u, Relation.ReflTransGen others s t → ¬P t → step t u → Inevitable others step P u) →
      Inevitable others step P s

namespace Inevitable

variable {others step : S → S → Prop} {P : S → Prop} {R : S → A → Prop} {s : S} {a : A}

/-- The own steps alone reach the property. -/
theorem exists_path (h : Inevitable others step P s) :
    ∃ t, Relation.ReflTransGen step s t ∧ P t := by
  induction h with
  | @intro s hgoes _ ih =>
    by_cases hs : P s
    · exact ⟨s, .refl, hs⟩
    · obtain ⟨u, hu⟩ := (hgoes s .refl).resolve_left hs
      obtain ⟨t, hsteps, ht⟩ := ih s u .refl hs hu
      exact ⟨t, .head hu hsteps, ht⟩

variable [Preorder A]

/-- What the surroundings do in any number of steps does not raise the variant either. -/
theorem variant_path (hothers : ∀ s t a, R s a → others s t → ∃ b ≤ a, R t b) (h : R s a)
    {t : S} (hpath : Relation.ReflTransGen others s t) : ∃ b ≤ a, R t b := by
  induction hpath with
  | refl => exact ⟨a, le_refl a, h⟩
  | tail _ hstep ih =>
    obtain ⟨b, hb, hR⟩ := ih
    obtain ⟨c, hc, hR'⟩ := hothers _ _ _ hR hstep
    exact ⟨c, hc.trans hb, hR'⟩

/-- **The rule of variants**, with `R s a` for a state that is known to have the variant `a`. -/
theorem of_variant [WellFoundedLT A] (hothers : ∀ s t a, R s a → others s t → ∃ b ≤ a, R t b)
    (hstep : ∀ s t a, R s a → step s t → ∃ b < a, R t b)
    (hgoes : ∀ s a, R s a → P s ∨ ∃ t, step s t) (h : R s a) : Inevitable others step P s := by
  induction a using WellFoundedLT.induction generalizing s with
  | ind a ih =>
    refine .intro (fun t ht => ?_) fun t u ht _ hu => ?_
    · obtain ⟨b, -, hR⟩ := variant_path hothers h ht
      exact hgoes _ _ hR
    · obtain ⟨b, hb, hR⟩ := variant_path hothers h ht
      obtain ⟨c, hc, hR'⟩ := hstep _ _ _ hR hu
      exact ih c (hc.trans_le hb) hR'

end Inevitable

end MinixCv.Lib

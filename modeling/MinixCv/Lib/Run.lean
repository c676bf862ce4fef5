import Mathlib.Data.List.Basic
import Mathlib.Tactic.Common

/-!
# Runs Of Labelled Transition Systems

Finite runs of a step relation, the invariant rule and the forward-simulation rule.
-/

namespace MinixCv.Lib

universe u v u' v'

variable {S : Type u} {L : Type v} {T : Type u'} {M : Type v'}

/-- `Run step s ls t`: from `s` the steps labelled `ls`, in this order, lead to `t`. -/
inductive Run (step : S → L → S → Prop) : S → List L → S → Prop where
  | nil (s : S) : Run step s [] s
  | cons {s t u : S} {l : L} {ls : List L} :
      step s l t → Run step t ls u → Run step s (l :: ls) u

namespace Run

variable {step : S → L → S → Prop}

theorem append {s t u : S} {ls ms : List L} (h₁ : Run step s ls t) (h₂ : Run step t ms u) :
    Run step s (ls ++ ms) u := by
  induction h₁ with
  | nil _ => exact h₂
  | cons hstep _ ih => exact .cons hstep (ih h₂)

theorem snoc {s t u : S} {l : L} {ls : List L} (h : Run step s ls t) (hstep : step t l u) :
    Run step s (ls ++ [l]) u :=
  h.append (.cons hstep (.nil u))

/-- **Invariant rule**: what every step preserves holds at the end of every run. -/
theorem invariant {I : S → Prop} (hpres : ∀ s l t, I s → step s l t → I t)
    {s t : S} {ls : List L} (h : Run step s ls t) (hs : I s) : I t := by
  induction h with
  | nil _ => exact hs
  | cons hstep _ ih => exact ih (hpres _ _ _ hs hstep)

/-- Weaken the step relation of a run. -/
theorem mono {step' : S → L → S → Prop} (hsub : ∀ s l t, step s l t → step' s l t)
    {s t : S} {ls : List L} (h : Run step s ls t) : Run step' s ls t := by
  induction h with
  | nil s => exact .nil s
  | cons hstep _ ih => exact .cons (hsub _ _ _ hstep) ih

/-- **Forward simulation**: when related states answer every step by an equally labelled
step into related states, every run is answered by a run. -/
theorem simulate (step' : T → M → T → Prop) {R : S → T → Prop} {f : L → M}
    (hsim : ∀ s l s' t, R s t → step s l s' → ∃ t', step' t (f l) t' ∧ R s' t')
    {s s' : S} {ls : List L} (h : Run step s ls s') {t : T} (hR : R s t) :
    ∃ t', Run step' t (ls.map f) t' ∧ R s' t' := by
  induction h generalizing t with
  | nil s => exact ⟨t, .nil t, hR⟩
  | cons hstep _ ih =>
    -- answer the first step, then the rest from the related state it leads to
    obtain ⟨t₁, hstep', hR₁⟩ := hsim _ _ _ _ hR hstep
    obtain ⟨t₂, hrun, hR₂⟩ := ih hR₁
    exact ⟨t₂, .cons hstep' hrun, hR₂⟩

end Run

end MinixCv.Lib

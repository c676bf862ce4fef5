import Mathlib.Data.List.Basic
import Mathlib.Tactic.Common

/-!
# A Program That Follows Another

Two programs with errors on two levels of a design.  The lower one follows the upper one when
both return and the results are related, or both fail in the same way; and it may give up
where the upper one has no such limit (`out`).

- `Follows.bind`, `Follows.ite`: the programs are followed part by part
- `Follows.foldlM`, `Follows.foldl`: a loop is followed round by round
-/

namespace MinixCv.Lib

universe u

variable {α β α' β' γ σ τ ε δ : Type u}

/-- The lower program follows the upper one: with related results, with errors that stand for
    each other, or by giving up. -/
inductive Follows (out : ε → Prop) (err : ε → δ → Prop) (R : α → β → Prop) :
    Except ε α → Except δ β → Prop where
  | ok {a : α} {b : β} : R a b → Follows out err R (.ok a) (.ok b)
  | error {e : ε} {d : δ} : err e d → Follows out err R (.error e) (.error d)
  | gaveUp {e : ε} (y : Except δ β) : out e → Follows out err R (.error e) y

namespace Follows

variable {out : ε → Prop} {err : ε → δ → Prop} {R : α → β → Prop} {S : α' → β' → Prop}
  {x : Except ε α} {y : Except δ β}

theorem mono {R' : α → β → Prop} (h : Follows out err R x y) (hR : ∀ a b, R a b → R' a b) :
    Follows out err R' x y := by
  cases h with
  | ok hab => exact .ok (hR _ _ hab)
  | error hed => exact .error hed
  | gaveUp y he => exact .gaveUp y he

theorem bind {f : α → Except ε α'} {g : β → Except δ β'} (h : Follows out err R x y)
    (hf : ∀ a b, R a b → Follows out err S (f a) (g b)) :
    Follows out err S (x >>= f) (y >>= g) := by
  cases h with
  | ok hab => exact hf _ _ hab
  | error hed => exact .error hed
  | gaveUp y he => exact .gaveUp (y >>= g) he

/-- The upper program has one value here. -/
theorem bind_ok {f : α → Except ε α'} {b : β} {z : Except δ β'}
    (h : Follows out err R x (.ok b)) (hf : ∀ a, R a b → Follows out err S (f a) z) :
    Follows out err S (x >>= f) z := by
  cases h with
  | ok hab => exact hf _ hab
  | gaveUp y he => exact .gaveUp z he

theorem map {f : α → α'} {g : β → β'} (h : Follows out err R x y)
    (hf : ∀ a b, R a b → S (f a) (g b)) : Follows out err S (x.map f) (y.map g) := by
  cases h with
  | ok hab => exact .ok (hf _ _ hab)
  | error hed => exact .error hed
  | gaveUp y he => exact .gaveUp (y.map g) he

/-- Both programs take the same branch. -/
theorem ite {c d : Prop} [Decidable c] [Decidable d] {x' : Except ε α} {y' : Except δ β}
    (hcd : c ↔ d) (h : d → Follows out err R x y) (h' : ¬d → Follows out err R x' y') :
    Follows out err R (if c then x else x') (if d then y else y') := by
  by_cases hd : d
  · rw [if_pos hd, if_pos (hcd.mpr hd)]
    exact h hd
  · rw [if_neg hd, if_neg (mt hcd.mp hd)]
    exact h' hd

/-- Two loops over the same list, round by round. -/
theorem foldlM {R : σ → τ → Prop} {f : σ → γ → Except ε σ} {g : τ → γ → Except δ τ} {l : List γ}
    (h : ∀ s t, R s t → ∀ c ∈ l, Follows out err R (f s c) (g t c)) {s : σ} {t : τ} (hst : R s t) :
    Follows out err R (l.foldlM f s) (l.foldlM g t) := by
  induction l generalizing s t with
  | nil => exact .ok hst
  | cons c l ih =>
    rw [List.foldlM_cons, List.foldlM_cons]
    apply bind (h s t hst c List.mem_cons_self)
    intro s' t' hst'
    exact ih (fun s t hst d hd => h s t hst d (List.mem_cons_of_mem c hd)) hst'

/-- The rounds of the upper loop cannot fail. -/
theorem foldl {R : σ → τ → Prop} {f : σ → γ → Except ε σ} {g : τ → γ → τ} {l : List γ}
    (h : ∀ s t, R s t → ∀ c ∈ l, Follows out err R (f s c) (.ok (g t c))) {s : σ} {t : τ}
    (hst : R s t) : Follows out err R (l.foldlM f s) (.ok (l.foldl g t)) := by
  induction l generalizing s t with
  | nil => exact .ok hst
  | cons c l ih =>
    rw [List.foldlM_cons, List.foldl_cons]
    apply bind_ok (h s t hst c List.mem_cons_self)
    intro s' hst'
    exact ih (fun s t hst d hd => h s t hst d (List.mem_cons_of_mem c hd)) hst'

/-- What the lower program returns, the upper one returns. -/
theorem of_ok {a : α} (h : Follows out err R (.ok a) y) : ∃ b, y = .ok b ∧ R a b := by
  cases h with
  | ok hab => exact ⟨_, rfl, hab⟩

end Follows

end MinixCv.Lib

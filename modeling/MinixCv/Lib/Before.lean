import Mathlib.Data.List.Nodup
import Mathlib.Data.List.Sublists
import Mathlib.Tactic.Common

/-!
# Standing Before Somebody In A List

`Before l a b`: somewhere in `l` there is an `a` with a `b` behind it.  In a list without
repetitions this is a strict order on the members; it is inherited by sublists in one
direction and by longer lists in the other.
-/

namespace MinixCv.Lib

universe u

variable {α : Type u} {l l' : List α} {a b : α}

/-- An `a` stands before a `b`. -/
def Before (l : List α) (a b : α) : Prop := [a, b].Sublist l

theorem Before.mono (hab : Before l a b) (h : l.Sublist l') : Before l' a b := hab.trans h

theorem Before.ne (hl : l.Nodup) (h : Before l a b) : a ≠ b := by
  have := hl.sublist h
  simpa using this

theorem before_cons (hb : b ∈ l) : Before (a :: l) a b :=
  (List.singleton_sublist.mpr hb).cons_cons a

theorem before_append (ha : a ∈ l) (hb : b ∈ l') : Before (l ++ l') a b :=
  (List.singleton_sublist.mpr ha).append (List.singleton_sublist.mpr hb)

/-- What is appended does not come to stand before members of the list. -/
theorem Before.of_append (h : Before (l ++ l') a b) (hb : b ∉ l') : Before l a b := by
  obtain ⟨l₁, l₂, heq, h₁, h₂⟩ := List.sublist_append_iff.mp h
  rcases List.eq_nil_or_concat l₂ with rfl | ⟨t, x, rfl⟩
  · rw [List.append_nil] at heq
    subst heq
    exact h₁
  · -- otherwise `b`, the last of the two, is the last of `l₂`
    have hlast : b = x := by
      have := congrArg List.getLast? heq
      simpa using this
    exact absurd (h₂.subset (by simp [hlast])) hb

theorem before_total (ha : a ∈ l) (hb : b ∈ l) (hne : a ≠ b) : Before l a b ∨ Before l b a := by
  -- whichever of the two is met first stands before the other
  induction l with
  | nil => simp at ha
  | cons x l ih =>
    rcases List.mem_cons.mp ha with rfl | ha'
    · rcases List.mem_cons.mp hb with rfl | hb'
      · exact absurd rfl hne
      · exact Or.inl (before_cons hb')
    · rcases List.mem_cons.mp hb with rfl | hb'
      · exact Or.inr (before_cons ha')
      · exact (ih ha' hb').imp (fun h => h.mono (List.sublist_cons_self _ _))
          fun h => h.mono (List.sublist_cons_self _ _)

theorem Before.asymm (hl : l.Nodup) (hab : Before l a b) : ¬ Before l b a := by
  intro hba
  induction l with
  | nil => simp [Before] at hab
  | cons x l ih =>
    have hx := (List.nodup_cons.mp hl).1
    by_cases hxa : x = a
    · subst hxa
      -- `b` before `x` would put a second `x` into the tail
      have : x ∈ l := by
        cases hba with
        | cons _ h => exact h.subset (by simp)
        | cons_cons _ h => exact absurd (hab.ne hl) (by simp)
      exact hx this
    · by_cases hxb : x = b
      · -- and `a` before `x` likewise
        subst hxb
        have : x ∈ l := by
          cases hab with
          | cons _ h => exact h.subset (by simp)
          | cons_cons _ h => exact absurd rfl hxa
        exact hx this
      · -- neither is the head, so both orders hold in the tail already
        have htail : ∀ {y z : α}, x ≠ y → Before (x :: l) y z → Before l y z := by
          intro y z hxy h
          cases h with
          | cons _ h => exact h
          | cons_cons _ h => exact absurd rfl hxy
        exact ih (List.nodup_cons.mp hl).2 (htail hxa hab) (htail hxb hba)

/-- Members of a sublist stand in it as they stand in the list. -/
theorem Before.of_sublist (hl : l.Nodup) (h : Before l a b) (hsub : l'.Sublist l) (ha : a ∈ l')
    (hb : b ∈ l') : Before l' a b := by
  rcases before_total ha hb (h.ne hl) with hab | hba
  · exact hab
  · exact absurd (hba.mono hsub) (h.asymm hl)

theorem Before.eraseP {p : α → Bool} (h : Before l a b) (ha : p a = false) (hb : p b = false) :
    Before (l.eraseP p) a b := by
  have := List.Sublist.eraseP (p := p) h
  simpa [Before, ha, hb] using this

theorem Before.filter_map {β : Type*} {p : α → Bool} {f : α → β} (h : Before l a b)
    (ha : p a = true) (hb : p b = true) : Before ((l.filter p).map f) (f a) (f b) := by
  have := (List.Sublist.filter p h).map f
  simpa [Before, ha, hb] using this

end MinixCv.Lib

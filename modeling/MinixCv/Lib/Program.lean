import Mathlib.Data.List.Basic

/-!
# Programs With A State And Errors

`Ensures` is partial correctness for `StateT σ (Except ε)` seen through a view: started
where the view is `v`, the program ends with a result and a view in `Φ`, or with an error
that is allowed.  What the view does not show may change at will, so a program that only
touches hidden parts is `Silent`, and silent programs drop out of a proof.
-/

namespace MinixCv.Lib

variable {σ ε V α β : Type} (view : σ → V) (E : ε → Prop)

/-- From every state with view `v`, `m` ends in `Φ` or with an error of `E`. -/
def Ensures (m : StateT σ (Except ε) α) (v : V) (Φ : α → V → Prop) : Prop :=
  ∀ s, view s = v →
    match m s with
    | .ok (a, s') => Φ a (view s')
    | .error e => E e

/-- `m` never changes the view. -/
def Silent (m : StateT σ (Except ε) α) : Prop :=
  ∀ v, Ensures view E m v fun _ v' => v' = v

/-- `if (c) m;` -/
def when (c : Prop) [Decidable c] (m : StateT σ (Except ε) Unit) : StateT σ (Except ε) Unit :=
  if c then m else pure ()

/-- The state after a program, if it returns. -/
def after (m : StateT σ (Except ε) Unit) (s : σ) : Option σ :=
  match m s with
  | .ok (_, s') => some s'
  | .error _ => none

variable {view E}

/-! ## §1 Results of a run -/

theorem run_eq_of_after {m : StateT σ (Except ε) Unit} {s s' : σ} (h : after m s = some s') :
    m s = .ok ((), s') := by
  unfold after at h
  cases hm : m s with
  | ok result =>
    rw [hm] at h
    cases h
    rfl
  | error e =>
    rw [hm] at h
    exact nomatch h

theorem Ensures.of_ok {m : StateT σ (Except ε) α} {Φ : α → V → Prop} {s s' : σ} {a : α}
    (h : Ensures view E m (view s) Φ) (hrun : m s = .ok (a, s')) : Φ a (view s') := by
  have hs := h s rfl
  rw [hrun] at hs
  exact hs

theorem Ensures.of_error {m : StateT σ (Except ε) α} {Φ : α → V → Prop} {s : σ} {e : ε}
    (h : Ensures view E m (view s) Φ) (hrun : m s = .error e) : E e := by
  have hs := h s rfl
  rw [hrun] at hs
  exact hs

theorem bind_apply (m : StateT σ (Except ε) α) (f : α → StateT σ (Except ε) β) (s : σ) :
    (m >>= f) s =
      match m s with
      | .ok (a, s') => f a s'
      | .error e => .error e := by
  change (m s >>= fun p => f p.1 p.2) = _
  cases m s with
  | ok p => rfl
  | error e => rfl

/-! ## §2 Rules -/

namespace Ensures

variable {m : StateT σ (Except ε) α} {f : α → StateT σ (Except ε) β} {v : V}

theorem mono {Φ Ψ : α → V → Prop} (h : Ensures view E m v Φ) (hΦ : ∀ a v', Φ a v' → Ψ a v') :
    Ensures view E m v Ψ := by
  intro s hs
  have h := h s hs
  cases hm : m s with
  | ok p =>
    rw [hm] at h
    exact hΦ p.1 _ h
  | error e =>
    rw [hm] at h
    exact h

protected theorem pure {a : α} {Φ : α → V → Prop} (h : Φ a v) :
    Ensures view E (Pure.pure a) v Φ := by
  intro s hs
  change Φ a (view s)
  rw [hs]
  exact h

protected theorem throw {e : ε} {Φ : α → V → Prop} (h : E e) :
    Ensures view E (throw e : StateT σ (Except ε) α) v Φ := by
  intro s _
  exact h

/-- The second program starts from whatever view the first one leaves. -/
protected theorem bind {Φ : α → V → Prop} {Ψ : β → V → Prop} (hm : Ensures view E m v Φ)
    (hf : ∀ a v', Φ a v' → Ensures view E (f a) v' Ψ) : Ensures view E (m >>= f) v Ψ := by
  intro s hs
  have hm := hm s hs
  rw [bind_apply]
  cases h : m s with
  | ok p =>
    rw [h] at hm
    exact hf p.1 _ hm p.2 rfl
  | error e =>
    rw [h] at hm
    exact hm

protected theorem ite {c : Prop} [Decidable c] {m' : StateT σ (Except ε) α}
    {Φ : α → V → Prop} (h : c → Ensures view E m v Φ) (h' : ¬c → Ensures view E m' v Φ) :
    Ensures view E (if c then m else m') v Φ := by
  split
  · exact h ‹_›
  · exact h' ‹_›

protected theorem when {c : Prop} [Decidable c] {m : StateT σ (Except ε) Unit}
    {Φ : Unit → V → Prop} (h : c → Ensures view E m v Φ) (h' : ¬c → Φ () v) :
    Ensures view E (when c m) v Φ := by
  unfold MinixCv.Lib.when
  apply Ensures.ite h
  intro hc
  exact .pure (h' hc)

/-- A loop over a list keeps what every round keeps. -/
protected theorem forM {I : V → Prop} {g : β → StateT σ (Except ε) Unit} {l : List β}
    (h : ∀ b ∈ l, ∀ v, I v → Ensures view E (g b) v fun _ => I) (hv : I v) :
    Ensures view E (l.forM g) v fun _ => I := by
  induction l generalizing v with
  | nil => exact .pure hv
  | cons b l ih =>
    apply Ensures.bind (h b List.mem_cons_self v hv)
    intro _ v' hv'
    exact ih (fun c hc => h c (List.mem_cons_of_mem b hc)) hv'

end Ensures

/-! ## §3 Silent programs -/

namespace Silent

variable {m : StateT σ (Except ε) α} {f : α → StateT σ (Except ε) β} {v : V}

protected theorem pure (a : α) : Silent view E (Pure.pure a : StateT σ (Except ε) α) := by
  intro v
  exact .pure rfl

protected theorem throw {e : ε} (h : E e) :
    Silent view E (throw e : StateT σ (Except ε) α) := by
  intro v
  exact .throw h

protected theorem bind (hm : Silent view E m) (hf : ∀ a, Silent view E (f a)) :
    Silent view E (m >>= f) := by
  intro v
  apply Ensures.bind (hm v)
  intro a v' hv'
  rw [hv']
  exact hf a v

protected theorem ite {c : Prop} [Decidable c] {m' : StateT σ (Except ε) α}
    (h : Silent view E m) (h' : Silent view E m') : Silent view E (if c then m else m') := by
  intro v
  exact .ite (fun _ => h v) fun _ => h' v

protected theorem when {c : Prop} [Decidable c] {m : StateT σ (Except ε) Unit}
    (h : Silent view E m) : Silent view E (when c m) :=
  .ite h (.pure ())

protected theorem forM {g : β → StateT σ (Except ε) Unit} {l : List β}
    (h : ∀ b, Silent view E (g b)) : Silent view E (l.forM g) := by
  intro v
  apply Ensures.forM (I := (· = v))
  · intro b _ v' hv'
    rw [hv']
    exact h b v
  · rfl

/-- In front of another program a silent one can be dropped. -/
theorem andThen {Φ : β → V → Prop} (hm : Silent view E m)
    (hf : ∀ a, Ensures view E (f a) v Φ) : Ensures view E (m >>= f) v Φ := by
  apply Ensures.bind (hm v)
  intro a v' hv'
  rw [hv']
  exact hf a

theorem keeps {I : V → Prop} (hm : Silent view E m) (hv : I v) :
    Ensures view E m v fun _ => I := by
  apply (hm v).mono
  intro _ v' hv'
  rw [hv']
  exact hv

end Silent

end MinixCv.Lib

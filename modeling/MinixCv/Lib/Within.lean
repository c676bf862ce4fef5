import MinixCv.Lib.Program
import Mathlib.Order.Defs.Unbundled

/-!
# Programs That Stay Within A Preorder

`Leads` is partial correctness at one state.  A program is `Within` a preorder when every
state it returns lies above the state it was started in, as a program is that is put together
from such programs.

- `Leads.bind`, `Leads.forM`: what holds at the end, step by step
- `Leads.climb`: one step of a program that stays within a preorder from this state on
- `Within.bind`, `Within.forM`: the parts stay within it, so the whole does
-/

namespace MinixCv.Lib

variable {σ ε V α β : Type}

/-- If `m` returns from `s`, it does so in `Φ`. -/
structure Leads (m : StateT σ (Except ε) α) (s : σ) (Φ : α → σ → Prop) : Prop where
  result : ∀ a s', m s = .ok (a, s') → Φ a s'

/-- From every state `m` returns to one above it. -/
def Within (R : σ → σ → Prop) (m : StateT σ (Except ε) α) : Prop :=
  ∀ s, Leads m s fun _ s' => R s s'

/-! ## §1 One state -/

namespace Leads

variable {m : StateT σ (Except ε) α} {f : α → StateT σ (Except ε) β} {s : σ}

theorem mono {Φ Ψ : α → σ → Prop} (h : Leads m s Φ) (hΦ : ∀ a s', Φ a s' → Ψ a s') :
    Leads m s Ψ :=
  ⟨fun a s' hm => hΦ a s' (h.result a s' hm)⟩

protected theorem pure {a : α} {Φ : α → σ → Prop} (h : Φ a s) :
    Leads (Pure.pure a : StateT σ (Except ε) α) s Φ := by
  constructor
  intro b s' hm
  cases hm
  exact h

protected theorem throw {e : ε} {Φ : α → σ → Prop} :
    Leads (throw e : StateT σ (Except ε) α) s Φ := by
  constructor
  intro b s' hm
  exact nomatch hm

protected theorem bind {Φ : α → σ → Prop} {Ψ : β → σ → Prop} (hm : Leads m s Φ)
    (hf : ∀ a s', Φ a s' → Leads (f a) s' Ψ) : Leads (m >>= f) s Ψ := by
  constructor
  intro b s'' hrun
  rw [bind_apply] at hrun
  cases h : m s with
  | ok p =>
    rw [h] at hrun
    exact (hf p.1 p.2 (hm.result p.1 p.2 h)).result b s'' hrun
  | error e =>
    rw [h] at hrun
    exact nomatch hrun

protected theorem ite {c : Prop} [Decidable c] {m' : StateT σ (Except ε) α} {Φ : α → σ → Prop}
    (h : c → Leads m s Φ) (h' : ¬c → Leads m' s Φ) : Leads (if c then m else m') s Φ := by
  split
  · exact h ‹_›
  · exact h' ‹_›

protected theorem when {c : Prop} [Decidable c] {m : StateT σ (Except ε) Unit}
    {Φ : Unit → σ → Prop} (h : c → Leads m s Φ) (h' : ¬c → Φ () s) : Leads (when c m) s Φ := by
  unfold MinixCv.Lib.when
  apply Leads.ite h
  intro hc
  exact .pure (h' hc)

/-- What the program ensures of the view, it leads to. -/
theorem of_ensures {view : σ → V} {E : ε → Prop} {Φ : α → V → Prop}
    (h : Ensures view E m (view s) Φ) : Leads m s fun a s' => Φ a (view s') :=
  ⟨fun _ _ hm => h.of_ok hm⟩

theorem and {Φ Ψ : α → σ → Prop} (h : Leads m s Φ) (h' : Leads m s Ψ) :
    Leads m s fun a s' => Φ a s' ∧ Ψ a s' :=
  ⟨fun a s' hm => ⟨h.result a s' hm, h'.result a s' hm⟩⟩

/-- A loop: `I l` holds when the rounds of `l` are over. -/
protected theorem forM {I : List β → σ → Prop} {g : β → StateT σ (Except ε) Unit} {l : List β}
    (h : ∀ b ∈ l, ∀ done s, I done s → Leads (g b) s fun _ s' => I (b :: done) s')
    {done : List β} (hs : I done s) :
    Leads (l.forM g) s fun _ s' => I (l.reverse ++ done) s' := by
  induction l generalizing s done with
  | nil => exact .pure hs
  | cons b l ih =>
    apply Leads.bind (h b List.mem_cons_self done s hs)
    intro _ s' hs'
    have hrest := ih (fun c hc => h c (List.mem_cons_of_mem b hc)) hs'
    simpa only [List.reverse_cons, List.append_assoc, List.cons_append, List.nil_append] using hrest

/-- A step up, and on from there. -/
theorem climb {R : σ → σ → Prop} [IsTrans σ R] {Φ : α → σ → Prop}
    (hm : Leads m s fun a s₁ => R s s₁ ∧ Φ a s₁)
    (hf : ∀ a s₁, R s s₁ → Φ a s₁ → Leads (f a) s₁ fun _ s₂ => R s₁ s₂) :
    Leads (m >>= f) s fun _ s' => R s s' := by
  apply Leads.bind hm
  intro a s₁ hpost
  obtain ⟨h₁, hΦ⟩ := hpost
  apply (hf a s₁ h₁ hΦ).mono
  intro _ s₂ h₂
  exact Trans.trans h₁ h₂

end Leads

/-! ## §2 Every state -/

namespace Within

variable {R : σ → σ → Prop} {m : StateT σ (Except ε) α} {f : α → StateT σ (Except ε) β}

protected theorem throw {e : ε} : Within R (throw e : StateT σ (Except ε) α) :=
  fun _ => .throw

protected theorem pure [Std.Refl R] (a : α) : Within R (Pure.pure a : StateT σ (Except ε) α) :=
  fun s => .pure (Std.Refl.refl s)

protected theorem ite {c : Prop} [Decidable c] {m' : StateT σ (Except ε) α} (h : Within R m)
    (h' : Within R m') : Within R (if c then m else m') :=
  fun s => .ite (fun _ => h s) fun _ => h' s

protected theorem when [Std.Refl R] {c : Prop} [Decidable c] {m : StateT σ (Except ε) Unit}
    (h : c → Within R m) : Within R (when c m) :=
  fun s => .when (fun hc => h hc s) fun _ => Std.Refl.refl s

protected theorem bind [IsTrans σ R] (hm : Within R m) (hf : ∀ a, Within R (f a)) :
    Within R (m >>= f) := by
  intro s
  apply Leads.climb ((hm s).mono fun _ _ h => ⟨h, trivial⟩)
  intro a s₁ _ _
  exact hf a s₁

protected theorem forM [Std.Refl R] [IsTrans σ R] {g : β → StateT σ (Except ε) Unit} {l : List β}
    (h : ∀ b, Within R (g b)) : Within R (l.forM g) := by
  induction l with
  | nil => exact .pure ()
  | cons b l ih => exact .bind (h b) fun _ => ih

end Within

end MinixCv.Lib

import MinixCv.LockManager.Moves
import MinixCv.Server.Runs

/-!
# No Lost Wake-Up

An accepted `cs_wait` releases the mutex and registers its caller within one message.
`no_lost_wakeup` follows the registration through the rest of the run: it stays until a
broadcast of its condition or a notification about the process, and the broadcast leaves
the process with its mutex or in the queue for it.
-/

namespace MinixCv.Server

open MinixCv.Lib MinixCv.LockManager

/-- The messages that may take `p` off condition `numerCv`: a broadcast of the condition, or
    a notification about `p`. -/
def TakesOff (p numerCv : ℤ) (m : Message) : Prop :=
  (∃ b, m.request = .broadcast b numerCv) ∨ m.request = .interrupt p ∨ m.request = .exit p

section Wakeup

variable [Minix] {c c' : Config} {p numerCv k : ℤ}

/-- **Step lemma**: any other message leaves the registration in place. -/
theorem registered_step (hc : Inv c) {l : Message × List Reply} (h : Step c l c')
    (hreg : c.server.Registered p numerCv k) (htake : ¬ TakesOff p numerCv l.1) :
    c'.server.Registered p numerCv k := by
  obtain ⟨hnext, hrep⟩ := h.manager hc
  rw [registered_iff (h.inv hc).tables, hnext]
  rcases Manager.next_waiters hrep ((registered_iff hc.tables).mp hreg) with
    hstay | ⟨hb, _⟩ | hr | hr
  · exact hstay
  · exact absurd (Or.inl hb) htake
  · exact absurd (Or.inr (Or.inl hr)) htake
  · exact absurd (Or.inr (Or.inr hr)) htake

/-- **Run lemma**: the registration survives any run without such a message. -/
theorem registered_run {ls : List (Message × List Reply)} (h : Run Step c ls c') (hc : Inv c)
    (hreg : c.server.Registered p numerCv k) (htake : ∀ l ∈ ls, ¬ TakesOff p numerCv l.1) :
    Inv c' ∧ c'.server.Registered p numerCv k := by
  induction h with
  | nil c => exact ⟨hc, hreg⟩
  | cons hstep _ ih =>
    exact ih (hstep.inv hc) (registered_step hc hstep hreg (htake _ List.mem_cons_self))
      fun l hl => htake l (List.mem_cons_of_mem _ hl)

/-- A wait that is not refused is the owner's. -/
theorem owns_of_accepted (hc : Inv c) {m : Message} {out : List Reply} (h : Step c (m, out) c')
    (hr : m.request = .wait p numerCv k) (hacc : ⟨-EINVAL, p⟩ ∉ out) :
    (abs c.server).Owns p k := by
  by_contra hno
  obtain ⟨-, hrep⟩ := h.manager hc
  simp only [hr, Manager.Replies, Manager.wait_of_not_owns hno] at hrep
  exact hacc (by simp [hrep])

/-- A wait that is not refused registers its sender. -/
theorem registered_of_accepted (hc : Inv c) {m : Message} {out : List Reply}
    (h : Step c (m, out) c') (hr : m.request = .wait p numerCv k) (hacc : ⟨-EINVAL, p⟩ ∉ out) :
    c'.server.Registered p numerCv k := by
  have hown := owns_of_accepted hc h hr hacc
  rw [registered_iff (h.inv hc).tables, (h.manager hc).1]
  simp only [hr, Manager.next, Manager.wait_waiters hown, if_true]
  exact List.mem_append_right _ (by simp)

/-- **No lost wake-up**: when a wait of `p` on a condition with mutex `k` is accepted, `p` is
the only owner of `k` before the message, and after it `p` has released `k` and is
registered.  As long as no broadcast of the condition and no notification about `p` is
handled, `p` stays registered, whatever else happens and whoever acquires `k`; the first
broadcast of the condition leaves `p` the owner of `k` with `0` sent to it, or in the queue
of `k`, and leaves nobody registered. -/
theorem no_lost_wakeup (hc : Reachable c) {m : Message} {out : List Reply} {c₁ : Config}
    (h : Step c (m, out) c₁) (hr : m.request = .wait p numerCv k) (hacc : ⟨-EINVAL, p⟩ ∉ out) :
    (∀ q, c.server.Owns q k ↔ q = p) ∧ ¬ c₁.server.Owns p k ∧
      c₁.server.Registered p numerCv k ∧
      ∀ ls c₂, Run Step c₁ ls c₂ → (∀ l ∈ ls, ¬ TakesOff p numerCv l.1) →
        c₂.server.Registered p numerCv k ∧
        ∀ b out' c₃, Step c₂ (b, out') c₃ → (∃ q, b.request = .broadcast q numerCv) →
          ((c₃.server.Owns p k ∧ ⟨0, p⟩ ∈ out') ∨ c₃.server.Queued p k) ∧
          ∀ q k', ¬ c₃.server.Registered q numerCv k' := by
  have hinv := hc.inv
  have hinv₁ := h.inv hinv
  have hown := owns_of_accepted hinv h hr hacc
  have hreg := registered_of_accepted hinv h hr hacc
  refine ⟨fun q => ⟨fun hq => ((owns_iff hinv.tables).mp hq).unique hown, ?_⟩, ?_, hreg, ?_⟩
  · intro heq
    subst heq
    exact (owns_iff hinv.tables).mpr hown
  · rw [owns_iff hinv₁.tables]
    exact hinv₁.manager.waiter_not_owner ((registered_iff hinv₁.tables).mp hreg)
  · intro ls c₂ hrun htake
    obtain ⟨hinv₂, hreg₂⟩ := registered_run hrun hinv₁ hreg htake
    refine ⟨hreg₂, ?_⟩
    intro b out' c₃ hb hex
    obtain ⟨q, hq⟩ := hex
    obtain ⟨hnext₃, hrep₃⟩ := hb.manager hinv₂
    have hs₃ := (hb.inv hinv₂).tables
    -- the broadcast empties the condition
    have hempty : (abs c₃.server).waiters numerCv = [] := by
      simp only [hnext₃, hq, Manager.next, Manager.broadcast_waiters, if_true]
    have hnone : ∀ q k', ¬ c₃.server.Registered q numerCv k' := by
      intro q k' hreg'
      rw [registered_iff hs₃, hempty] at hreg'
      simp at hreg'
    refine ⟨?_, hnone⟩
    rw [owns_iff hs₃, queued_iff hs₃, hnext₃]
    rcases Manager.next_waiters hrep₃ ((registered_iff hinv₂.tables).mp hreg₂) with
      hstay | ⟨_, hwoken⟩ | hr' | hr'
    · rw [← hnext₃, hempty] at hstay
      simp at hstay
    · exact hwoken
    · simp [hq] at hr'
    · simp [hq] at hr'

end Wakeup

/-- The owner of mutex 7 waits on condition 5 and is registered there. -/
theorem no_lost_wakeup_first_wait :
    letI := Minix.v321
    ∃ c c₁, Reachable c ∧ Step c (⟨1, CS_WAIT, 7, 5⟩, []) c₁ ∧ c₁.server.Registered 1 5 7 := by
  let _ := Minix.v321
  obtain ⟨c, h⟩ := shows_owned 1 7
  obtain ⟨c₁, hstep, -⟩ := h.wait_alone (p := 1) (m := 7) (k := 5)
    (by simp [waiting_single_iff]) (by simp) rfl (by simp [MAX_CV])
  exact ⟨c, c₁, h.reachable, hstep,
    (no_lost_wakeup h.reachable hstep (request_wait 1 7 5) (by simp)).2.2.1⟩

end MinixCv.Server

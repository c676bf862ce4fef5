import MinixCv.LockManager.Fifo
import MinixCv.Lib.Local

/-!
# What A Request Reads And Writes

The footprint of a request: a mutex for `lock` and `unlock`, a mutex and a condition for
`wait`, a condition and the mutexes of its waiters for `broadcast`.

- `next_localAt`: a request is local to its footprint
- `next_comm`: requests with disjoint footprints commute
- `replies_congr`, `replies_recipient`: replies depend on the footprint, and go to the sender
  or to somebody listed in the footprint
-/

namespace MinixCv.LockManager.Manager

open MinixCv.Lib MinixCv.Server

variable {a b : Manager}

/-! ## §1 Cells -/

/-- What is bound to a mutex number or to a condition number. -/
def cell (a : Manager) : ℤ ⊕ ℤ → Option (ℤ × List ℤ) ⊕ Option (List (ℤ × ℤ))
  | .inl m => .inl (a.mutexes.get m)
  | .inr c => .inr (a.conditions.get c)

/-- The numbers that a request reads or writes.  A notification may reach everything. -/
def footprint (a : Manager) : Request → Set (ℤ ⊕ ℤ)
  | .lock _ m | .unlock _ m => {.inl m}
  | .wait _ c m => {.inl m, .inr c}
  | .broadcast _ c => {k | k = .inr c ∨ ∃ w ∈ a.waiters c, k = .inl w.2}
  | .interrupt _ | .exit _ => Set.univ
  | .bad _ => ∅

theorem ext_cell (h : ∀ k, a.cell k = b.cell k) : a = b := by
  apply Manager.ext
  · apply PartialMap.ext
    funext m
    simpa [cell] using h (.inl m)
  · apply PartialMap.ext
    funext c
    simpa [cell] using h (.inr c)

/-- Two states agree on a set of cells. -/
def AgreeOn (F : Set (ℤ ⊕ ℤ)) (a b : Manager) : Prop := ∀ k ∈ F, a.cell k = b.cell k

theorem AgreeOn.mutex {F : Set (ℤ ⊕ ℤ)} (h : AgreeOn F a b) {m : ℤ} (hm : .inl m ∈ F) :
    a.mutexes.get m = b.mutexes.get m := by
  simpa [cell] using h _ hm

theorem AgreeOn.condition {F : Set (ℤ ⊕ ℤ)} (h : AgreeOn F a b) {c : ℤ} (hc : .inr c ∈ F) :
    a.conditions.get c = b.conditions.get c := by
  simpa [cell] using h _ hc

theorem AgreeOn.waiters {F : Set (ℤ ⊕ ℤ)} (h : AgreeOn F a b) {c : ℤ} (hc : .inr c ∈ F) :
    a.waiters c = b.waiters c := by
  simp [Manager.waiters, h.condition hc]

/-! ## §2 Operations, cell by cell -/

section Operations

variable [Minix] {F : Set (ℤ ⊕ ℤ)}

theorem lock_cell_of_ne {p m : ℤ} {k : ℤ ⊕ ℤ} (hk : k ≠ .inl m) :
    (a.lock p m).1.cell k = a.cell k := by
  cases k with
  | inl n => simp [cell, lock_get_of_ne (fun h => hk (h ▸ rfl) : n ≠ m)]
  | inr c => simp [cell]

theorem unlock_cell_of_ne {p m : ℤ} {k : ℤ ⊕ ℤ} (hk : k ≠ .inl m) :
    (a.unlock p m).1.cell k = a.cell k := by
  cases k with
  | inl n =>
    have hn : n ≠ m := fun h => hk (h ▸ rfl)
    obtain ⟨-, h⟩ | ⟨-, h⟩ | ⟨_, _, -, h⟩ := a.unlock_cases p m <;> simp [cell, h, hn]
  | inr c => simp [cell]

/-- `lock` keeps the agreement of two states on a set with its mutex, and answers alike. -/
theorem AgreeOn.lock (h : AgreeOn F a b) {p m : ℤ} (hm : .inl m ∈ F) :
    AgreeOn F (a.lock p m).1 (b.lock p m).1 ∧ (a.lock p m).2 = (b.lock p m).2 := by
  have hget := h.mutex hm
  refine ⟨fun k hk => ?_, ?_⟩
  · -- the cell of the mutex is computed from itself, the others are not touched
    by_cases hkm : k = .inl m
    · subst hkm
      simp only [cell, Manager.lock, hget]
      cases hb : b.mutexes.get m with
      | none => simp
      | some x =>
        obtain ⟨o, q⟩ := x
        by_cases ho : o = p <;> simp [ho, hget, hb]
    · rw [lock_cell_of_ne hkm, lock_cell_of_ne hkm, h k hk]
  · simp only [Manager.lock, hget]
    cases b.mutexes.get m with
    | none => rfl
    | some x => dsimp only; split_ifs <;> rfl

/-- `unlock` keeps the agreement of two states on a set with its mutex, and answers alike. -/
theorem AgreeOn.unlock (h : AgreeOn F a b) {p m : ℤ} (hm : .inl m ∈ F) :
    AgreeOn F (a.unlock p m).1 (b.unlock p m).1 ∧ (a.unlock p m).2 = (b.unlock p m).2 := by
  have hget := h.mutex hm
  refine ⟨fun k hk => ?_, ?_⟩
  · -- likewise for the cell of the mutex that is given back
    by_cases hkm : k = .inl m
    · subst hkm
      simp only [cell, Manager.unlock, hget]
      cases hb : b.mutexes.get m with
      | none => simp [hget, hb]
      | some x =>
        obtain ⟨o, q⟩ := x
        by_cases ho : o = p
        · cases q <;> simp [ho]
        · simp [ho, hget, hb]
    · rw [unlock_cell_of_ne hkm, unlock_cell_of_ne hkm, h k hk]
  · simp only [Manager.unlock, hget]
    cases b.mutexes.get m with
    | none => rfl
    | some x =>
      obtain ⟨o, q⟩ := x
      by_cases ho : o = p
      · cases q <;> simp [ho]
      · simp [ho]

theorem wake_cell_of_ne {ws : List (ℤ × ℤ)} {k : ℤ ⊕ ℤ} (hk : ∀ w ∈ ws, k ≠ .inl w.2) :
    (a.wake ws).1.cell k = a.cell k := by
  induction ws generalizing a with
  | nil => rfl
  | cons w ws ih =>
    rw [wake, ih fun w' hw' => hk w' (List.mem_cons_of_mem _ hw'),
      lock_cell_of_ne (hk w (by simp))]

/-- Waking keeps the agreement on a set with all the wanted mutexes, and answers alike. -/
theorem AgreeOn.wake (h : AgreeOn F a b) {ws : List (ℤ × ℤ)} (hws : ∀ w ∈ ws, .inl w.2 ∈ F) :
    AgreeOn F (a.wake ws).1 (b.wake ws).1 ∧ (a.wake ws).2 = (b.wake ws).2 := by
  induction ws generalizing a b with
  | nil => exact ⟨h, rfl⟩
  | cons w ws ih =>
    obtain ⟨hstate, hreply⟩ := h.lock (p := w.1) (hws w (by simp))
    obtain ⟨hstate', hreply'⟩ := ih hstate fun w' hw' => hws w' (List.mem_cons_of_mem _ hw')
    exact ⟨hstate', by rw [Manager.wake, Manager.wake, hreply, hreply']⟩

omit [Minix] in
theorem register_cell_of_ne {p c m : ℤ} {k : ℤ ⊕ ℤ} (hk : k ≠ .inr c) :
    (a.register p c m).cell k = a.cell k := by
  cases k with
  | inl n => rfl
  | inr d =>
    have hd : d ≠ c := fun h => hk (h ▸ rfl)
    simp [cell, Manager.register, hd]

omit [Minix] in
theorem forget_cell_of_ne {c : ℤ} {k : ℤ ⊕ ℤ} (hk : k ≠ .inr c) :
    (a.forget c).cell k = a.cell k := by
  cases k with
  | inl n => rfl
  | inr d =>
    have hd : d ≠ c := fun h => hk (h ▸ rfl)
    simp [cell, Manager.forget, hd]

omit [Minix] in
/-- Entering a waiter keeps the agreement on a set with its condition. -/
theorem AgreeOn.register (h : AgreeOn F a b) {p c m : ℤ} (hc : .inr c ∈ F) :
    AgreeOn F (a.register p c m) (b.register p c m) := by
  intro k hk
  by_cases hkc : k = .inr c
  · subst hkc
    simp [cell, Manager.register, h.waiters hc]
  · rw [register_cell_of_ne hkc, register_cell_of_ne hkc, h k hk]

omit [Minix] in
theorem AgreeOn.owns_iff (h : AgreeOn F a b) {p m : ℤ} (hm : .inl m ∈ F) :
    a.Owns p m ↔ b.Owns p m := by
  simp [Owns, h.mutex hm]

omit [Minix] in
theorem AgreeOn.forget (h : AgreeOn F a b) (c : ℤ) : AgreeOn F (a.forget c) (b.forget c) := by
  intro k hk
  by_cases hkc : k = .inr c
  · subst hkc
    simp [cell, Manager.forget]
  · rw [forget_cell_of_ne hkc, forget_cell_of_ne hkc, h k hk]

/-! ## §3 Requests -/

/-- What a request does to its footprint, and what it replies, depends on its footprint. -/
theorem next_congr {r : Request} (h : AgreeOn (a.footprint r) b a) :
    AgreeOn (a.footprint r) (b.next r) (a.next r) ∧
      ∀ out, b.Replies r out ↔ a.Replies r out := by
  cases r with
  | lock p m =>
    obtain ⟨hstate, hreply⟩ := h.lock (p := p) (m := m) (by simp [footprint])
    exact ⟨hstate, fun out => by rw [Replies, Replies, hreply]⟩
  | unlock p m =>
    obtain ⟨hstate, hreply⟩ := h.unlock (p := p) (m := m) (by simp [footprint])
    exact ⟨hstate, fun out => by rw [Replies, Replies, hreply]⟩
  | wait p c m =>
    -- the mutex and the condition variable are both in the footprint
    have hm : .inl m ∈ a.footprint (.wait p c m) := by simp [footprint]
    have hc : .inr c ∈ a.footprint (.wait p c m) := by simp [footprint]
    by_cases ho : a.Owns p m
    · obtain ⟨hstate, hreply⟩ := h.unlock (p := p) hm
      simp only [next, Replies, wait_of_owns ho, wait_of_owns ((h.owns_iff hm).mpr ho), hreply,
        implies_true, and_true]
      exact hstate.register hc
    · have ho' : ¬ b.Owns p m := fun h' => ho ((h.owns_iff hm).mp h')
      simp only [next, Replies, wait_of_not_owns ho, wait_of_not_owns ho', implies_true, and_true]
      exact h
  | broadcast p c =>
    have hwaiters : b.waiters c = a.waiters c := h.waiters (Or.inl rfl)
    -- the waiters, and so the mutexes they take, are the same in both states
    have hrelocks : ∀ w ∈ a.waiters c, .inl w.2 ∈ a.footprint (.broadcast p c) :=
      fun w hw => Or.inr ⟨w, hw, rfl⟩
    obtain ⟨hstate, hreply⟩ := (h.forget c).wake hrelocks
    simp only [next, Replies, broadcast_eq, hwaiters, hreply, implies_true, and_true]
    exact hstate
  | interrupt p =>
    -- a notification may touch every cell
    obtain rfl : b = a := ext_cell fun k => h k (Set.mem_univ k)
    exact ⟨fun _ _ => rfl, fun _ => Iff.rfl⟩
  | exit p =>
    obtain rfl : b = a := ext_cell fun k => h k (Set.mem_univ k)
    exact ⟨fun _ _ => rfl, fun _ => Iff.rfl⟩
  | bad p => exact ⟨h, fun _ => Iff.rfl⟩

/-- Outside its footprint a request changes nothing. -/
theorem next_cell_of_not_mem {r : Request} {k : ℤ ⊕ ℤ} (hk : k ∉ a.footprint r) :
    (a.next r).cell k = a.cell k := by
  cases r with
  | lock p m => exact lock_cell_of_ne hk
  | unlock p m => exact unlock_cell_of_ne hk
  | wait p c m =>
    simp only [footprint, Set.mem_insert_iff, Set.mem_singleton_iff, not_or] at hk
    by_cases ho : a.Owns p m
    · rw [next, wait_of_owns ho, register_cell_of_ne hk.2, unlock_cell_of_ne hk.1]
    · rw [next, wait_of_not_owns ho]
  | broadcast p c =>
    simp only [footprint, Set.mem_ofPred_eq, not_or, not_exists, not_and] at hk
    rw [next, broadcast_eq, wake_cell_of_ne hk.2, forget_cell_of_ne hk.1]
  | interrupt p => exact absurd (Set.mem_univ k) hk
  | exit p => exact absurd (Set.mem_univ k) hk
  | bad p => rfl

omit [Minix] in
/-- The footprint of a request can be read off the cells in it. -/
theorem footprint_congr {r : Request} (h : AgreeOn (a.footprint r) b a) :
    b.footprint r = a.footprint r := by
  cases r with
  | broadcast p c =>
    have hwaiters : b.waiters c = a.waiters c := h.waiters (Or.inl rfl)
    simp only [footprint, hwaiters]
  | _ => rfl

/-- **Locality**: a request is local to its footprint. -/
theorem next_localAt (a : Manager) (r : Request) :
    LocalAt cell (a.footprint r) (fun b => b.next r) a where
  outside b h k hk := next_cell_of_not_mem (by rwa [footprint_congr h])
  inside b h k hk := (next_congr h).1 k hk

/-- **Requests with disjoint footprints commute.** -/
theorem next_comm {r r' : Request} (hd : Disjoint (a.footprint r) (a.footprint r')) :
    (a.next r').next r = (a.next r).next r' :=
  ext_cell ((next_localAt a r).comm (next_localAt a r') hd)

/-- Whoever is answered is the sender or is listed in the footprint. -/
theorem replies_recipient {r : Request} {out : List Reply} (hrep : a.Replies r out) {x : Reply}
    (hx : x ∈ out) (hr : r.sender ≠ none) :
    r.sender = some x.dokad ∨ ∃ k ∈ a.footprint r, x.dokad ∈ a.place k := by
  -- an unlock tells the first in the queue
  have hunlock : ∀ {p m}, x ∈ (a.unlock p m).2.1 → x.dokad ∈ a.place (.inl m) := by
    intro p m h
    obtain ⟨-, h'⟩ | ⟨-, h'⟩ | ⟨y, t, hm, h'⟩ := a.unlock_cases p m
    · simp [h'] at h
    · simp [h'] at h
    · simp only [h', List.mem_singleton] at h
      simp [h, place, queue_of_get hm]
  cases r with
  | lock p m =>
    rw [Replies] at hrep
    subst hrep
    simp only [Option.mem_toList, Option.map_eq_some_iff] at hx
    obtain ⟨_, -, rfl⟩ := hx
    exact Or.inl rfl
  | unlock p m =>
    rw [Replies] at hrep
    subst hrep
    rcases List.mem_append.mp hx with h | h
    · exact Or.inr ⟨.inl m, by simp [footprint], hunlock h⟩
    · simp only [List.mem_singleton] at h
      exact Or.inl (by rw [h]; rfl)
  | wait p c m =>
    rw [Replies] at hrep
    subst hrep
    by_cases ho : a.Owns p m
    · rw [wait_of_owns ho] at hx
      exact Or.inr ⟨.inl m, by simp [footprint], hunlock hx⟩
    · rw [wait_of_not_owns ho, List.mem_singleton] at hx
      exact Or.inl (by rw [hx]; rfl)
  | broadcast p c =>
    rw [Replies] at hrep
    subst hrep
    rcases List.mem_append.mp hx with h | h
    · exact Or.inr ⟨.inr c, Or.inl rfl, (mem_wake_replies h).2⟩
    · simp only [List.mem_singleton] at h
      exact Or.inl (by rw [h]; rfl)
  | interrupt p => exact absurd rfl hr
  | exit p => exact absurd rfl hr
  | bad p =>
    rw [Replies] at hrep
    subst hrep
    simp only [List.mem_singleton] at hx
    exact Or.inl (by rw [hx]; rfl)

/-- Nobody is answered by both of two requests with disjoint footprints from different senders
that are not waiting. -/
theorem recipients_disjoint (ha : a.WellFormed) {r r' : Request} (hr : a.Admits r)
    (hr' : a.Admits r') {p p' : ℤ} (hp : r.sender = some p) (hp' : r'.sender = some p')
    (hpp' : p ≠ p') (hd : Disjoint (a.footprint r) (a.footprint r')) {out out' : List Reply}
    (hrep : a.Replies r out) (hrep' : a.Replies r' out') {x y : Reply} (hx : x ∈ out)
    (hy : y ∈ out') : x.dokad ≠ y.dokad := by
  intro hxy
  rcases replies_recipient hrep hx (by simp [hp]) with hsx | ⟨k, hk, hkx⟩
  · rcases replies_recipient hrep' hy (by simp [hp']) with hsy | ⟨k', -, hky⟩
    · rw [hp, Option.some.injEq] at hsx
      rw [hp', Option.some.injEq] at hsy
      exact hpp' (by rw [hsx, hsy, hxy])
    · exact hr x.dokad hsx ⟨k', hxy ▸ hky⟩
  · rcases replies_recipient hrep' hy (by simp [hp']) with hsy | ⟨k', hk', hky⟩
    · exact hr' y.dokad hsy ⟨k, hxy ▸ hkx⟩
    · -- nobody is listed in two places
      have hkk : k = k' := ha.exclusive.eq_of_mem hkx (hxy ▸ hky)
      exact Set.disjoint_left.mp hd hk (hkk ▸ hk')

end Operations

end MinixCv.LockManager.Manager

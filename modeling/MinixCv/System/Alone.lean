import MinixCv.LockManager.Footprint
import MinixCv.System.Descent

/-!
# A Program That Has The Server To Itself

The tables of the server hold what one program has put there: its mutex, its conditions, and
its processes on the waiting lists.  They never overflow if the program has few enough of them.

- `OnlyUses`: what a request of the program leaves in the tables
- `Alone`: nobody else has used the server, and `Inner.alone`, that it stays so
- `Alone.room`: the tables have room for the program
-/

namespace MinixCv.Programs

open MinixCv.Lib MinixCv.Lib.Monitor MinixCv.LockManager MinixCv.Server MinixCv.Client

universe u v

variable {L : Type u} {S : Type v}

/-! ## §1 What is in the tables -/

/-- Only the mutex `m` and the conditions in `K` are in use, and only for processes in `T`. -/
structure OnlyUses (m : ℤ) (K : Finset ℤ) (T : Set ℤ) (a : Manager) : Prop where
  mutexes : ∀ k, a.mutexes.get k ≠ none → k = m
  conditions : ∀ c, a.conditions.get c ≠ none → c ∈ K
  waiters : ∀ c q k, (q, k) ∈ a.waiters c → k = m ∧ q ∈ T

/-- The request is about the mutex `m` and a condition in `K`, and comes from `T`. -/
def OfProgram (m : ℤ) (K : Finset ℤ) (T : Set ℤ) : Request → Prop
  | .lock _ k | .unlock _ k => k = m
  | .wait p c k => k = m ∧ c ∈ K ∧ p ∈ T
  | .broadcast _ c => c ∈ K
  | _ => False

namespace OnlyUses

variable {m : ℤ} {K : Finset ℤ} {T : Set ℤ} {a : Manager} {r : Request}

/-- The footprint of the request is what the program uses. -/
theorem footprint (h : OnlyUses m K T a) (hr : OfProgram m K T r) :
    ∀ i ∈ a.footprint r, i = .inl m ∨ ∃ c ∈ K, i = .inr c := by
  intro i hi
  cases r with
  | lock p k =>
    obtain rfl : k = m := hr
    exact .inl hi
  | unlock p k =>
    obtain rfl : k = m := hr
    exact .inl hi
  | wait p c k =>
    obtain ⟨rfl, hc, -⟩ := hr
    rcases hi with hi | hi
    · exact .inl hi
    · exact .inr ⟨c, hc, hi⟩
  | broadcast p c =>
    rcases hi with hi | ⟨⟨q, k⟩, hw, hi⟩
    · exact .inr ⟨c, hr, hi⟩
    · rw [(h.waiters c q k hw).1] at hi
      exact .inl hi
  | interrupt p => exact hr.elim
  | exit p => exact hr.elim
  | bad p => exact hr.elim

theorem next [Minix] (h : OnlyUses m K T a) (hr : OfProgram m K T r) :
    OnlyUses m K T (a.next r) := by
  have hfoot := h.footprint hr
  refine ⟨fun k hk => ?_, fun c hc => ?_, fun c q k hw => ?_⟩
  · by_contra hne
    have hout : (.inl k : ℤ ⊕ ℤ) ∉ a.footprint r := by
      intro hmem
      rcases hfoot _ hmem with heq | ⟨c, -, heq⟩
      · exact hne (Sum.inl.inj heq)
      · cases heq
    have hcell := Manager.next_cell_of_not_mem hout
    simp only [Manager.cell, Sum.inl.injEq] at hcell
    exact hne (h.mutexes k (hcell ▸ hk))
  · by_contra hnot
    have hout : (.inr c : ℤ ⊕ ℤ) ∉ a.footprint r := by
      intro hmem
      rcases hfoot _ hmem with heq | ⟨c', hc', heq⟩
      · cases heq
      · rw [Sum.inr.inj heq] at hnot
        exact hnot hc'
    have hcell := Manager.next_cell_of_not_mem hout
    simp only [Manager.cell, Sum.inr.injEq] at hcell
    exact hnot (h.conditions c (hcell ▸ hc))
  · rcases Manager.waiters_of_next hw with hw | ⟨rfl, -⟩
    · exact h.waiters c q k hw
    · exact ⟨hr.1, hr.2.2⟩

/-- Few conditions and few processes fit into the tables. -/
theorem fits {U : Finset ℤ} (h : OnlyUses m K T a) (ha : a.WellFormed) (hT : T ⊆ U)
    (hK : K.card ≤ MAX_CV) (hU : U.card ≤ MAX_CZEKAJACYCH) : Fits a := by
  refine ⟨?_, ?_, fun c => ?_⟩
  · have hsub : {k | a.mutexes.get k ≠ none} ⊆ {m} := fun k hk => h.mutexes k hk
    calc a.mutexes.count ≤ Set.ncard {m} := Set.ncard_le_ncard hsub
      _ = 1 := Set.ncard_singleton m
      _ ≤ MAX_MUTEX := by decide
  · have hsub : {c | a.conditions.get c ≠ none} ⊆ (K : Set ℤ) := fun c hc => h.conditions c hc
    calc a.conditions.count ≤ Set.ncard (K : Set ℤ) := Set.ncard_le_ncard hsub
      _ = K.card := Set.ncard_coe_finset K
      _ ≤ MAX_CV := hK
  · -- nobody is registered twice
    have hnodup : ((a.waiters c).map (·.1)).Nodup := ha.exclusive.nodup (.inr c)
    have hsub : ((a.waiters c).map (·.1)).toFinset ⊆ U := by
      intro q hq
      rw [List.mem_toFinset] at hq
      obtain ⟨⟨q, k⟩, hw, rfl⟩ := List.mem_map.mp hq
      exact hT (h.waiters c q k hw).2
    calc (a.waiters c).length = ((a.waiters c).map (·.1)).toFinset.card := by
          rw [List.toFinset_card_of_nodup hnodup, List.length_map]
      _ ≤ U.card := Finset.card_le_card hsub
      _ ≤ MAX_CZEKAJACYCH := hU

end OnlyUses

/-! ## §2 Nobody else has used the server -/

/-- The processes of the program. -/
def members (τ : State L S) : Set ℤ := {q | ∃ l, τ.place q = some l}

/-- The tables hold nothing but the mutex, the conditions and the processes of the program. -/
def Alone (m : ℤ) (K : Finset ℤ) (τ : State L S) : Prop :=
  OnlyUses m K (members τ) (abs τ.sys.server)

/-- The conditions of the program are in `K`. -/
def Names (prog : Program ℤ L S) (K : Finset ℤ) : Prop :=
  ∀ l c l', (prog.action l = .wait c l' ∨ prog.action l = .broadcast c l') → c ∈ K

section Steps

variable [Minix] {prog : Program ℤ L S} {d : Discipline prog} {m : ℤ} {K : Finset ℤ}
  {τ τ' : State L S}

omit [Minix] in
theorem OnlyUses.mono {T T' : Set ℤ} {a : Manager} (h : OnlyUses m K T a) (hT : T ⊆ T') :
    OnlyUses m K T' a :=
  ⟨h.mutexes, h.conditions, fun c q k hw => ⟨(h.waiters c q k hw).1, hT (h.waiters c q k hw).2⟩⟩

omit [Minix] in
/-- What a process of the program asks for. -/
theorem ofProgram_of_call (hK : Names prog K) {p : ℤ} {l : L} {site : Site}
    (hp : τ.place p = some l) (hcall : libraryCall m (prog.action l) = some site.call) :
    OfProgram m K (members τ) (System.siteRequest p site) := by
  cases site with
  | lock k => exact (libraryCall_lock hcall).1
  | unlock k => exact (libraryCall_unlock hcall).1
  | relock c k => exact (libraryCall_wait hcall).1
  | wait c k =>
    obtain ⟨hk, l', ha⟩ := libraryCall_wait hcall
    exact ⟨hk, hK l c l' (.inl ha), l, hp⟩
  | broadcast c =>
    obtain ⟨l', ha⟩ := libraryCall_broadcast hcall
    exact hK l c l' (.inr ha)

/-- **The program stays alone** while only the program moves. -/
theorem Inner.alone (hτ : Inv d m τ)
    (hends : ∀ l, prog.ends l → prog.action l = .own ∧ ¬d.inside l) (hK : Names prog K)
    (h : Alone m K τ) (hstep : Inner prog m τ τ') : Alone m K τ' := by
  have hmember : ∀ {place : ℤ → Option L} {p q : ℤ} {l : L}, (∃ k, place q = some k) →
      ∃ k, Function.update place p (some l) q = some k := by
    intro place p q l hq
    by_cases hqp : q = p
    · exact ⟨l, by rw [hqp, Function.update_self]⟩
    · rwa [Function.update_of_ne hqp]
  obtain ⟨e, hstep, he⟩ := hstep
  cases hstep with
  | other _ _ => exact he.elim
  | own _ _ _ _ => exact h.mono fun q hq => hmember hq
  | fork _ _ _ _ _ _ => exact h.mono fun q hq => hmember (hmember hq)
  | call _ _ hstep =>
    cases hstep
    exact h
  | @die p l hp hl _ =>
    obtain ⟨ha, hout⟩ := hends l hl
    have hstranger := stranger_of_end hτ hp ha hout
    refine ⟨h.mutexes, h.conditions, fun c q k hw => ?_⟩
    obtain ⟨rfl, j, hq⟩ := h.waiters c q k hw
    -- whoever ends is registered nowhere
    have hne : q ≠ p := by
      rintro rfl
      exact hstranger.not_registered c hw
    exact ⟨rfl, j, (Function.update_of_ne hne ..).trans hq⟩
  | @serve e σ hcall _ hstep =>
    obtain ⟨r, out, hserves, hr⟩ := served hτ.reachable.inv hstep hcall
    cases e with
    | call p k => exact absurd rfl (hcall p k)
    | eintr p => exact he.elim
    | exit p => exact he.elim
    | receive p =>
      obtain ⟨l, hp⟩ := he
      obtain ⟨site, hposted, rfl⟩ := hr
      obtain ⟨-, hcall⟩ := (hτ.inCall hp).site (.inl hposted)
      have hafter := OnlyUses.next h (ofProgram_of_call hK hp hcall)
      rw [← hserves.next] at hafter
      exact hafter.mono fun q hq => advance_isSome.mpr hq

/-- **The tables have room** for a program that is alone, with few conditions and processes. -/
theorem Alone.room {U : Finset ℤ} (h : Alone m K τ) (hτ : Inv d m τ) (hK : Names prog K)
    (hKcard : K.card ≤ MAX_CV) (hU : ∀ p l, τ.place p = some l → p ∈ U)
    (hUcard : U.card ≤ MAX_CZEKAJACYCH) : Room τ := by
  intro p l site hp hposted
  have hσ := hτ.reachable.inv
  obtain ⟨-, hcall⟩ := (hτ.inCall hp).site (.inl hposted)
  have hafter := OnlyUses.next h (ofProgram_of_call hK hp hcall)
  have hadmits : (abs τ.sys.server).Admits (System.siteRequest p site) := by
    intro q hq hw
    rw [System.siteRequest_sender, Option.some.injEq] at hq
    subst hq
    obtain ⟨site', hblocked⟩ := hσ.blocked p hw
    simp [hposted] at hblocked
  have hfits := hafter.fits (Manager.next_wellFormed hσ.manager hadmits)
    (fun q ⟨k, hq⟩ => hU q k hq) hKcard hUcard
  rw [← System.message_request] at hfits
  exact (obsluz_ok_iff hσ.tables).mpr hfits

end Steps

end MinixCv.Programs

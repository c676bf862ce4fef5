import MinixCv.Lib.SlotTable
import MinixCv.Lib.ArrayPrefix
import MinixCv.LockManager.Laws
import MinixCv.Server.Handlers

/-!
# From The Tables To The Lock Manager

`abs` reads the tables of the server as a lock manager; `TableInv` is what the tables
need for that reading.  For each request handler one specification lemma says what it
returns, what it sends, what the tables stand for afterwards, and when it writes outside
a table.

The numbers and queues of free slots are invisible to `abs`.  A free mutex slot must
have an empty queue, since `csLock` hands it out as it is; a free condition slot may
keep any stale contents and size.
-/

namespace MinixCv.Server

open MinixCv.Lib MinixCv.LockManager

/-! ## §1 Reading the tables -/

/-- The waiters of a condition slot: its first `size` entries. -/
def ConditionVariable.czekajacy (cv : ConditionVariable) : List (ℤ × ℤ) :=
  arrayPrefix (fun j => (cv.procesy j, cv.muteksy j)) cv.size

/-- A mutex slot binds its number to its owner and queue. -/
def mutexView : SlotView Mutex ℤ (ℤ × List ℤ) where
  used x := x.uzywany
  key x := x.numer
  val x := (x.wlasciciel, x.kolejka.elementy)

/-- A condition slot binds its number to its waiters. -/
def cvView : SlotView ConditionVariable ℤ (List (ℤ × ℤ)) where
  used cv := cv.uzywany
  key cv := cv.numer
  val cv := cv.czekajacy

/-- The lock manager that the tables stand for. -/
def abs (s : ServerState) : Manager := ⟨mutexView.toMap s.M, cvView.toMap s.CV⟩

/-- Invariant of the tables. -/
structure TableInv (s : ServerState) : Prop where
  mutexUnique : mutexView.Unique s.M
  cvUnique : cvView.Unique s.CV
  free_empty : ∀ i, (s.M i).uzywany = false → (s.M i).kolejka.elementy = []
  inhabited : ∀ i, (s.CV i).uzywany = true → 0 < (s.CV i).size
  bounded : ∀ i, (s.CV i).uzywany = true → (s.CV i).size ≤ MAX_CZEKAJACYCH

/-- The head sentinel of every queue holds what it held before. -/
def SameSentinels (s s' : ServerState) : Prop :=
  ∀ i, (s'.M i).kolejka.start = (s.M i).kolejka.start

theorem SameSentinels.refl (s : ServerState) : SameSentinels s s := fun _ => rfl

theorem SameSentinels.trans {s s' s'' : ServerState} (h : SameSentinels s s')
    (h' : SameSentinels s' s'') : SameSentinels s s'' :=
  fun i => (h' i).trans (h i)

@[simp] theorem abs_sent (s : ServerState) (out : List Reply) : abs { s with sent := out } = abs s :=
  rfl

@[simp] theorem abs_aktualnyProces (s : ServerState) (p : ℤ) :
    abs { s with aktualnyProces := p } = abs s := rfl

theorem abs_setCV_mutexes (s : ServerState) (i : Fin MAX_CV) (x : ConditionVariable) :
    (abs (s.setCV i x)).mutexes = (abs s).mutexes := rfl

@[simp] theorem abs_wyslij (s : ServerState) (typ dokad : ℤ) :
    abs (wyslijWiadomosc typ dokad s) = abs s := rfl

theorem TableInv.congr {s s' : ServerState} (hs : TableInv s) (hM : s'.M = s.M)
    (hCV : s'.CV = s.CV) : TableInv s' where
  mutexUnique := hM ▸ hs.mutexUnique
  cvUnique := hCV ▸ hs.cvUnique
  free_empty := hM ▸ hs.free_empty
  inhabited := hCV ▸ hs.inhabited
  bounded := hCV ▸ hs.bounded

theorem initial_tableInv (start koniec : Fin MAX_MUTEX → ℤ) :
    TableInv (initial start koniec) where
  mutexUnique := by intro i j hi; simp [mutexView, initial] at hi
  cvUnique := by intro i j hi; simp [cvView, initial] at hi
  free_empty := by intro i _; rfl
  inhabited := by intro i hi; simp [initial] at hi
  bounded := by intro i hi; simp [initial] at hi

theorem abs_initial (start koniec : Fin MAX_MUTEX → ℤ) :
    abs (initial start koniec) = Manager.empty := by
  have hM : mutexView.toMap (initial start koniec).M = PartialMap.empty := by
    apply PartialMap.ext
    funext k
    exact SlotView.toMap_get_eq_none_iff.mpr fun i hi => by simp [mutexView, initial] at hi
  have hCV : cvView.toMap (initial start koniec).CV = PartialMap.empty := by
    apply PartialMap.ext
    funext k
    exact SlotView.toMap_get_eq_none_iff.mpr fun i hi => by simp [cvView, initial] at hi
  rw [abs, hM, hCV]
  rfl

section Lookup

variable {s : ServerState}

theorem indeks_mutexa_none {m : ℤ} (h : indeksUzywanegoMutexa s m = none) :
    (abs s).mutexes.get m = none :=
  SlotView.toMap_get_eq_none_iff.mpr (SlotView.find_eq_none_iff.mp h)

theorem indeks_mutexa_some {m : ℤ} {i : Fin MAX_MUTEX} (h : indeksUzywanegoMutexa s m = some i) :
    (s.M i).uzywany = true ∧ (s.M i).numer = m :=
  SlotView.find_some_spec (w := mutexView) h

theorem mutexes_get_of_indeks (hs : TableInv s) {m : ℤ} {i : Fin MAX_MUTEX}
    (h : indeksUzywanegoMutexa s m = some i) :
    (abs s).mutexes.get m = some ((s.M i).wlasciciel, (s.M i).kolejka.elementy) := by
  obtain ⟨hused, hkey⟩ := indeks_mutexa_some h
  exact (SlotView.toMap_get_eq_some_iff hs.mutexUnique).mpr ⟨i, hused, hkey, rfl⟩

theorem indeks_mutexa_used (hs : TableInv s) {i : Fin MAX_MUTEX} (hi : (s.M i).uzywany = true) :
    indeksUzywanegoMutexa s (s.M i).numer = some i :=
  (SlotView.find_eq_some_iff (w := mutexView) hs.mutexUnique).mpr ⟨hi, rfl⟩

theorem indeks_cv_none {c : ℤ} (h : indeksUzywanegoCv s c = none) :
    (abs s).conditions.get c = none :=
  SlotView.toMap_get_eq_none_iff.mpr (SlotView.find_eq_none_iff.mp h)

theorem indeks_cv_some {c : ℤ} {i : Fin MAX_CV} (h : indeksUzywanegoCv s c = some i) :
    (s.CV i).uzywany = true ∧ (s.CV i).numer = c :=
  SlotView.find_some_spec (w := cvView) h

theorem conditions_get_of_indeks (hs : TableInv s) {c : ℤ} {i : Fin MAX_CV}
    (h : indeksUzywanegoCv s c = some i) :
    (abs s).conditions.get c = some (s.CV i).czekajacy := by
  obtain ⟨hused, hkey⟩ := indeks_cv_some h
  exact (SlotView.toMap_get_eq_some_iff hs.cvUnique).mpr ⟨i, hused, hkey, rfl⟩

theorem owns_iff (hs : TableInv s) {p m : ℤ} : s.Owns p m ↔ (abs s).Owns p m := by
  constructor
  · intro hex
    obtain ⟨i, hused, rfl, rfl⟩ := hex
    exact ⟨_, mutexes_get_of_indeks hs (indeks_mutexa_used hs hused)⟩
  · intro hex
    obtain ⟨q, hq⟩ := hex
    obtain ⟨i, hused, hkey, hval⟩ := (SlotView.toMap_get_eq_some_iff hs.mutexUnique).mp hq
    exact ⟨i, hused, hkey, (Prod.mk.inj hval).1⟩

theorem queued_iff (hs : TableInv s) {p m : ℤ} : s.Queued p m ↔ p ∈ (abs s).queue m := by
  rw [Manager.mem_queue]
  constructor
  · intro hex
    obtain ⟨i, hused, rfl, hp⟩ := hex
    exact ⟨_, _, mutexes_get_of_indeks hs (indeks_mutexa_used hs hused), hp⟩
  · intro hex
    obtain ⟨o, q, hq, hp⟩ := hex
    obtain ⟨i, hused, hkey, hval⟩ := (SlotView.toMap_get_eq_some_iff hs.mutexUnique).mp hq
    obtain ⟨-, rfl⟩ := Prod.mk.inj hval
    exact ⟨i, hused, hkey, hp⟩

theorem registered_iff (hs : TableInv s) {p c m : ℤ} :
    s.Registered p c m ↔ (p, m) ∈ (abs s).waiters c := by
  rw [Manager.mem_waiters]
  constructor
  · intro hex
    obtain ⟨i, hused, rfl, j, hj, rfl, rfl⟩ := hex
    exact ⟨_, SlotView.toMap_get_used hs.cvUnique hused, mem_arrayPrefix.mpr ⟨j, hj, rfl⟩⟩
  · intro hex
    obtain ⟨l, hl, hp⟩ := hex
    obtain ⟨i, hused, hkey, rfl⟩ := (SlotView.toMap_get_eq_some_iff hs.cvUnique).mp hl
    obtain ⟨j, hj, hval⟩ := mem_arrayPrefix.mp hp
    exact ⟨i, hused, hkey, j, hj, (Prod.mk.inj hval).1, (Prod.mk.inj hval).2⟩

end Lookup

/-! ## §2 Writing one mutex slot -/

section SetM

variable {s : ServerState}

private theorem setM_tableInv (hs : TableInv s) {i : Fin MAX_MUTEX} {x : Mutex}
    (hu : mutexView.Unique (Function.update s.M i x))
    (hx : x.uzywany = false → x.kolejka.elementy = []) : TableInv (s.setM i x) where
  mutexUnique := hu
  cvUnique := hs.cvUnique
  free_empty := by
    intro j hj
    by_cases hji : j = i
    · subst hji
      simp only [ServerState.setM, Function.update_self] at hj ⊢
      exact hx hj
    · simp only [ServerState.setM, Function.update_of_ne hji] at hj ⊢
      exact hs.free_empty j hj
  inhabited := hs.inhabited
  bounded := hs.bounded

private theorem setM_sentinels {i : Fin MAX_MUTEX} {x : Mutex}
    (hx : x.kolejka.start = (s.M i).kolejka.start) : SameSentinels s (s.setM i x) := by
  intro j
  by_cases hji : j = i
  · subst hji
    simpa [ServerState.setM] using hx
  · simp [ServerState.setM, hji]

private theorem abs_setM (i : Fin MAX_MUTEX) (x : Mutex) :
    abs (s.setM i x) = { abs s with mutexes := mutexView.toMap (Function.update s.M i x) } := rfl

end SetM

/-! ## §3 `csLock` -/

section Handlers

variable [Minix] {s : ServerState}

/-- What a handler leaves alone: the conditions, the current process, the sentinels. -/
structure MutexFrame (s s' : ServerState) : Prop where
  CV : s'.CV = s.CV
  aktualnyProces : s'.aktualnyProces = s.aktualnyProces
  sentinels : SameSentinels s s'

/-- **Specification of `csLock`**: the lock manager's `lock` for the current process, or a
write behind the table when that lock would need one slot too many. -/
theorem csLock_spec (hs : TableInv s) (m : ℤ) :
    (∃ s', csLock s m = .ok (((abs s).lock s.aktualnyProces m).2.getD EDONTREPLY, s') ∧
      TableInv s' ∧ abs s' = ((abs s).lock s.aktualnyProces m).1 ∧ s'.sent = s.sent ∧
      MutexFrame s s') ∨
    (csLock s m = .error (.mutexSlot MAX_MUTEX) ∧
      MAX_MUTEX < ((abs s).lock s.aktualnyProces m).1.mutexes.count) := by
  unfold csLock
  cases hf : indeksUzywanegoMutexa s m with
  | none =>
    have hnone := indeks_mutexa_none hf
    rw [Manager.lock_of_none hnone]
    by_cases hfree : wolnyMutex s < MAX_MUTEX
    · left
      -- the first free slot is taken; the queue it still has is empty
      let i : Fin MAX_MUTEX := ⟨wolnyMutex s, hfree⟩
      let x : Mutex := ⟨true, m, s.aktualnyProces, (s.M i).kolejka⟩
      have hslot : (s.M i).uzywany = false := mutexView.firstFree_not_used s.M hfree
      refine ⟨s.setM i x, by simp only [hfree, ↓reduceDIte]; rfl, ?_, ?_, rfl, rfl, rfl,
        setM_sentinels rfl⟩
      · exact setM_tableInv hs (SlotView.unique_update_alloc hs.mutexUnique hnone) fun h => by
          simp [x] at h
      · rw [abs_setM, SlotView.toMap_update_alloc (x := x) hs.mutexUnique hslot rfl hnone]
        simp [mutexView, hs.free_empty i hslot, abs, x]
    · right
      -- every slot is used, so the loop leaves `i` one behind the last
      have hfull : wolnyMutex s = MAX_MUTEX :=
        le_antisymm (mutexView.firstFree_le s.M) (not_lt.mp hfree)
      have hcount : ¬ (abs s).mutexes.count < MAX_MUTEX := fun h =>
        hfree ((SlotView.firstFree_lt_iff_count hs.mutexUnique).mpr h)
      refine ⟨by simp only [hfree, ↓reduceDIte]; rw [hfull], ?_⟩
      rw [PartialMap.count_set_fresh hnone]
      omega
  | some i =>
    left
    have hget := mutexes_get_of_indeks hs hf
    obtain ⟨hused, rfl⟩ := indeks_mutexa_some hf
    by_cases ho : (s.M i).wlasciciel = s.aktualnyProces
    · -- the owner asks again
      have hlock : (abs s).lock s.aktualnyProces (s.M i).numer = (abs s, some EPERM) := by
        simp [Manager.lock, hget, ho]
      rw [hlock]
      exact ⟨s, by simp [ho], hs, rfl, rfl, rfl, rfl, .refl s⟩
    · -- somebody else owns the mutex
      have hlock : (abs s).lock s.aktualnyProces (s.M i).numer =
          (⟨(abs s).mutexes.set (s.M i).numer
              (some ((s.M i).wlasciciel, (s.M i).kolejka.elementy ++ [s.aktualnyProces])),
            (abs s).conditions⟩, none) := by
        simp [Manager.lock, hget, ho]
      rw [hlock]
      let x : Mutex := { s.M i with kolejka := (s.M i).kolejka.wstaw s.aktualnyProces }
      refine ⟨s.setM i x, by simp [ho, x], ?_, ?_, rfl, rfl, rfl, setM_sentinels rfl⟩
      · exact setM_tableInv hs (SlotView.unique_update_used hs.mutexUnique hused rfl) fun h => by
          simp [x, hused] at h
      · rw [abs_setM, SlotView.toMap_update_used (x := x) hs.mutexUnique hused hused rfl]
        rfl

/-! ## §4 `csUnlock` -/

/-- **Specification of `csUnlock`**: the lock manager's `unlock` for the current process. -/
theorem csUnlock_spec (hs : TableInv s) (m : ℤ) :
    (csUnlock s m).1 = ((abs s).unlock s.aktualnyProces m).2.2 ∧
      TableInv (csUnlock s m).2 ∧
      abs (csUnlock s m).2 = ((abs s).unlock s.aktualnyProces m).1 ∧
      (csUnlock s m).2.sent = s.sent ++ ((abs s).unlock s.aktualnyProces m).2.1 ∧
      MutexFrame s (csUnlock s m).2 := by
  unfold csUnlock
  cases hf : indeksUzywanegoMutexa s m with
  | none =>
    have hnone := indeks_mutexa_none hf
    have hun : (abs s).unlock s.aktualnyProces m = (abs s, [], EPERM) := by
      simp [Manager.unlock, hnone]
    simp only [hun, List.append_nil, true_and]
    exact ⟨hs, rfl, rfl, .refl s⟩
  | some i =>
    have hget := mutexes_get_of_indeks hs hf
    obtain ⟨hused, rfl⟩ := indeks_mutexa_some hf
    by_cases ho : (s.M i).wlasciciel = s.aktualnyProces
    · simp only [ho, ne_eq, not_true_eq_false, ↓reduceIte]
      rw [ho] at hget
      cases hq : (s.M i).kolejka.elementy with
      | nil =>
        rw [hq] at hget
        have hun : (abs s).unlock s.aktualnyProces (s.M i).numer =
            (⟨(abs s).mutexes.set (s.M i).numer none, (abs s).conditions⟩, [], OK) := by
          simp [Manager.unlock, hget]
        have hpusto : (s.M i).kolejka.czyPusto = true := by simp [Kolejka.czyPusto, hq]
        let x : Mutex := ⟨false, (s.M i).numer, s.aktualnyProces, (s.M i).kolejka⟩
        simp only [hpusto, ↓reduceIte, hun, List.append_nil, true_and]
        refine ⟨?_, ?_, rfl, rfl, rfl, setM_sentinels (x := x) rfl⟩
        · exact setM_tableInv (x := x) hs (SlotView.unique_update_free hs.mutexUnique rfl)
            fun _ => hq
        · rw [abs_setM, SlotView.toMap_update_free (x := x) hs.mutexUnique hused rfl]
          rfl
      | cons y t =>
        rw [hq] at hget
        have hun : (abs s).unlock s.aktualnyProces (s.M i).numer =
            (⟨(abs s).mutexes.set (s.M i).numer (some (y, t)), (abs s).conditions⟩,
              [⟨0, y⟩], OK) := by
          simp [Manager.unlock, hget]
        have hpusto : (s.M i).kolejka.czyPusto = false := by simp [Kolejka.czyPusto, hq]
        have hpierwszy : (s.M i).kolejka.pierwszyKolejka =
            (y, { (s.M i).kolejka with elementy := t }) := by
          simp [Kolejka.pierwszyKolejka, hq]
        let x : Mutex :=
          { s.M i with wlasciciel := y, kolejka := { (s.M i).kolejka with elementy := t } }
        simp only [hpusto, Bool.false_eq_true, ↓reduceIte, hun, hpierwszy, true_and]
        refine ⟨?_, ?_, rfl, rfl, rfl, setM_sentinels (x := x) rfl⟩
        · exact (setM_tableInv (x := x) hs
            (SlotView.unique_update_used hs.mutexUnique hused rfl)
            fun h => by simp [x, hused] at h).congr rfl rfl
        · rw [abs_wyslij, abs_setM,
            SlotView.toMap_update_used (x := x) hs.mutexUnique hused hused rfl]
          rfl
    · -- only the owner may unlock
      have hun : (abs s).unlock s.aktualnyProces (s.M i).numer = (abs s, [], EPERM) := by
        simp [Manager.unlock, hget, ho]
      simp only [ne_eq, ho, not_false_eq_true, ↓reduceIte, hun, List.append_nil, true_and]
      exact ⟨hs, rfl, rfl, .refl s⟩

/-! ## §5 `csWait` -/

omit [Minix] in
theorem length_czekajacy (cv : ConditionVariable) : cv.czekajacy.length = cv.size :=
  length_arrayPrefix _ _

omit [Minix] in
theorem setCV_tableInv (hs : TableInv s) {i : Fin MAX_CV} {x : ConditionVariable}
    (hu : cvView.Unique (Function.update s.CV i x))
    (hx : x.uzywany = true → 0 < x.size ∧ x.size ≤ MAX_CZEKAJACYCH) : TableInv (s.setCV i x) where
  mutexUnique := hs.mutexUnique
  cvUnique := hu
  free_empty := hs.free_empty
  inhabited := by
    intro j hj
    by_cases hji : j = i
    · subst hji
      simp only [ServerState.setCV, Function.update_self] at hj ⊢
      exact (hx hj).1
    · simp only [ServerState.setCV, Function.update_of_ne hji] at hj ⊢
      exact hs.inhabited j hj
  bounded := by
    intro j hj
    by_cases hji : j = i
    · subst hji
      simp only [ServerState.setCV, Function.update_self] at hj ⊢
      exact (hx hj).2
    · simp only [ServerState.setCV, Function.update_of_ne hji] at hj ⊢
      exact hs.bounded j hj

/-- Entering a waiter behind the waiters of slot `i`.  `hset` is what a write to this slot
does to the map: it holds of the slot of `c`, and of a free slot when `c` has none. -/
theorem dopiszCzekajacego_spec (hs : TableInv s) {i : Fin MAX_CV} {cv : ConditionVariable} {c : ℤ}
    (m : ℤ) (hused : cv.uzywany = true) (hnumer : cv.numer = c)
    (hlist : cv.czekajacy = (abs s).waiters c)
    (hset : ∀ x : ConditionVariable, x.uzywany = true → x.numer = c →
      cvView.Unique (Function.update s.CV i x) ∧
      cvView.toMap (Function.update s.CV i x) = (abs s).conditions.set c (some x.czekajacy)) :
    (∃ s', dopiszCzekajacego s i cv m = .ok (EDONTREPLY, s') ∧ TableInv s' ∧
      abs s' = (abs s).register s.aktualnyProces c m ∧ s'.sent = s.sent ∧ s'.M = s.M ∧
      s'.aktualnyProces = s.aktualnyProces) ∨
    (dopiszCzekajacego s i cv m = .error (.waiter i cv.size) ∧ MAX_CZEKAJACYCH ≤ cv.size) := by
  unfold dopiszCzekajacego
  by_cases hroom : cv.size < MAX_CZEKAJACYCH
  · left
    let x : ConditionVariable :=
      { cv with
        procesy := Function.update cv.procesy cv.size s.aktualnyProces
        muteksy := Function.update cv.muteksy cv.size m
        size := cv.size + 1 }
    -- the entry is written at `size`, behind all others
    have hx : x.czekajacy = cv.czekajacy ++ [(s.aktualnyProces, m)] := by
      rw [ConditionVariable.czekajacy, ConditionVariable.czekajacy, ← arrayPrefix_push]
      apply arrayPrefix_congr
      intro j _
      by_cases hj : j = cv.size <;> simp [x, hj]
    obtain ⟨hu, hmap⟩ := hset x hused hnumer
    refine ⟨s.setCV i x, by simp only [hroom, ↓reduceIte]; rfl, ?_, ?_, rfl, rfl, rfl⟩
    · exact setCV_tableInv hs hu fun _ => ⟨Nat.succ_pos _, hroom⟩
    · apply Manager.ext
      · rfl
      · show cvView.toMap (Function.update s.CV i x) = _
        rw [hmap, hx, hlist]
        rfl
  · exact Or.inr ⟨by simp [hroom], not_lt.mp hroom⟩

theorem csWait_refuse (hs : TableInv s) {c m : ℤ} (h : ¬ (abs s).Owns s.aktualnyProces m) :
    csWait s c m = .ok (-EINVAL, s) := by
  unfold csWait
  cases hf : indeksUzywanegoMutexa s m with
  | none => rfl
  | some i =>
    have ho : (s.M i).wlasciciel ≠ s.aktualnyProces := by
      intro ho
      exact h ⟨_, ho ▸ mutexes_get_of_indeks hs hf⟩
    simp [ho]

/-- The second half of `csWait` registers the current process, unless it writes behind the
condition table or behind the waiters of one condition. -/
theorem zarejestrujNaCv_spec (hs : TableInv s) (c m : ℤ) :
    (∃ s', zarejestrujNaCv s c m = .ok (EDONTREPLY, s') ∧ TableInv s' ∧
      abs s' = (abs s).register s.aktualnyProces c m ∧ s'.sent = s.sent ∧ s'.M = s.M ∧
      s'.aktualnyProces = s.aktualnyProces) ∨
    (zarejestrujNaCv s c m = .error (.cvSlot MAX_CV) ∧
      MAX_CV < ((abs s).register s.aktualnyProces c m).conditions.count) ∨
    (∃ i, zarejestrujNaCv s c m = .error (.waiter i MAX_CZEKAJACYCH) ∧
      MAX_CZEKAJACYCH < (((abs s).register s.aktualnyProces c m).waiters c).length) := by
  unfold zarejestrujNaCv
  cases hf : indeksUzywanegoCv s c with
  | some i =>
    have hget := conditions_get_of_indeks hs hf
    obtain ⟨hused, rfl⟩ := indeks_cv_some hf
    -- the condition has a slot already
    have hspec := dopiszCzekajacego_spec hs m hused rfl (Manager.waiters_of_get hget).symm
      fun x hx hnum => ⟨SlotView.unique_update_used hs.cvUnique hused hnum,
        SlotView.toMap_update_used hs.cvUnique hused hx hnum⟩
    rcases hspec with hok | ⟨hres, hfull⟩
    · exact Or.inl hok
    · have hsize : (s.CV i).size = MAX_CZEKAJACYCH := le_antisymm (hs.bounded i hused) hfull
      refine Or.inr (Or.inr ⟨i, by simp only [hres, hsize], ?_⟩)
      simp [Manager.register_waiters, Manager.waiters_of_get hget, length_czekajacy, hsize]
  | none =>
    have hnone := indeks_cv_none hf
    by_cases hfree : wolnyCv s < MAX_CV
    · have hslot : (s.CV ⟨wolnyCv s, hfree⟩).uzywany = false :=
        cvView.firstFree_not_used s.CV hfree
      let x : ConditionVariable :=
        { s.CV ⟨wolnyCv s, hfree⟩ with size := 0, uzywany := true, numer := c }
      -- whatever the slot held before, with `size` zero it has no waiters
      have hlist : x.czekajacy = (abs s).waiters c := by
        simp [ConditionVariable.czekajacy, Manager.waiters, hnone, x]
      have hspec := dopiszCzekajacego_spec hs (i := ⟨wolnyCv s, hfree⟩) m rfl rfl hlist
        fun x hx hnum => by
          subst hnum
          exact ⟨SlotView.unique_update_alloc hs.cvUnique hnone,
            SlotView.toMap_update_alloc hs.cvUnique hslot hx hnone⟩
      simp only [hfree, ↓reduceDIte]
      rcases hspec with hok | ⟨_, hfull⟩
      · exact Or.inl hok
      · -- a new condition has room for its first waiter
        simp [MAX_CZEKAJACYCH, x] at hfull
    · right
      left
      have hfull : wolnyCv s = MAX_CV :=
        le_antisymm (cvView.firstFree_le s.CV) (not_lt.mp hfree)
      have hcount : ¬ (abs s).conditions.count < MAX_CV := fun h =>
        hfree ((SlotView.firstFree_lt_iff_count hs.cvUnique).mpr h)
      refine ⟨by simp only [hfree, ↓reduceDIte]; rw [hfull], ?_⟩
      rw [Manager.register, PartialMap.count_set_fresh hnone]
      omega

theorem csWait_accept (hs : TableInv s) {c m : ℤ} (h : (abs s).Owns s.aktualnyProces m) :
    csWait s c m = zarejestrujNaCv (csUnlock s m).2 c m := by
  obtain ⟨q, hq⟩ := h
  unfold csWait
  cases hf : indeksUzywanegoMutexa s m with
  | none => simp [indeks_mutexa_none hf] at hq
  | some i =>
    have hget := mutexes_get_of_indeks hs hf
    rw [hq] at hget
    simp only [Option.some.injEq, Prod.mk.injEq] at hget
    simp only [← hget.1, ne_eq, not_true_eq_false, ↓reduceIte]

/-- **Specification of `csWait`**, accepted case: unlock and register within one message, or
a write behind the condition table or behind the waiters of one condition. -/
theorem csWait_spec (hs : TableInv s) {c m : ℤ} (h : (abs s).Owns s.aktualnyProces m) :
    (∃ s', csWait s c m = .ok (EDONTREPLY, s') ∧ TableInv s' ∧
      abs s' = ((abs s).wait s.aktualnyProces c m).1 ∧
      s'.sent = s.sent ++ ((abs s).wait s.aktualnyProces c m).2 ∧
      s'.aktualnyProces = s.aktualnyProces ∧ SameSentinels s s') ∨
    (csWait s c m = .error (.cvSlot MAX_CV) ∧
      MAX_CV < ((abs s).wait s.aktualnyProces c m).1.conditions.count) ∨
    (∃ i, csWait s c m = .error (.waiter i MAX_CZEKAJACYCH) ∧
      MAX_CZEKAJACYCH < (((abs s).wait s.aktualnyProces c m).1.waiters c).length) := by
  -- the mutex is given back first; the registration then runs on those tables
  obtain ⟨-, hs₁, habs₁, hsent₁, hframe₁⟩ := csUnlock_spec hs m
  rw [Manager.wait_of_owns h, csWait_accept hs h, ← habs₁, ← hframe₁.aktualnyProces]
  rcases zarejestrujNaCv_spec hs₁ c m with ⟨s', hres, hs', habs', hsent', hM', hakt'⟩ | hfault
  · refine Or.inl ⟨s', hres, hs', habs', ?_, hakt', ?_⟩
    · rw [hsent', hsent₁, hframe₁.aktualnyProces]
    · intro i
      rw [hM']
      exact hframe₁.sentinels i
  · exact Or.inr hfault

end Handlers

end MinixCv.Server

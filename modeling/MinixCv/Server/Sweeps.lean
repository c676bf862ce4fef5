import MinixCv.Server.Abstraction
import MinixCv.LockManager.WellFormed

/-!
# The Sweeps Over The Tables

`wyslijEINTR` and `usunZakonczonyProces` visit every slot of both tables.  Each loop
rewrites only the slot it visits, so a loop is a rewriting of the whole table:

- `Mutex.dropProc`: a process is unlinked from the queue of a slot
- `Mutex.unlockedBy`: a slot that a process owns is unlocked
- `ConditionVariable.dropProc`: a process is taken out of the waiters of a slot

The scans stop at the first match in each list and report once per list.  That they
report once in all is the exclusiveness of the waiting lists, read slot by slot in
`listIn`.
-/

namespace MinixCv.Server

open MinixCv.Lib MinixCv.LockManager

/-! ## §1 The waiting lists, slot by slot -/

/-- The processes listed in a slot: the queue of a mutex slot, the first `size` entries of a
    used condition slot. -/
def listIn (s : ServerState) : Fin MAX_MUTEX ⊕ Fin MAX_CV → List ℤ
  | .inl i => (s.M i).kolejka.elementy
  | .inr i => if (s.CV i).uzywany then (s.CV i).czekajacy.map (·.1) else []

section SlotLists

variable {s : ServerState}

theorem mem_listIn_mutex {i : Fin MAX_MUTEX} {p : ℤ} :
    p ∈ listIn s (.inl i) ↔ p ∈ (s.M i).kolejka.elementy := Iff.rfl

theorem mem_listIn_cv {i : Fin MAX_CV} {p : ℤ} :
    p ∈ listIn s (.inr i) ↔ (s.CV i).uzywany = true ∧ p ∈ (s.CV i).czekajacy.map (·.1) := by
  simp only [listIn]
  split_ifs with h <;> simp [h]

/-- A process listed in a mutex slot stands in the queue of the slot's number. -/
private theorem queue_of_listIn (hs : TableInv s) {i : Fin MAX_MUTEX} {p : ℤ}
    (h : p ∈ (s.M i).kolejka.elementy) :
    (s.M i).uzywany = true ∧ (abs s).queue (s.M i).numer = (s.M i).kolejka.elementy := by
  have hused : (s.M i).uzywany = true := by
    -- a free slot has an empty queue
    by_contra hfree
    rw [hs.free_empty i (by simpa using hfree)] at h
    simp at h
  exact ⟨hused, Manager.queue_of_get (mutexes_get_of_indeks hs (indeks_mutexa_used hs hused))⟩

private theorem waiters_of_listIn (hs : TableInv s) {i : Fin MAX_CV}
    (hused : (s.CV i).uzywany = true) :
    (abs s).waiters (s.CV i).numer = (s.CV i).czekajacy :=
  Manager.waiters_of_get (SlotView.toMap_get_used hs.cvUnique hused)

/-- The place of the lock manager that a slot stands for. -/
private def slotNumber (s : ServerState) : Fin MAX_MUTEX ⊕ Fin MAX_CV → ℤ ⊕ ℤ
  | .inl i => .inl (s.M i).numer
  | .inr i => .inr (s.CV i).numer

private theorem place_of_listIn (hs : TableInv s) {k : Fin MAX_MUTEX ⊕ Fin MAX_CV} {p : ℤ}
    (h : p ∈ listIn s k) : (abs s).place (slotNumber s k) = listIn s k := by
  cases k with
  | inl i => exact (queue_of_listIn hs h).2
  | inr i =>
    have hused := (mem_listIn_cv.mp h).1
    simp only [listIn, hused, ↓reduceIte, slotNumber, Manager.place, waiters_of_listIn hs hused]

/-- Somebody is listed in a slot exactly when the lock manager has it waiting. -/
theorem listed_listIn_iff (hs : TableInv s) {p : ℤ} :
    Listed (listIn s) p ↔ (abs s).Waiting p := by
  constructor
  · intro hex
    obtain ⟨k, hk⟩ := hex
    exact ⟨slotNumber s k, by rw [place_of_listIn hs hk]; exact hk⟩
  · rw [Manager.waiting_iff]
    intro hcase
    rcases hcase with ⟨m, h⟩ | ⟨c, m, h⟩
    · obtain ⟨o, q, hget, hq⟩ := Manager.mem_queue.mp h
      obtain ⟨i, -, -, hval⟩ := (SlotView.toMap_get_eq_some_iff hs.mutexUnique).mp hget
      obtain ⟨-, rfl⟩ := Prod.mk.inj hval
      exact ⟨.inl i, hq⟩
    · obtain ⟨l, hget, hl⟩ := Manager.mem_waiters.mp h
      obtain ⟨i, hused, -, rfl⟩ := (SlotView.toMap_get_eq_some_iff hs.cvUnique).mp hget
      exact ⟨.inr i, mem_listIn_cv.mpr ⟨hused, List.mem_map.mpr ⟨(p, m), hl, rfl⟩⟩⟩

/-- Nobody is listed twice over all slots together. -/
theorem listIn_exclusive (hs : TableInv s) (ha : (abs s).WellFormed) :
    Exclusive (listIn s) where
  nodup k := by
    by_cases h : listIn s k = []
    · simp [h]
    · -- a list with a member is a list of the lock manager
      obtain ⟨p, hp⟩ := List.exists_mem_of_ne_nil _ h
      rw [← place_of_listIn hs hp]
      exact ha.exclusive.nodup _
  eq_of_mem := by
    intro k k' p hk hk'
    have hplace := ha.exclusive.eq_of_mem (i := slotNumber s k) (j := slotNumber s k') (a := p)
      (by rw [place_of_listIn hs hk]; exact hk) (by rw [place_of_listIn hs hk']; exact hk')
    -- equal numbers in used slots are the same slot
    cases k with
    | inl i =>
      cases k' with
      | inl j =>
        have hi := (queue_of_listIn hs hk).1
        have hj := (queue_of_listIn hs hk').1
        rw [hs.mutexUnique i j hi hj (by simpa [slotNumber, mutexView] using hplace)]
      | inr j => simp [slotNumber] at hplace
    | inr i =>
      cases k' with
      | inl j => simp [slotNumber] at hplace
      | inr j =>
        have hi := (mem_listIn_cv.mp hk).1
        have hj := (mem_listIn_cv.mp hk').1
        rw [hs.cvUnique i j hi hj (by simpa [slotNumber, cvView] using hplace)]

end SlotLists

/-! ## §2 What the loops do to one slot -/

/-- The slot with `p` unlinked from its queue. -/
def Mutex.dropProc (x : Mutex) (p : ℤ) : Mutex :=
  { x with kolejka := { x.kolejka with elementy := x.kolejka.elementy.erase p } }

/-- The slot after the scan of its queue for `p`.  A head sentinel that holds `p` is where the
    scan stops, and nothing is unlinked. -/
def Mutex.scanned (x : Mutex) (p : ℤ) : Mutex :=
  if x.kolejka.start = p then x else x.dropProc p

/-- The slot after its owner `p`, if it is that, has unlocked it. -/
def Mutex.unlockedBy (x : Mutex) (p : ℤ) : Mutex :=
  if x.uzywany = true ∧ x.wlasciciel = p then
    match x.kolejka.elementy with
    | [] => { x with uzywany := false }
    | y :: t => { x with wlasciciel := y, kolejka := { x.kolejka with elementy := t } }
  else x

/-- The message that unlocking the slot for `p` sends. -/
def Mutex.handover (x : Mutex) (p : ℤ) : List Reply :=
  if x.uzywany = true ∧ x.wlasciciel = p then
    (x.kolejka.elementy.head?.map fun y => ⟨0, y⟩).toList
  else []

/-- The slot without its entry `j`. -/
def ConditionVariable.dropEntry (cv : ConditionVariable) (j : ℕ) : ConditionVariable :=
  if cv.size = 1 then { cv with uzywany := false }
  else { przesunCzekajacych cv j with size := (przesunCzekajacych cv j).size - 1 }

/-- The slot with `p` taken out of its waiters. -/
def ConditionVariable.dropProc (cv : ConditionVariable) (p : ℤ) : ConditionVariable :=
  if cv.uzywany then
    match cv.czekajacy.findIdx? fun w => w.1 == p with
    | none => cv
    | some j => cv.dropEntry j
  else cv

section Slots

theorem Mutex.dropProc_of_not_mem {x : Mutex} {p : ℤ} (hp : p ∉ x.kolejka.elementy) :
    x.dropProc p = x := by
  simp [dropProc, List.erase_of_not_mem hp]

/-- A scan that does not stop before it has found the process removes it. -/
theorem Mutex.scanned_eq {x : Mutex} {p : ℤ}
    (h : p ∈ x.kolejka.elementy → x.kolejka.start ≠ p) : x.scanned p = x.dropProc p := by
  unfold scanned
  split_ifs with hstart
  · exact (dropProc_of_not_mem fun hp => h hp hstart).symm
  · rfl

theorem Mutex.scanned_of_none {x : Mutex} {p : ℤ} (h : x.kolejka.szukaj p = none) :
    x.scanned p = x := by
  unfold scanned
  split_ifs with hstart
  · rfl
  · exact dropProc_of_not_mem ((Kolejka.szukaj_eq_none hstart).mp h)

theorem Mutex.scanned_of_some {x : Mutex} {p : ℤ} {k : ℕ} (h : x.kolejka.szukaj p = some k) :
    x.scanned p = { x with kolejka := x.kolejka.usunElement k } := by
  unfold scanned
  split_ifs with hstart
  · -- the scan has stopped at the head sentinel
    rw [Kolejka.szukaj_of_start hstart h]
    rfl
  · rw [Kolejka.usunElement_szukaj hstart h]
    rfl

/-- What the scan leaves of the queue was in it before. -/
theorem Mutex.scanned_elementy_sublist (x : Mutex) (p : ℤ) :
    (x.scanned p).kolejka.elementy.Sublist x.kolejka.elementy := by
  unfold scanned
  split_ifs
  · exact List.Sublist.refl _
  · exact List.erase_sublist

@[simp] theorem Mutex.scanned_uzywany (x : Mutex) (p : ℤ) :
    (x.scanned p).uzywany = x.uzywany := by
  unfold scanned
  split_ifs <;> rfl

@[simp] theorem Mutex.scanned_numer (x : Mutex) (p : ℤ) :
    (x.scanned p).numer = x.numer := by
  unfold scanned
  split_ifs <;> rfl

@[simp] theorem Mutex.scanned_wlasciciel (x : Mutex) (p : ℤ) :
    (x.scanned p).wlasciciel = x.wlasciciel := by
  unfold scanned
  split_ifs <;> rfl

theorem Mutex.unlockedBy_cases (x : Mutex) (p : ℤ) :
    (x.uzywany = true ∧ x.wlasciciel = p ∧ x.kolejka.elementy = [] ∧
      x.unlockedBy p = { x with uzywany := false } ∧ x.handover p = []) ∨
    (∃ y t, x.uzywany = true ∧ x.wlasciciel = p ∧ x.kolejka.elementy = y :: t ∧
      x.unlockedBy p = { x with wlasciciel := y, kolejka := { x.kolejka with elementy := t } } ∧
      x.handover p = [⟨0, y⟩]) ∨
    (¬ (x.uzywany = true ∧ x.wlasciciel = p) ∧ x.unlockedBy p = x ∧ x.handover p = []) := by
  unfold unlockedBy handover
  by_cases h : x.uzywany = true ∧ x.wlasciciel = p
  · cases hq : x.kolejka.elementy with
    | nil => simp [h]
    | cons y t => simp [h]
  · simp [h]

theorem Mutex.unlockedBy_start (x : Mutex) (p : ℤ) :
    (x.unlockedBy p).kolejka.start = x.kolejka.start := by
  obtain ⟨_, _, _, h, _⟩ | ⟨_, _, _, _, _, h, _⟩ | ⟨_, h, _⟩ := x.unlockedBy_cases p <;> rw [h]

theorem Mutex.unlockedBy_elementy_sublist (x : Mutex) (p : ℤ) :
    (x.unlockedBy p).kolejka.elementy.Sublist x.kolejka.elementy := by
  obtain ⟨_, _, _, h, _⟩ | ⟨_, t, _, _, hq, h, _⟩ | ⟨_, h, _⟩ := x.unlockedBy_cases p <;> rw [h]
  rw [hq]
  exact List.sublist_cons_self _ t

theorem Mutex.unlockedBy_keys {x : Mutex} {p : ℤ} (h : (x.unlockedBy p).uzywany = true) :
    x.uzywany = true ∧ (x.unlockedBy p).numer = x.numer := by
  obtain ⟨hu, _, _, h', _⟩ | ⟨_, _, hu, _, _, h', _⟩ | ⟨_, h', _⟩ := x.unlockedBy_cases p
  · simp [h'] at h
  · simp [h', hu]
  · rw [h'] at h
    simp [h', h]

/-- A slot that is free after the unlocking has an empty queue, if free slots had one before. -/
theorem Mutex.unlockedBy_free {x : Mutex} {p : ℤ}
    (hx : x.uzywany = false → x.kolejka.elementy = [])
    (h : (x.unlockedBy p).uzywany = false) : (x.unlockedBy p).kolejka.elementy = [] := by
  obtain ⟨_, _, hq, hz, _⟩ | ⟨_, _, hu, _, _, hz, _⟩ | ⟨_, hz, _⟩ := x.unlockedBy_cases p
  · rw [hz]
    exact hq
  · simp [hz, hu] at h
  · rw [hz] at h ⊢
    exact hx h

/-- What unlocking and unlinking `p` does to the value of a used slot. -/
theorem Mutex.exit_val {x : Mutex} (p : ℤ) (hused : x.uzywany = true) :
    (if ((x.unlockedBy p).dropProc p).uzywany = true
      then some (mutexView.val ((x.unlockedBy p).dropProc p)) else none) =
      Manager.exitMutex p (mutexView.val x) := by
  obtain ⟨_, ho, hq, h, _⟩ | ⟨y, t, _, ho, hq, h, _⟩ | ⟨ho, h, _⟩ := x.unlockedBy_cases p
  · simp [h, dropProc, mutexView, Manager.exitMutex, ho, hq]
  · simp [h, dropProc, mutexView, Manager.exitMutex, ho, hq, hused]
  · have ho' : x.wlasciciel ≠ p := fun e => ho ⟨hused, e⟩
    simp [h, dropProc, mutexView, Manager.exitMutex, ho', hused]

/-- The shifting loop moves both arrays alike and changes nothing else. -/
theorem przesunCzekajacych_eq (cv : ConditionVariable) (j : ℕ) :
    przesunCzekajacych cv j =
      { cv with
        procesy := shiftDown cv.procesy j cv.size
        muteksy := shiftDown cv.muteksy j cv.size } := by
  unfold przesunCzekajacych shiftDown
  generalize List.range' (j + 1) (cv.size - 1 - j) = l
  induction l using List.reverseRecOn with
  | nil => rfl
  | append_singleton l k ih => simp only [List.foldl_append, List.foldl_cons, List.foldl_nil, ih]

theorem ConditionVariable.dropEntry_val {cv : ConditionVariable} {j : ℕ} (hj : j < cv.size)
    (hused : cv.uzywany = true) :
    (if (cv.dropEntry j).uzywany = true then some (cv.dropEntry j).czekajacy else none) =
      if cv.czekajacy.eraseIdx j = [] then none else some (cv.czekajacy.eraseIdx j) := by
  have hlen : (cv.czekajacy.eraseIdx j).length = cv.size - 1 := by
    rw [List.length_eraseIdx_of_lt (by rwa [length_czekajacy]), length_czekajacy]
  by_cases hone : cv.size = 1
  · -- the only waiter leaves: the slot is freed, its arrays are not touched
    have hnil : cv.czekajacy.eraseIdx j = [] := by
      rw [← List.length_eq_zero_iff, hlen, hone]
    simp [dropEntry, hone, hnil]
  · have hne : cv.czekajacy.eraseIdx j ≠ [] := by
      rw [ne_eq, ← List.length_eq_zero_iff, hlen]
      omega
    -- otherwise both arrays are closed up behind the entry
    have hlist : (cv.dropEntry j).czekajacy = cv.czekajacy.eraseIdx j := by
      simp only [dropEntry, hone, ↓reduceIte, czekajacy, przesunCzekajacych_eq]
      rw [← arrayPrefix_shiftDown _ hj]
      apply arrayPrefix_congr
      intro k _
      simp only [shiftDown_apply]
      split_ifs <;> rfl
    have hused' : (cv.dropEntry j).uzywany = true := by
      simp [dropEntry, hone, przesunCzekajacych_eq, hused]
    rw [if_pos hused', if_neg hne, hlist]

/-- What taking out `p` does to the waiters of a used slot. -/
theorem ConditionVariable.dropProc_val {cv : ConditionVariable} (p : ℤ)
    (hused : cv.uzywany = true) (hsize : 0 < cv.size) :
    (if (cv.dropProc p).uzywany = true then some (cv.dropProc p).czekajacy else none) =
      Manager.dropWaiter p cv.czekajacy := by
  have hne : cv.czekajacy ≠ [] := by
    rw [ne_eq, ← List.length_eq_zero_iff, length_czekajacy]
    omega
  simp only [dropProc, hused, ↓reduceIte, Manager.dropWaiter, List.eraseP_eq_eraseIdx]
  cases hf : cv.czekajacy.findIdx? fun w => w.1 == p with
  | none => simp [hused, hne]
  | some j =>
    obtain ⟨hj, -⟩ := List.findIdx?_eq_some_iff_getElem.mp hf
    exact dropEntry_val (by rwa [length_czekajacy] at hj) hused

theorem ConditionVariable.dropProc_keys {cv : ConditionVariable} {p : ℤ}
    (h : (cv.dropProc p).uzywany = true) :
    cv.uzywany = true ∧ (cv.dropProc p).numer = cv.numer := by
  unfold dropProc at h ⊢
  split_ifs at h ⊢ with hused
  · refine ⟨hused, ?_⟩
    cases cv.czekajacy.findIdx? fun w => w.1 == p with
    | none => rfl
    | some j =>
      by_cases hone : cv.size = 1 <;> simp [dropEntry, hone, przesunCzekajacych_eq]
  · exact absurd h hused

theorem ConditionVariable.dropProc_size {cv : ConditionVariable} {p : ℤ}
    (hsize : 0 < cv.size) (h : (cv.dropProc p).uzywany = true) :
    0 < (cv.dropProc p).size ∧ (cv.dropProc p).size ≤ cv.size := by
  have hval := dropProc_val p (dropProc_keys h).1 hsize
  rw [if_pos h, Manager.dropWaiter] at hval
  split_ifs at hval with hnil
  simp only [Option.some.injEq] at hval
  rw [← length_czekajacy, ← length_czekajacy cv, hval]
  exact ⟨List.length_pos_of_ne_nil hnil, List.length_eraseP_le⟩

end Slots

/-! ## §3 The loops -/

section Loops

variable {s : ServerState} {p : ℤ}

/-- No head sentinel holds `p`, so no scan for `p` stops there. -/
def SentinelFree (s : ServerState) (p : ℤ) : Prop := ∀ i, (s.M i).kolejka.start ≠ p

/-- No queue in which somebody waits holds `p` in its head sentinel. -/
def Unfooled (s : ServerState) (p : ℤ) : Prop :=
  ∀ i, (s.M i).kolejka.elementy ≠ [] → (s.M i).kolejka.start ≠ p

/-- No queue in which `p` waits holds `p` in its head sentinel. -/
def Unhidden (s : ServerState) (p : ℤ) : Prop :=
  ∀ i, p ∈ (s.M i).kolejka.elementy → (s.M i).kolejka.start ≠ p

theorem SentinelFree.unfooled (h : SentinelFree s p) : Unfooled s p := fun i _ => h i

theorem Unfooled.unhidden (h : Unfooled s p) : Unhidden s p :=
  fun i hp => h i (List.ne_nil_of_mem hp)

/-- `cs_unlock` called with the number of a slot that the current process owns. -/
private theorem csUnlock_slot [Minix] (hu : mutexView.Unique s.M) {i : Fin MAX_MUTEX}
    (hused : (s.M i).uzywany = true) (ho : (s.M i).wlasciciel = p) (hakt : s.aktualnyProces = p) :
    (csUnlock s (s.M i).numer).2 =
      { s with
        M := Function.update s.M i ((s.M i).unlockedBy p)
        sent := s.sent ++ (s.M i).handover p } := by
  have hf : indeksUzywanegoMutexa s (s.M i).numer = some i :=
    (SlotView.find_eq_some_iff hu).mpr ⟨hused, rfl⟩
  have hown : (s.M i).wlasciciel = s.aktualnyProces := ho.trans hakt.symm
  unfold csUnlock
  simp only [hf, hown, ne_eq, not_true_eq_false, ↓reduceIte]
  -- freed, or handed to the first in the queue; the slot is owned, so the third case is out
  obtain ⟨_, _, hq, hz, hod⟩ | ⟨y, t, _, _, hq, hz, hod⟩ | ⟨hno, _, _⟩ := (s.M i).unlockedBy_cases p
  · rw [hz, hod]
    simp [Kolejka.czyPusto, hq, ServerState.setM, hown]
  · rw [hz, hod]
    simp [Kolejka.czyPusto, Kolejka.pierwszyKolejka, hq, ServerState.setM, wyslijWiadomosc]
  · exact absurd ⟨hused, ho⟩ hno

/-- The loop of `usunZakonczonyProces` that unlocks what the dead process owns. -/
private theorem petlaZwolnij [Minix] (hu : mutexView.Unique s.M) (hakt : s.aktualnyProces = p) :
    (List.finRange MAX_MUTEX).foldl (fun s i =>
      if (s.M i).uzywany && (s.M i).wlasciciel == p then (csUnlock s (s.M i).numer).2 else s) s =
    { s with
      M := fun i => (s.M i).unlockedBy p
      sent := s.sent ++ (List.finRange MAX_MUTEX).flatMap fun i => (s.M i).handover p } := by
  have hsweep := foldl_sweep (fun M w => { s with M := M, sent := w })
    (fun s i =>
      if (s.M i).uzywany && (s.M i).wlasciciel == p then (csUnlock s (s.M i).numer).2 else s)
    s.M (fun x => x.unlockedBy p) (fun x => x.handover p) ?_ s.sent
    (List.finRange MAX_MUTEX) (List.nodup_finRange _)
  · simpa using hsweep
  · intro t log i ht hti
    -- half-way the numbers are still unique, so `cs_unlock` finds the slot it is called for
    have hu' : mutexView.Unique t := by
      apply hu.of_keys
      intro j hj
      rcases ht j with h | h
      · rw [h] at hj ⊢
        exact ⟨hj, rfl⟩
      · rw [h] at hj ⊢
        exact Mutex.unlockedBy_keys hj
    rw [← hti]
    by_cases hown : (t i).uzywany = true ∧ (t i).wlasciciel = p
    · have hslot := csUnlock_slot (s := { s with M := t, sent := log }) hu' hown.1 hown.2 hakt
      simpa [hown.1, hown.2] using hslot
    · obtain ⟨hu₁, ho₁, _⟩ | ⟨_, _, hu₁, ho₁, _⟩ | ⟨_, hz, hod⟩ := (t i).unlockedBy_cases p
      · exact absurd ⟨hu₁, ho₁⟩ hown
      · exact absurd ⟨hu₁, ho₁⟩ hown
      · simp [hz, hod, hown]

/-- A loop that scans every queue for `p`, unlinks what it stops at and sends `out` there. -/
private theorem petlaKolejek {body : ServerState → Fin MAX_MUTEX → ServerState} (out : List Reply)
    (hnone : ∀ s i, (s.M i).kolejka.szukaj p = none → body s i = s)
    (hsome : ∀ s i k, (s.M i).kolejka.szukaj p = some k → body s i =
      { s with
        M := Function.update s.M i { s.M i with kolejka := (s.M i).kolejka.usunElement k }
        sent := s.sent ++ out }) :
    (List.finRange MAX_MUTEX).foldl body s =
      { s with
        M := fun i => (s.M i).scanned p
        sent := s.sent ++ (List.finRange MAX_MUTEX).flatMap fun i =>
          if ((s.M i).kolejka.szukaj p).isSome then out else [] } := by
  have hsweep := foldl_sweep (fun M w => { s with M := M, sent := w }) body
    s.M (fun x => x.scanned p)
    (fun x => if (x.kolejka.szukaj p).isSome then out else []) ?_ s.sent
    (List.finRange MAX_MUTEX) (List.nodup_finRange _)
  · simpa using hsweep
  · intro t log i _ hti
    rw [← hti]
    cases hf : (t i).kolejka.szukaj p with
    | none =>
      rw [hnone _ i hf]
      simp [Mutex.scanned_of_none hf]
    | some k =>
      rw [hsome _ i k hf]
      simp [Mutex.scanned_of_some hf]

omit p in
theorem usunZakonczonyProcesCV_eq (s : ServerState) (i : Fin MAX_CV) (j : ℕ) :
    usunZakonczonyProcesCV s i j = s.setCV i ((s.CV i).dropEntry j) := by
  unfold usunZakonczonyProcesCV ConditionVariable.dropEntry
  split_ifs <;> rfl

theorem szukajCzekajacego_eq (s : ServerState) (i : Fin MAX_CV) (p : ℤ) :
    szukajCzekajacego s i p = (s.CV i).czekajacy.findIdx? fun w => w.1 == p :=
  find_range_eq_findIdx (fun j => ((s.CV i).procesy j, (s.CV i).muteksy j)) (fun w => w.1 == p) _

/-- A loop that scans every used condition for `p`, takes it out where it is found and sends
`out`. -/
private theorem petlaCv {body : ServerState → Fin MAX_CV → ServerState} (out : List Reply)
    (hfree : ∀ s i, (s.CV i).uzywany = false → body s i = s)
    (hnone : ∀ s i, (s.CV i).uzywany = true → szukajCzekajacego s i p = none → body s i = s)
    (hsome : ∀ s i j, (s.CV i).uzywany = true → szukajCzekajacego s i p = some j →
      body s i = usunZakonczonyProcesCV { s with sent := s.sent ++ out } i j) :
    (List.finRange MAX_CV).foldl body s =
      { s with
        CV := fun i => (s.CV i).dropProc p
        sent := s.sent ++ (List.finRange MAX_CV).flatMap fun i =>
          if (s.CV i).uzywany = true ∧ p ∈ (s.CV i).czekajacy.map (·.1) then out else [] } := by
  have hsweep := foldl_sweep (fun CV w => { s with CV := CV, sent := w }) body
    s.CV (fun x => x.dropProc p)
    (fun x => if x.uzywany = true ∧ p ∈ x.czekajacy.map (·.1) then out else []) ?_ s.sent
    (List.finRange MAX_CV) (List.nodup_finRange _)
  · simpa using hsweep
  · intro t log i _ hti
    rw [← hti]
    by_cases hused : (t i).uzywany = true
    · -- the loop over `procesy` finds the first entry of `p`
      have hscan := szukajCzekajacego_eq { s with CV := t, sent := log } i p
      cases hf : (t i).czekajacy.findIdx? fun w => w.1 == p with
      | none =>
        have hp : p ∉ (t i).czekajacy.map (·.1) := by
          intro hmem
          obtain ⟨w, hw, rfl⟩ := List.mem_map.mp hmem
          simpa using List.findIdx?_eq_none_iff.mp hf w hw
        rw [hnone _ i hused (hscan.trans hf), if_neg fun h => hp h.2]
        simp [ConditionVariable.dropProc, hused, hf]
      | some j =>
        have hp : p ∈ (t i).czekajacy.map (·.1) := by
          obtain ⟨hj, hpj, -⟩ := List.findIdx?_eq_some_iff_getElem.mp hf
          exact List.mem_map.mpr ⟨_, List.getElem_mem hj, by simpa using hpj⟩
        rw [hsome _ i j hused (hscan.trans hf), usunZakonczonyProcesCV_eq, if_pos ⟨hused, hp⟩]
        simp [ConditionVariable.dropProc, hused, hf, ServerState.setCV]
    · rw [hfree _ i (by simpa using hused)]
      simp [ConditionVariable.dropProc, hused]

/-! ## §4 The two notification handlers -/

/-- What `wyslijEINTR` does, whatever the sentinels hold: one scan of every queue, one of every
used condition, and one report for every scan that stops. -/
theorem wyslijEINTR_scans [Minix] (s : ServerState) (p : ℤ) :
    wyslijEINTR s p =
      { s with
        M := fun i => (s.M i).scanned p
        CV := fun i => (s.CV i).dropProc p
        sent := s.sent ++
          ((List.finRange MAX_MUTEX).flatMap fun i =>
            if ((s.M i).kolejka.szukaj p).isSome then [⟨EINTR, p⟩] else []) ++
          (List.finRange MAX_CV).flatMap fun i =>
            if (s.CV i).uzywany = true ∧ p ∈ (s.CV i).czekajacy.map (·.1)
              then [⟨EINTR, p⟩] else [] } := by
  unfold wyslijEINTR
  simp only
  -- first the queues of the mutexes, then the condition variables
  rw [petlaKolejek (p := p) [⟨EINTR, p⟩], petlaCv (p := p) [⟨EINTR, p⟩]]
  · intro s i h
    simp [h]
  · intro s i h hf
    simp [h, hf]
  · intro s i j h hf
    simp [h, hf, wyslijWiadomosc]
  · intro s i h
    simp [h]
  · intro s i k h
    simp [h, wyslijWiadomosc, ServerState.setM]

/-- `wyslijEINTR` unlinks the process everywhere and reports once per list that held it. -/
theorem wyslijEINTR_eq [Minix] (hst : Unfooled s p) :
    wyslijEINTR s p =
      { s with
        M := fun i => (s.M i).dropProc p
        CV := fun i => (s.CV i).dropProc p
        sent := s.sent ++
          ((List.finRange MAX_MUTEX).flatMap fun i =>
            if p ∈ (s.M i).kolejka.elementy then [⟨EINTR, p⟩] else []) ++
          (List.finRange MAX_CV).flatMap fun i =>
            if (s.CV i).uzywany = true ∧ p ∈ (s.CV i).czekajacy.map (·.1)
              then [⟨EINTR, p⟩] else [] } := by
  have hM : ∀ i, (s.M i).scanned p = (s.M i).dropProc p := fun i =>
    Mutex.scanned_eq (hst.unhidden i)
  -- a scan of a queue with somebody in it stops at `p` itself
  have hfound : ∀ i, ((s.M i).kolejka.szukaj p).isSome = true ↔ p ∈ (s.M i).kolejka.elementy :=
    fun i => Kolejka.isSome_szukaj (hst i)
  rw [wyslijEINTR_scans]
  simp only [hM, hfound]

/-- What `usunZakonczonyProces` does, whatever the sentinels hold: it unlocks every slot the
process owns and scans every queue and every used condition; only the hand-overs of the
unlocked mutexes are sent. -/
theorem usunZakonczonyProces_scans [Minix] (hs : TableInv s) (p : ℤ) :
    usunZakonczonyProces s p =
      { s with
        M := fun i => ((s.M i).unlockedBy p).scanned p
        CV := fun i => (s.CV i).dropProc p
        sent := s.sent ++ (List.finRange MAX_MUTEX).flatMap fun i => (s.M i).handover p } := by
  unfold usunZakonczonyProces
  simp only
  rw [petlaZwolnij (s := { s with aktualnyProces := p }) (p := p) hs.mutexUnique rfl,
    petlaKolejek (p := p) [], petlaCv (p := p) []]
  · simp
  · intro s i h
    simp [h]
  · intro s i h hf
    simp [h, hf]
  · intro s i j h hf
    simp [h, hf]
  · intro s i h
    simp [h]
  · intro s i k h
    simp [h, ServerState.setM]

/-- `usunZakonczonyProces` unlocks every slot the process owns, unlinks the process
everywhere, and sends only the hand-overs of the unlocked mutexes. -/
theorem usunZakonczonyProces_eq [Minix] (hs : TableInv s) (hst : Unhidden s p) :
    usunZakonczonyProces s p =
      { s with
        M := fun i => ((s.M i).unlockedBy p).dropProc p
        CV := fun i => (s.CV i).dropProc p
        sent := s.sent ++ (List.finRange MAX_MUTEX).flatMap fun i => (s.M i).handover p } := by
  -- unlocking does not touch the sentinels and takes nobody into a queue
  have hM : ∀ i, ((s.M i).unlockedBy p).scanned p = ((s.M i).unlockedBy p).dropProc p := by
    intro i
    apply Mutex.scanned_eq
    intro hp
    rw [Mutex.unlockedBy_start]
    exact hst i ((Mutex.unlockedBy_elementy_sublist _ p).subset hp)
  rw [usunZakonczonyProces_scans hs]
  simp only [hM]

end Loops

/-! ## §5 Specifications -/

section Specifications

variable [Minix] {s : ServerState} {p : ℤ}

omit [Minix] in
/-- The condition table without `p`. -/
theorem toMap_cv_dropProc (hs : TableInv s) (p : ℤ) :
    cvView.toMap (fun i => (s.CV i).dropProc p) = ((abs s).remove p).conditions :=
  SlotView.toMap_map (g := fun cv => cv.dropProc p) hs.cvUnique
    (fun _ h => ConditionVariable.dropProc_keys h)
    (fun i h => ConditionVariable.dropProc_val p h (hs.inhabited i h))

omit [Minix] in
/-- Both notification handlers keep the invariant of the tables: they use no new slot, keep
the numbers, and leave queues of free slots empty. -/
private theorem sweep_tableInv (hs : TableInv s) {g : Mutex → Mutex} {aktualny : ℤ}
    {out : List Reply}
    (hkeys : ∀ x, (g x).uzywany = true → x.uzywany = true ∧ (g x).numer = x.numer)
    (hfree : ∀ x, (x.uzywany = false → x.kolejka.elementy = []) → (g x).uzywany = false →
      (g x).kolejka.elementy = []) :
    TableInv ⟨fun i => g (s.M i), fun i => (s.CV i).dropProc p, aktualny, out⟩ where
  mutexUnique := hs.mutexUnique.of_keys fun i h => hkeys (s.M i) h
  cvUnique := hs.cvUnique.of_keys fun _ h => ConditionVariable.dropProc_keys h
  free_empty i h := hfree (s.M i) (hs.free_empty i) h
  inhabited i h :=
    have hold := ConditionVariable.dropProc_keys h
    (ConditionVariable.dropProc_size (hs.inhabited i hold.1) h).1
  bounded i h :=
    have hold := ConditionVariable.dropProc_keys h
    (ConditionVariable.dropProc_size (hs.inhabited i hold.1) h).2.trans (hs.bounded i hold.1)

omit [Minix] in
/-- A report for every slot that lists `p` is one report if `p` waits, and none if not. -/
private theorem report_listIn (hs : TableInv s) (ha : (abs s).WellFormed) (r : Reply)
    [Decidable ((abs s).Waiting p)] :
    ((List.finRange MAX_MUTEX).flatMap fun i =>
        if p ∈ (s.M i).kolejka.elementy then [r] else []) ++
      ((List.finRange MAX_CV).flatMap fun i =>
        if (s.CV i).uzywany = true ∧ p ∈ (s.CV i).czekajacy.map (·.1) then [r] else []) =
      if (abs s).Waiting p then [r] else [] := by
  -- the two loops together scan one list of slots
  let slots : List (Fin MAX_MUTEX ⊕ Fin MAX_CV) :=
    (List.finRange MAX_MUTEX).map .inl ++ (List.finRange MAX_CV).map .inr
  have hslots : ∀ k, k ∈ slots := by
    rintro (i | i) <;> simp [slots]
  have hnodup : slots.Nodup := by
    refine List.Nodup.append ?_ ?_ ?_
    · exact (List.nodup_finRange _).map Sum.inl_injective
    · exact (List.nodup_finRange _).map Sum.inr_injective
    · intro k hk hk'
      obtain ⟨i, -, rfl⟩ := List.mem_map.mp hk
      simp at hk'
  -- at most one slot lists `p`
  have hlog := flatMap_report (fun k => decide (p ∈ listIn s k)) r slots hnodup
    fun k _ k' _ hk hk' =>
      (listIn_exclusive hs ha).eq_of_mem (of_decide_eq_true hk) (of_decide_eq_true hk')
  have hany : slots.any (fun k => decide (p ∈ listIn s k)) = true ↔ (abs s).Waiting p := by
    rw [← listed_listIn_iff hs, List.any_eq_true]
    constructor
    · intro hex
      obtain ⟨k, -, hk⟩ := hex
      exact ⟨k, of_decide_eq_true hk⟩
    · intro hex
      obtain ⟨k, hk⟩ := hex
      exact ⟨k, hslots k, decide_eq_true hk⟩
  simp only [hany] at hlog
  rw [← hlog]
  simp only [slots, List.flatMap_append, List.flatMap_map, decide_eq_true_eq, mem_listIn_mutex,
    mem_listIn_cv]

/-- Whatever the sentinels hold, `wyslijEINTR` keeps the invariant of the tables. -/
theorem wyslijEINTR_tableInv (hs : TableInv s) (p : ℤ) : TableInv (wyslijEINTR s p) := by
  rw [wyslijEINTR_scans]
  apply sweep_tableInv hs (g := fun x => x.scanned p)
  · intro x h
    simpa using h
  · intro x hx h
    have hempty := hx (by simpa using h)
    simpa [hempty] using x.scanned_elementy_sublist p

/-- Whatever the sentinels hold, `usunZakonczonyProces` keeps the invariant of the tables. -/
theorem usunZakonczonyProces_tableInv (hs : TableInv s) (p : ℤ) :
    TableInv (usunZakonczonyProces s p) := by
  rw [usunZakonczonyProces_scans hs]
  apply sweep_tableInv hs (g := fun x => (x.unlockedBy p).scanned p)
  · intro x h
    simpa using Mutex.unlockedBy_keys (by simpa using h)
  · intro x hx h
    have hempty := Mutex.unlockedBy_free hx (by simpa using h)
    simpa [hempty] using (x.unlockedBy p).scanned_elementy_sublist p

/-- **Specification of `wyslijEINTR`**: the lock manager's `interrupt`. -/
theorem wyslijEINTR_spec (hs : TableInv s) (hst : Unfooled s p) :
    TableInv (wyslijEINTR s p) ∧ abs (wyslijEINTR s p) = (abs s).remove p ∧
      (∃ out, (wyslijEINTR s p).sent = s.sent ++ out ∧
        ((abs s).WellFormed → (abs s).Replies (.interrupt p) out)) ∧
      SameSentinels s (wyslijEINTR s p) := by
  rw [wyslijEINTR_eq hst]
  refine ⟨?_, ?_, ?_, fun _ => rfl⟩
  · apply sweep_tableInv hs (g := fun x => x.dropProc p)
    · intro x h
      exact ⟨h, rfl⟩
    · intro x hx h
      simp [Mutex.dropProc, hx h]
  · apply Manager.ext
    · refine SlotView.toMap_map (g := fun x => x.dropProc p) hs.mutexUnique (fun _ h => ⟨h, rfl⟩)
        fun i h => ?_
      have h' : (s.M i).uzywany = true := h
      simp [Mutex.dropProc, mutexView, h']
    · exact toMap_cv_dropProc hs p
  · refine ⟨_, List.append_assoc _ _ _, fun ha => ?_⟩
    classical
    -- a process waits in one place at most, so at most one reply is sent
    rw [report_listIn hs ha]
    by_cases hw : (abs s).Waiting p
    · exact Or.inl ⟨hw, if_pos hw⟩
    · exact Or.inr ⟨hw, if_neg hw⟩

omit [Minix] in
/-- The hand-overs of the slots that `p` owns, as messages of the lock manager. -/
private theorem handovers_eq (hs : TableInv s) :
    ((List.finRange MAX_MUTEX).flatMap fun i => (s.M i).handover p) =
      (((List.finRange MAX_MUTEX).filter fun i =>
        (s.M i).uzywany && (s.M i).wlasciciel == p).map fun i => (s.M i).numer).filterMap
          (abs s).handOver := by
  induction List.finRange MAX_MUTEX with
  | nil => rfl
  | cons i l ih =>
    rw [List.flatMap_cons, ih, List.filter_cons]
    by_cases h : (s.M i).uzywany = true ∧ (s.M i).wlasciciel = p
    · have hq : (abs s).queue (s.M i).numer = (s.M i).kolejka.elementy :=
        Manager.queue_of_get (mutexes_get_of_indeks hs (indeks_mutexa_used hs h.1))
      simp only [h.1, h.2, beq_self_eq_true, Bool.and_self, ↓reduceIte, List.map_cons,
        List.filterMap_cons, Manager.handOver, hq, Mutex.handover, and_self]
      cases (s.M i).kolejka.elementy <;> simp
    · have hb : ((s.M i).uzywany && (s.M i).wlasciciel == p) = false := by simpa using h
      simp [Mutex.handover, h, hb]

/-- **Specification of `usunZakonczonyProces`**: the lock manager's `exit`. -/
theorem usunZakonczonyProces_spec (hs : TableInv s) (hst : Unhidden s p) :
    TableInv (usunZakonczonyProces s p) ∧ abs (usunZakonczonyProces s p) = (abs s).exit p ∧
      (∃ out, (usunZakonczonyProces s p).sent = s.sent ++ out ∧ (abs s).Replies (.exit p) out) ∧
      SameSentinels s (usunZakonczonyProces s p) := by
  rw [usunZakonczonyProces_eq hs hst]
  refine ⟨?_, ?_, ⟨_, rfl, ?_⟩, fun i => Mutex.unlockedBy_start (s.M i) p⟩
  · apply sweep_tableInv hs (g := fun x => (x.unlockedBy p).dropProc p)
    · intro x h
      exact Mutex.unlockedBy_keys h
    · intro x hx h
      simp [Mutex.dropProc, Mutex.unlockedBy_free hx h]
  · apply Manager.ext
    · exact SlotView.toMap_map (g := fun x => (x.unlockedBy p).dropProc p) hs.mutexUnique
        (fun _ h => Mutex.unlockedBy_keys h) fun i h => Mutex.exit_val p h
    · exact toMap_cv_dropProc hs p
  · refine ⟨_, ?_, ?_, handovers_eq hs⟩
    · -- different used slots have different numbers
      apply List.Nodup.map_on ?_ ((List.nodup_finRange _).filter _)
      intro i hi j hj hij
      simp only [List.mem_filter, Bool.and_eq_true] at hi hj
      exact hs.mutexUnique i j hi.2.1 hj.2.1 hij
    · intro m
      simp only [List.mem_map, List.mem_filter, List.mem_finRange, true_and, Bool.and_eq_true,
        beq_iff_eq]
      constructor
      · intro hex
        obtain ⟨i, ⟨hused, ho⟩, rfl⟩ := hex
        exact ⟨_, ho ▸ mutexes_get_of_indeks hs (indeks_mutexa_used hs hused)⟩
      · intro hex
        obtain ⟨q, hq⟩ := hex
        obtain ⟨i, hused, hkey, hval⟩ := (SlotView.toMap_get_eq_some_iff hs.mutexUnique).mp hq
        exact ⟨i, ⟨hused, (Prod.mk.inj hval).1⟩, hkey⟩

end Specifications

end MinixCv.Server

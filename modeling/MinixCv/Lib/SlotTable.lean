import MinixCv.Lib.PartialMap
import Mathlib.Data.List.FinRange
import Mathlib.Data.Set.Finite.Range

/-!
# First-Fit Slot Tables

A fixed array of slots in which some slots are *used*; a used slot binds its key to
its value.  Keys are found by linear search, new keys take the first unused slot, and
a freed slot keeps its old contents.  Read as a partial map such a table forgets
which slot holds which key:

- `find`, `firstFree`: the two search loops, with the loop's exit value
- `Unique`: no two used slots share a key
- `toMap`: the partial map a table stands for
- `toMap_update_used`, `toMap_update_free`, `toMap_update_alloc`: writing one slot
- `toMap_map`: rewriting every slot
- `foldl_sweep`: a loop over all slots whose body changes only the slot it visits
-/

namespace MinixCv.Lib

universe u v w

/-- How a slot is read: whether it is used, its key and its value. -/
structure SlotView (σ : Type u) (K : Type v) (V : Type w) where
  used : σ → Bool
  key : σ → K
  val : σ → V

namespace SlotView

variable {σ : Type u} {K : Type v} {V : Type w} {n : ℕ}

/-- First used slot with key `k`. -/
def find [DecidableEq K] (w : SlotView σ K V) (t : Fin n → σ) (k : K) : Option (Fin n) :=
  (List.finRange n).find? fun i => w.used (t i) && w.key (t i) == k

/-- Exit value of the loop that looks for an unused slot: `n` when there is none. -/
def firstFree (w : SlotView σ K V) (t : Fin n → σ) : ℕ :=
  (List.finRange n).findIdx fun i => !w.used (t i)

/-- No two used slots share a key. -/
def Unique (w : SlotView σ K V) (t : Fin n → σ) : Prop :=
  ∀ i j, w.used (t i) = true → w.used (t j) = true → w.key (t i) = w.key (t j) → i = j

/-! ## §1 The search loops -/

theorem find_some_spec [DecidableEq K] {w : SlotView σ K V} {t : Fin n → σ} {k : K} {i : Fin n}
    (h : w.find t k = some i) : w.used (t i) = true ∧ w.key (t i) = k := by
  have := List.find?_some h
  simpa using this

theorem find_eq_none_iff [DecidableEq K] {w : SlotView σ K V} {t : Fin n → σ} {k : K} :
    w.find t k = none ↔ ∀ i, w.used (t i) = true → w.key (t i) ≠ k := by
  simp [find, List.find?_eq_none]

theorem find_eq_some_iff [DecidableEq K] {w : SlotView σ K V} {t : Fin n → σ}
    (hu : w.Unique t) {k : K} {i : Fin n} :
    w.find t k = some i ↔ w.used (t i) = true ∧ w.key (t i) = k := by
  constructor
  · exact find_some_spec
  · intro hboth
    obtain ⟨hused, hkey⟩ := hboth
    -- with unique keys the first hit is the only slot with this key
    cases hf : w.find t k with
    | none => exact absurd hkey (find_eq_none_iff.mp hf i hused)
    | some j =>
      obtain ⟨hj, hkj⟩ := find_some_spec hf
      rw [hu i j hused hj (hkey.trans hkj.symm)]

theorem firstFree_le (w : SlotView σ K V) (t : Fin n → σ) : w.firstFree t ≤ n := by
  have h : w.firstFree t ≤ (List.finRange n).length := List.findIdx_le_length
  simpa using h

theorem firstFree_not_used (w : SlotView σ K V) (t : Fin n → σ) (h : w.firstFree t < n) :
    w.used (t ⟨w.firstFree t, h⟩) = false := by
  have hlen : (List.finRange n).findIdx (fun i => !w.used (t i)) < (List.finRange n).length := by
    simpa [firstFree] using h
  have := List.findIdx_getElem (w := hlen)
  simpa [firstFree] using this

theorem firstFree_lt_iff (w : SlotView σ K V) (t : Fin n → σ) :
    w.firstFree t < n ↔ ∃ i, w.used (t i) = false := by
  constructor
  · intro h
    exact ⟨_, w.firstFree_not_used t h⟩
  · intro hex
    obtain ⟨i, hi⟩ := hex
    have h : w.firstFree t < (List.finRange n).length :=
      List.findIdx_lt_length_of_exists ⟨i, List.mem_finRange i, by simp [hi]⟩
    simpa using h

/-! ## §2 The map a table stands for -/

/-- The partial map of the used slots. -/
def toMap [DecidableEq K] (w : SlotView σ K V) (t : Fin n → σ) : PartialMap K V where
  get k := (w.find t k).map fun i => w.val (t i)
  finite_dom := by
    -- a bound key is the key of one of the `n` slots
    apply (Set.finite_range fun i => w.key (t i)).subset
    intro k hk
    cases hf : w.find t k with
    | none => simp [hf] at hk
    | some i => exact ⟨i, (find_some_spec hf).2⟩

section ToMap

variable [DecidableEq K] {w : SlotView σ K V} {t : Fin n → σ}

theorem toMap_get_eq_some_iff (hu : w.Unique t) {k : K} {v : V} :
    (w.toMap t).get k = some v ↔ ∃ i, w.used (t i) = true ∧ w.key (t i) = k ∧ w.val (t i) = v := by
  simp [toMap, find_eq_some_iff hu, and_assoc]

theorem toMap_get_eq_none_iff {k : K} :
    (w.toMap t).get k = none ↔ ∀ i, w.used (t i) = true → w.key (t i) ≠ k := by
  simp [toMap, find_eq_none_iff]

theorem toMap_get_used (hu : w.Unique t) {i : Fin n} (hi : w.used (t i) = true) :
    (w.toMap t).get (w.key (t i)) = some (w.val (t i)) :=
  (toMap_get_eq_some_iff hu).mpr ⟨i, hi, rfl, rfl⟩

/-! ## §3 Writing one slot -/

omit [DecidableEq K] in
/-- Uniqueness survives a write that brings in no key of another used slot. -/
theorem unique_update (hu : w.Unique t) {i : Fin n} {x : σ}
    (hx : w.used x = true → ∀ j, j ≠ i → w.used (t j) = true → w.key (t j) ≠ w.key x) :
    w.Unique (Function.update t i x) := by
  intro a b ha hb hab
  -- the written slot against itself, against another one, and two others
  by_cases hai : a = i <;> by_cases hbi : b = i
  · rw [hai, hbi]
  · subst hai
    simp only [Function.update_self, Function.update_of_ne hbi] at ha hb hab
    exact absurd hab.symm (hx ha b hbi hb)
  · subst hbi
    simp only [Function.update_self, Function.update_of_ne hai] at ha hb hab
    exact absurd hab (hx hb a hai ha)
  · simp only [Function.update_of_ne hai, Function.update_of_ne hbi] at ha hb hab
    exact hu a b ha hb hab

/-- What the table binds after a write: the new slot's key, and no longer the old one's. -/
theorem toMap_update_get (hu : w.Unique t) {i : Fin n} {x : σ}
    (hu' : w.Unique (Function.update t i x)) (k : K) :
    (w.toMap (Function.update t i x)).get k =
      if w.used x = true ∧ w.key x = k then some (w.val x)
      else if w.used (t i) = true ∧ w.key (t i) = k then none
      else (w.toMap t).get k := by
  split_ifs with hnew hold
  · exact (toMap_get_eq_some_iff hu').mpr ⟨i, by simp [hnew.1], by simp [hnew.2], by simp⟩
  · rw [toMap_get_eq_none_iff]
    intro j hj hkj
    by_cases hji : j = i
    · subst hji
      simp only [Function.update_self] at hj hkj
      exact hnew ⟨hj, hkj⟩
    · simp only [Function.update_of_ne hji] at hj hkj
      exact hji (hu j i hj hold.1 (hkj.trans hold.2.symm))
  · ext v
    rw [toMap_get_eq_some_iff hu', toMap_get_eq_some_iff hu]
    -- the slot that binds `k` is not the written one, before or after
    have hne : ∀ j, j ≠ i → Function.update t i x j = t j := fun j hj => Function.update_of_ne hj x t
    constructor
    · intro hex
      obtain ⟨j, hj, hkj, hv⟩ := hex
      have hji : j ≠ i := by
        intro heq
        subst heq
        simp only [Function.update_self] at hj hkj
        exact hnew ⟨hj, hkj⟩
      rw [hne j hji] at hj hkj hv
      exact ⟨j, hj, hkj, hv⟩
    · intro hex
      obtain ⟨j, hj, hkj, hv⟩ := hex
      have hji : j ≠ i := by
        intro heq
        subst heq
        exact hold ⟨hj, hkj⟩
      refine ⟨j, ?_, ?_, ?_⟩ <;> rw [hne j hji]
      exacts [hj, hkj, hv]

omit [DecidableEq K] in
theorem unique_update_used (hu : w.Unique t) {i : Fin n} {x : σ} (hi : w.used (t i) = true)
    (hk : w.key x = w.key (t i)) : w.Unique (Function.update t i x) :=
  unique_update hu fun _ j hji hj hkj => hji (hu j i hj hi (hkj.trans hk))

omit [DecidableEq K] in
theorem unique_update_free (hu : w.Unique t) {i : Fin n} {x : σ} (hx : w.used x = false) :
    w.Unique (Function.update t i x) :=
  unique_update hu fun h => by simp [hx] at h

theorem unique_update_alloc (hu : w.Unique t) {i : Fin n} {x : σ}
    (hfresh : (w.toMap t).get (w.key x) = none) : w.Unique (Function.update t i x) :=
  unique_update hu fun _ j _ hj => toMap_get_eq_none_iff.mp hfresh j hj

/-- Overwriting a used slot with a used slot of the same key rebinds the key. -/
theorem toMap_update_used (hu : w.Unique t) {i : Fin n} {x : σ} (hi : w.used (t i) = true)
    (hx : w.used x = true) (hk : w.key x = w.key (t i)) :
    w.toMap (Function.update t i x) = (w.toMap t).set (w.key (t i)) (some (w.val x)) := by
  apply PartialMap.ext
  funext k
  rw [toMap_update_get hu (unique_update_used hu hi hk), PartialMap.set_get]
  by_cases hki : k = w.key (t i)
  · simp [hki, hx, hk]
  · simp [hk, Ne.symm hki, hki]

/-- Overwriting a used slot with an unused one unbinds its key. -/
theorem toMap_update_free (hu : w.Unique t) {i : Fin n} {x : σ} (hi : w.used (t i) = true)
    (hx : w.used x = false) :
    w.toMap (Function.update t i x) = (w.toMap t).set (w.key (t i)) none := by
  apply PartialMap.ext
  funext k
  rw [toMap_update_get hu (unique_update_free hu hx), PartialMap.set_get]
  by_cases hki : k = w.key (t i)
  · simp [hki, hx, hi]
  · simp [hx, Ne.symm hki, hki]

/-- Overwriting an unused slot with a used one of a fresh key binds that key. -/
theorem toMap_update_alloc (hu : w.Unique t) {i : Fin n} {x : σ} (hi : w.used (t i) = false)
    (hx : w.used x = true) (hfresh : (w.toMap t).get (w.key x) = none) :
    w.toMap (Function.update t i x) = (w.toMap t).set (w.key x) (some (w.val x)) := by
  apply PartialMap.ext
  funext k
  rw [toMap_update_get hu (unique_update_alloc hu hfresh), PartialMap.set_get]
  by_cases hki : k = w.key x
  · simp [hki, hx]
  · simp [hi, Ne.symm hki, hki]

/-! ## §4 Rewriting every slot -/

omit [DecidableEq K] in
/-- Uniqueness survives any change that keeps keys and uses no new slot. -/
theorem Unique.of_keys (hu : w.Unique t) {t' : Fin n → σ}
    (hkeys : ∀ i, w.used (t' i) = true → w.used (t i) = true ∧ w.key (t' i) = w.key (t i)) :
    w.Unique t' := by
  intro a b ha hb hab
  obtain ⟨ha', hka⟩ := hkeys a ha
  obtain ⟨hb', hkb⟩ := hkeys b hb
  exact hu a b ha' hb' (by rw [← hka, ← hkb]; exact hab)

/-- Rewriting every slot, keeping keys and using no new slot, rewrites the bound values. -/
theorem toMap_map (hu : w.Unique t) {g : σ → σ} {G : V → Option V}
    (hg : ∀ i, w.used (g (t i)) = true → w.used (t i) = true ∧ w.key (g (t i)) = w.key (t i))
    (hval : ∀ i, w.used (t i) = true →
      (if w.used (g (t i)) = true then some (w.val (g (t i))) else none) = G (w.val (t i))) :
    w.toMap (fun i => g (t i)) = (w.toMap t).filterMapVals G := by
  apply PartialMap.ext
  funext k
  rw [PartialMap.filterMapVals_get]
  ext v
  rw [toMap_get_eq_some_iff (hu.of_keys hg)]
  constructor
  · -- a slot that is used afterwards was used before, under the same key
    intro hex
    obtain ⟨i, hi, hki, rfl⟩ := hex
    obtain ⟨hi', hkeq⟩ := hg i hi
    have hold := toMap_get_used hu hi'
    have hG := hval i hi'
    rw [if_pos hi] at hG
    rw [← hki, hkeq, hold, Option.bind_some, ← hG]
  · -- a binding that `G` keeps belongs to a slot that stays used
    intro h
    obtain ⟨v₀, hv₀, hG⟩ := Option.bind_eq_some_iff.mp h
    obtain ⟨i, hi, hki, rfl⟩ := (toMap_get_eq_some_iff hu).mp hv₀
    have hvi := hval i hi
    rw [hG] at hvi
    split_ifs at hvi with hused
    exact ⟨i, hused, by rw [(hg i hused).2, hki], by simpa using hvi⟩

/-! ## §5 Counting used slots -/

/-- The map binds as many keys as the table has used slots. -/
theorem count_toMap (hu : w.Unique t) :
    (w.toMap t).count = (Finset.univ.filter fun i => w.used (t i) = true).card := by
  -- the bound keys are the keys of the used slots, one slot for each key
  have hdom : {k | (w.toMap t).get k ≠ none} =
      (fun i => w.key (t i)) '' {i | w.used (t i) = true} := by
    ext k
    simp only [Set.mem_ofPred_eq, Set.mem_image, ne_eq, toMap_get_eq_none_iff, not_forall,
      not_not, exists_prop]
  have hinj : Set.InjOn (fun i => w.key (t i)) {i | w.used (t i) = true} :=
    fun i hi j hj hij => hu i j hi hj hij
  unfold PartialMap.count
  rw [hdom, hinj.ncard_image, ← Set.ncard_coe_finset]
  congr 1
  ext i
  simp

theorem count_toMap_le (hu : w.Unique t) : (w.toMap t).count ≤ n := by
  rw [count_toMap hu]
  exact (Finset.card_le_univ _).trans (by simp)

/-- The free-slot loop stops inside the table exactly when the map leaves room. -/
theorem firstFree_lt_iff_count (hu : w.Unique t) : w.firstFree t < n ↔ (w.toMap t).count < n := by
  rw [firstFree_lt_iff, count_toMap hu]
  constructor
  · intro hex
    obtain ⟨i, hi⟩ := hex
    have hlt : (Finset.univ.filter fun i => w.used (t i) = true).card <
        (Finset.univ : Finset (Fin n)).card := by
      apply Finset.card_lt_card
      exact Finset.filter_ssubset.mpr ⟨i, Finset.mem_univ i, by simp [hi]⟩
    simpa using hlt
  · intro hlt
    -- were every slot used, the map would bind `n` keys
    by_contra hall
    push Not at hall
    have hfull : (Finset.univ.filter fun i => w.used (t i) = true) = Finset.univ := by
      apply Finset.filter_true_of_mem
      intro i _
      simpa using hall i
    rw [hfull] at hlt
    simp at hlt

end ToMap

end SlotView

/-! ## §6 Sweeps over a table -/

section Sweep

variable {ι : Type u} {σ : Type v} {β : Type w} {S : Type*} [DecidableEq ι]

/-- A loop over slots whose body rewrites the slot it visits with `g` and appends `h`
of its old contents to a log.  `put` places a table and a log into the loop's state.
The body is only asked to do so on tables whose slots are still as at the start or
already rewritten. -/
theorem foldl_sweep (put : (ι → σ) → List β → S) (body : S → ι → S) (t : ι → σ)
    (g : σ → σ) (h : σ → List β)
    (hbody : ∀ t' log i, (∀ j, t' j = t j ∨ t' j = g (t j)) → t' i = t i →
      body (put t' log) i = put (Function.update t' i (g (t i))) (log ++ h (t i)))
    (log : List β) (l : List ι) (hl : l.Nodup) :
    l.foldl body (put t log) =
      put (fun i => if i ∈ l then g (t i) else t i) (log ++ l.flatMap fun i => h (t i)) := by
  induction l using List.reverseRecOn with
  | nil => simp
  | append_singleton l i ih =>
    -- the slot visited last has not been touched before: no slot is visited twice
    have hnodup : l.Nodup ∧ i ∉ l := by
      rw [List.nodup_append] at hl
      exact ⟨hl.1, fun hi => hl.2.2 i hi i (by simp) rfl⟩
    rw [List.foldl_append, ih hnodup.1, List.foldl_cons, List.foldl_nil, hbody]
    · congr 1
      · funext j
        by_cases hji : j = i
        · simp [hji]
        · simp [hji]
      · simp
    · intro j
      by_cases hj : j ∈ l <;> simp [hj]
    · simp [hnodup.2]

end Sweep

end MinixCv.Lib

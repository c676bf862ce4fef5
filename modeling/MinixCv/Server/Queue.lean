import Mathlib.Data.List.Basic
import Mathlib.Data.Int.Notation
import Mathlib.Tactic.Common

/-!
# The Wait Queue Of A Mutex

The operations of `queue.h`, on the values a queue holds.  A queue is a linked list
between two sentinel elements; its state here is

- `start`, `koniec`: what `malloc` left in the `proces` field of the two sentinels,
  which nothing ever sets
- `elementy`: the `proces` values strictly between the sentinels, front first

`FOR_EACH` starts at the head sentinel, so a scan for a process reads `start` before
any waiting process.
-/

namespace MinixCv.Server

/-- `struct kolejka`, by the values in its elements. -/
structure Kolejka where
  start : ℤ
  koniec : ℤ
  elementy : List ℤ
  deriving DecidableEq, Repr

namespace Kolejka

/-- A new queue; `malloc` left `start` and `koniec` in the two sentinels. -/
def utworzKolejke (start koniec : ℤ) : Kolejka := ⟨start, koniec, []⟩

/-- Insert before the tail sentinel. -/
def wstaw (q : Kolejka) (proces : ℤ) : Kolejka :=
  { q with elementy := q.elementy ++ [proces] }

/-- Take the element after the head sentinel.  On an empty queue that is the tail
    sentinel; every caller has tested `czyPusto` first. -/
def pierwszyKolejka (q : Kolejka) : ℤ × Kolejka :=
  match q.elementy with
  | [] => (q.koniec, q)
  | proces :: reszta => (proces, { q with elementy := reszta })

def czyPusto (q : Kolejka) : Bool := q.elementy.isEmpty

/-- The `proces` values that `FOR_EACH` visits, in its order. -/
def forEach (q : Kolejka) : List ℤ := q.start :: q.elementy

/-- Unlink the element that `FOR_EACH` visits at position `item`.  No element precedes
    the head sentinel (position `0`), so it is never unlinked. -/
def usunElement (q : Kolejka) (item : ℕ) : Kolejka :=
  match item with
  | 0 => q
  | k + 1 => { q with elementy := q.elementy.eraseIdx k }

/-- The scan shared by the two sweeps over the queues: `czyPusto` first, then `FOR_EACH`
    up to the first element that holds `proces`. -/
def szukaj (q : Kolejka) (proces : ℤ) : Option ℕ :=
  if q.czyPusto then none else q.forEach.findIdx? (· == proces)

/-! ## What the scan finds when the head sentinel does not get in its way -/

theorem szukaj_eq_none {q : Kolejka} {p : ℤ} (hstart : q.start ≠ p) :
    q.szukaj p = none ↔ p ∉ q.elementy := by
  unfold szukaj czyPusto forEach
  cases hq : q.elementy with
  | nil => simp
  | cons x xs =>
    -- the scan passes the head sentinel and then reads the waiting processes
    have hb : (q.start == p) = false := by simpa using hstart
    rw [List.isEmpty_cons, if_neg Bool.false_ne_true, List.findIdx?_cons, hb,
      if_neg Bool.false_ne_true, Option.map_eq_none_iff, List.findIdx?_eq_none_iff]
    constructor
    · intro h hmem
      simpa using h p hmem
    · intro h y hy
      simpa using fun hyp : y = p => h (hyp ▸ hy)

/-- A scan of a queue that holds the process in its head sentinel stops there. -/
theorem szukaj_of_start {q : Kolejka} {p : ℤ} (hstart : q.start = p) {k : ℕ}
    (hk : q.szukaj p = some k) : k = 0 := by
  unfold szukaj at hk
  split_ifs at hk
  simpa [forEach, List.findIdx?_cons, hstart, eq_comm] using hk

/-- The scan stops exactly if the process is in the queue, as long as the head sentinel of a
queue with somebody in it holds something else. -/
theorem isSome_szukaj {q : Kolejka} {p : ℤ} (hstart : q.elementy ≠ [] → q.start ≠ p) :
    (q.szukaj p).isSome = true ↔ p ∈ q.elementy := by
  by_cases hempty : q.elementy = []
  · simp [szukaj, czyPusto, hempty]
  · rw [Option.isSome_iff_ne_none, ne_eq, szukaj_eq_none (hstart hempty), not_not]

theorem usunElement_szukaj {q : Kolejka} {p : ℤ} (hstart : q.start ≠ p) {k : ℕ}
    (hk : q.szukaj p = some k) :
    q.usunElement k = { q with elementy := q.elementy.erase p } := by
  have hb : (q.start == p) = false := by simpa using hstart
  unfold szukaj forEach at hk
  split_ifs at hk with hempty
  rw [List.findIdx?_cons, hb] at hk
  simp only [Bool.false_eq_true, ↓reduceIte, Option.map_eq_some_iff] at hk
  -- position `j + 1` of the walk is entry `j` of the list
  obtain ⟨j, hj, rfl⟩ := hk
  simp only [usunElement]
  rw [List.erase_eq_eraseP', List.eraseP_eq_eraseIdx, hj]

end Kolejka

end MinixCv.Server

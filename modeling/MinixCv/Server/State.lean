import MinixCv.Server.Queue
import Mathlib.Data.Fintype.Card

/-!
# State Of The `cv` Server

The globals of `main.c` (`M`, `CV`, `aktualnyProces`) together with the messages the
server has passed to `send`, and the constants of `includes.h`.

The error numbers come from MINIX's `errno.h`, which is not part of the repository.
`Minix` names them by their user-mode values; the server is compiled with `_SYSTEM`,
where the same names stand for the opposite numbers.
-/

namespace MinixCv

/-- What the code takes from MINIX: the user-mode error numbers and PM's endpoint. -/
class Minix where
  EPERM : ℤ
  EINTR : ℤ
  EINVAL : ℤ
  EDONTREPLY : ℤ
  PM_PROC_NR : ℤ
  EPERM_pos : 0 < EPERM
  EINTR_pos : 0 < EINTR
  EINVAL_pos : 0 < EINVAL
  EDONTREPLY_pos : 0 < EDONTREPLY
  EPERM_ne_EDONTREPLY : EPERM ≠ EDONTREPLY
  EPERM_ne_EINTR : EPERM ≠ EINTR

/-- The numbers of MINIX 3.2.1. -/
@[reducible] def Minix.v321 : Minix where
  EPERM := 1
  EINTR := 4
  EINVAL := 22
  EDONTREPLY := 201
  PM_PROC_NR := 0
  EPERM_pos := by decide
  EINTR_pos := by decide
  EINVAL_pos := by decide
  EDONTREPLY_pos := by decide
  EPERM_ne_EDONTREPLY := by decide
  EPERM_ne_EINTR := by decide

namespace Server

/-! ## §1 Constants -/

section Errno

variable [Minix]

def OK : ℤ := 0
def EPERM : ℤ := -Minix.EPERM
def EINTR : ℤ := -Minix.EINTR
def EINVAL : ℤ := -Minix.EINVAL
def EDONTREPLY : ℤ := -Minix.EDONTREPLY

@[simp] theorem OK_ne_EDONTREPLY : OK ≠ EDONTREPLY := by
  have := Minix.EDONTREPLY_pos
  simp only [OK, EDONTREPLY]
  omega

theorem OK_ne_EPERM : OK ≠ EPERM := by
  have := Minix.EPERM_pos
  simp only [OK, EPERM]
  omega

@[simp] theorem EPERM_ne_EDONTREPLY : EPERM ≠ EDONTREPLY := by
  have := Minix.EPERM_ne_EDONTREPLY
  simp only [EPERM, EDONTREPLY]
  omega

@[simp] theorem neg_EINVAL_ne_EDONTREPLY : -EINVAL ≠ EDONTREPLY := by
  have h₁ := Minix.EINVAL_pos
  have h₂ := Minix.EDONTREPLY_pos
  simp only [EINVAL, EDONTREPLY]
  omega

end Errno

def MAX_MUTEX : ℕ := 1024
def MAX_CV : ℕ := 512

/-- Declared length of the arrays `procesy` and `muteksy`. -/
def MAX_CZEKAJACYCH : ℕ := 512

def CS_LOCK : ℤ := 1
def CS_UNLOCK : ℤ := 2
def CS_WAIT : ℤ := 3
def CS_BROADCAST : ℤ := 4
def CS_EINTR : ℤ := 5
def CS_EXIT : ℤ := 6

/-! ## §2 Tables -/

/-- `struct mutex` -/
structure Mutex where
  uzywany : Bool
  numer : ℤ
  wlasciciel : ℤ
  kolejka : Kolejka

/-- `struct conditionVariable`.  The cells of the two arrays are addressed by any index;
    the handlers refuse to write one at or behind `MAX_CZEKAJACYCH`. -/
structure ConditionVariable where
  uzywany : Bool
  numer : ℤ
  procesy : ℕ → ℤ
  muteksy : ℕ → ℤ
  size : ℕ

/-- A message the server passes to `send`: its `m_type` and its addressee. -/
structure Reply where
  typ : ℤ
  dokad : ℤ
  deriving DecidableEq, Repr

/-- The globals of the server, and what it has sent while handling the current message. -/
structure ServerState where
  M : Fin MAX_MUTEX → Mutex
  CV : Fin MAX_CV → ConditionVariable
  aktualnyProces : ℤ
  sent : List Reply

namespace ServerState

/-- A used slot of `M` has number `m` and owner `p`. -/
def Owns (s : ServerState) (p m : ℤ) : Prop :=
  ∃ i, (s.M i).uzywany = true ∧ (s.M i).numer = m ∧ (s.M i).wlasciciel = p

/-- `p` is in the queue of the used slot with number `m`. -/
def Queued (s : ServerState) (p m : ℤ) : Prop :=
  ∃ i, (s.M i).uzywany = true ∧ (s.M i).numer = m ∧ p ∈ (s.M i).kolejka.elementy

/-- One of the first `size` entries of the used condition with number `c` is `p` with
    mutex `m`. -/
def Registered (s : ServerState) (p c m : ℤ) : Prop :=
  ∃ i, (s.CV i).uzywany = true ∧ (s.CV i).numer = c ∧
    ∃ j < (s.CV i).size, (s.CV i).procesy j = p ∧ (s.CV i).muteksy j = m

end ServerState

/-- The tables as `main` leaves them before its loop.  `start` and `koniec` are what
    `malloc` left in the sentinels of each queue; the other fields are zero. -/
def initial (start koniec : Fin MAX_MUTEX → ℤ) : ServerState where
  M i := ⟨false, 0, 0, Kolejka.utworzKolejke (start i) (koniec i)⟩
  CV _ := ⟨false, 0, fun _ => 0, fun _ => 0, 0⟩
  aktualnyProces := 0
  sent := []

/-- A write outside an array, with the index the code would write at. -/
inductive TableFault where
  | mutexSlot (i : ℕ)
  | cvSlot (i : ℕ)
  | waiter (i size : ℕ)
  deriving DecidableEq, Repr

/-! ## §3 Messages -/

/-- The fields of a MINIX `message` that the server reads. -/
structure Message where
  mSource : ℤ
  mType : ℤ
  m1i1 : ℤ
  m1i2 : ℤ
  deriving DecidableEq, Repr

/-- `PM_PROC` is `m7_i1`, which shares its place in the message union with `m1_i1`. -/
def Message.pmProc (m : Message) : ℤ := m.m1i1

end Server

end MinixCv

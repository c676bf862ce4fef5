import MinixCv.Server.State
import Mathlib.Data.List.FinRange
import Mathlib.Logic.Function.Basic

/-!
# Handlers Of The `cv` Server

The functions of `main.c`, as functions on `ServerState`.  A `FOR` loop that stops at
the first hit is a search; a `FOR` loop that changes the tables is a left fold over the
slots.  `csLock` and `csWait` write at an index that the code does not check: an index
outside the table is a `TableFault`, and the handlers that call them pass it on.
-/

namespace MinixCv.Server

open Kolejka

namespace ServerState

/-- `M[i] = x` -/
def setM (s : ServerState) (i : Fin MAX_MUTEX) (x : Mutex) : ServerState :=
  { s with M := Function.update s.M i x }

/-- `CV[i] = x` -/
def setCV (s : ServerState) (i : Fin MAX_CV) (x : ConditionVariable) : ServerState :=
  { s with CV := Function.update s.CV i x }

end ServerState

def wyslijWiadomosc (typ dokad : ℤ) (s : ServerState) : ServerState :=
  { s with sent := s.sent ++ [⟨typ, dokad⟩] }

/-! ## §1 Search loops -/

/-- Index of the used mutex with this number; `none` stands for the code's `-1`. -/
def indeksUzywanegoMutexa (s : ServerState) (numerMutexu : ℤ) : Option (Fin MAX_MUTEX) :=
  (List.finRange MAX_MUTEX).find? fun i => (s.M i).uzywany && (s.M i).numer == numerMutexu

def indeksUzywanegoCv (s : ServerState) (numerCv : ℤ) : Option (Fin MAX_CV) :=
  (List.finRange MAX_CV).find? fun i => (s.CV i).uzywany && (s.CV i).numer == numerCv

/-- Value of `i` after the loop of `cs_lock` that looks for a free slot; `MAX_MUTEX` when
    it runs through. -/
def wolnyMutex (s : ServerState) : ℕ :=
  (List.finRange MAX_MUTEX).findIdx fun i => !(s.M i).uzywany

/-- Value of `i` after the loop of `cs_wait` that looks for a free slot. -/
def wolnyCv (s : ServerState) : ℕ :=
  (List.finRange MAX_CV).findIdx fun i => !(s.CV i).uzywany

/-! ## §2 Requests -/

section Requests

variable [Minix]

def csLock (s : ServerState) (numerMutexu : ℤ) : Except TableFault (ℤ × ServerState) :=
  match indeksUzywanegoMutexa s numerMutexu with
  | none =>
    -- `i` is not compared with `MAX_MUTEX` after the loop
    if h : wolnyMutex s < MAX_MUTEX then
      let i : Fin MAX_MUTEX := ⟨wolnyMutex s, h⟩
      .ok (OK, s.setM i
        { s.M i with numer := numerMutexu, wlasciciel := s.aktualnyProces, uzywany := true })
    else .error (.mutexSlot (wolnyMutex s))
  | some i =>
    -- the mutex is reserved: by the caller itself, or the caller has to wait
    if (s.M i).wlasciciel = s.aktualnyProces then .ok (EPERM, s)
    else .ok (EDONTREPLY, s.setM i
      { s.M i with kolejka := wstaw (s.M i).kolejka s.aktualnyProces })

def csUnlock (s : ServerState) (numerMutexu : ℤ) : ℤ × ServerState :=
  match indeksUzywanegoMutexa s numerMutexu with
  | none => (EPERM, s)
  | some i =>
    if (s.M i).wlasciciel ≠ s.aktualnyProces then (EPERM, s)
    -- nobody waits: the slot is free again and keeps its number
    else if czyPusto (s.M i).kolejka then (OK, s.setM i { s.M i with uzywany := false })
    else
      -- the first in the queue becomes the owner and is told so before the caller is
      let (newWlasciciel, kolejka) := pierwszyKolejka (s.M i).kolejka
      (OK, wyslijWiadomosc 0 newWlasciciel
        (s.setM i { s.M i with wlasciciel := newWlasciciel, kolejka := kolejka }))

/-- The last lines of `cs_wait`: enter the current process behind the `size` waiters of
    slot `i`, whose contents are `cv`. -/
def dopiszCzekajacego (s : ServerState) (i : Fin MAX_CV) (cv : ConditionVariable)
    (numerMutexu : ℤ) : Except TableFault (ℤ × ServerState) :=
  if cv.size < MAX_CZEKAJACYCH then
    .ok (EDONTREPLY, s.setCV i
      { cv with
        procesy := Function.update cv.procesy cv.size s.aktualnyProces
        muteksy := Function.update cv.muteksy cv.size numerMutexu
        size := cv.size + 1 })
  else .error (.waiter i cv.size)

/-- The second half of `cs_wait`, after the mutex has been released: find the condition,
    or a free slot for it, and enter the current process there. -/
def zarejestrujNaCv (s : ServerState) (numerCv numerMutexu : ℤ) :
    Except TableFault (ℤ × ServerState) :=
  match indeksUzywanegoCv s numerCv with
  | some i => dopiszCzekajacego s i (s.CV i) numerMutexu
  | none =>
    if h : wolnyCv s < MAX_CV then
      -- a freed slot may hold an old `size`, so it is set anew
      let i : Fin MAX_CV := ⟨wolnyCv s, h⟩
      dopiszCzekajacego s i { s.CV i with size := 0, uzywany := true, numer := numerCv } numerMutexu
    else .error (.cvSlot (wolnyCv s))

def csWait (s : ServerState) (numerCv numerMutexu : ℤ) : Except TableFault (ℤ × ServerState) :=
  match indeksUzywanegoMutexa s numerMutexu with
  | none => .ok (-EINVAL, s)
  | some i =>
    if (s.M i).wlasciciel ≠ s.aktualnyProces then .ok (-EINVAL, s)
    -- what `cs_unlock` returns is not looked at: the caller is the owner
    else zarejestrujNaCv (csUnlock s numerMutexu).2 numerCv numerMutexu

/-- Body of the loop of `cs_broadcast`: waiter `j` of slot `i` asks for its mutex. -/
def zwrocMutex (i : Fin MAX_CV) (s : ServerState) (j : ℕ) : Except TableFault ServerState := do
  let s := { s with aktualnyProces := (s.CV i).procesy j }
  -- `cs_lock` takes its caller from `aktualnyProces`
  let (response, s) ← csLock s ((s.CV i).muteksy j)
  let s := if response ≠ EDONTREPLY then wyslijWiadomosc 0 s.aktualnyProces s else s
  let cv := s.CV i
  .ok (s.setCV i
    { cv with procesy := Function.update cv.procesy j 0, muteksy := Function.update cv.muteksy j 0 })

def csBroadcast (s : ServerState) (numerCv : ℤ) : Except TableFault (ℤ × ServerState) :=
  match indeksUzywanegoCv s numerCv with
  | none => .ok (OK, s)
  | some i => do
    -- `aktualnyProces` is overwritten in every round
    let original := s.aktualnyProces
    let s ← (List.range (s.CV i).size).foldlM (zwrocMutex i) s
    let s := { s with aktualnyProces := original }
    .ok (OK, s.setCV i { s.CV i with uzywany := false, size := 0, numer := 0 })

end Requests

/-! ## §3 Notifications from PM -/

/-- The loop that moves the waiters behind `proces_i` one place down. -/
def przesunCzekajacych (cv : ConditionVariable) (proces_i : ℕ) : ConditionVariable :=
  (List.range' (proces_i + 1) (cv.size - 1 - proces_i)).foldl
    (fun cv j =>
      { cv with
        procesy := Function.update cv.procesy (j - 1) (cv.procesy j)
        muteksy := Function.update cv.muteksy (j - 1) (cv.muteksy j) }) cv

/-- A condition whose only waiter leaves is freed with its `size` still `1`. -/
def usunZakonczonyProcesCV (s : ServerState) (i : Fin MAX_CV) (proces_i : ℕ) : ServerState :=
  if (s.CV i).size = 1 then s.setCV i { s.CV i with uzywany := false }
  else
    let cv := przesunCzekajacych (s.CV i) proces_i
    s.setCV i { cv with size := cv.size - 1 }

/-- First waiter of slot `i` that is `proces`. -/
def szukajCzekajacego (s : ServerState) (i : Fin MAX_CV) (proces : ℤ) : Option ℕ :=
  (List.range (s.CV i).size).find? fun j => (s.CV i).procesy j == proces

section Notifications

variable [Minix]

def wyslijEINTR (s : ServerState) (proces : ℤ) : ServerState :=
  -- the queues; whether a slot is used is not asked
  let s := (List.finRange MAX_MUTEX).foldl (fun s i =>
    match szukaj (s.M i).kolejka proces with
    | none => s
    | some item =>
      let s := wyslijWiadomosc EINTR proces s
      s.setM i { s.M i with kolejka := usunElement (s.M i).kolejka item }) s
  -- the used conditions
  (List.finRange MAX_CV).foldl (fun s i =>
    if (s.CV i).uzywany then
      match szukajCzekajacego s i proces with
      | none => s
      | some j => usunZakonczonyProcesCV (wyslijWiadomosc EINTR proces s) i j
    else s) s

def usunZakonczonyProces (s : ServerState) (proces : ℤ) : ServerState :=
  let original := s.aktualnyProces
  let s := { s with aktualnyProces := proces }
  -- unlock, in the name of the dead process, what it owns
  let s := (List.finRange MAX_MUTEX).foldl (fun s i =>
    if (s.M i).uzywany && (s.M i).wlasciciel == proces then (csUnlock s (s.M i).numer).2
    else s) s
  -- take it out of the queues
  let s := (List.finRange MAX_MUTEX).foldl (fun s i =>
    match szukaj (s.M i).kolejka proces with
    | none => s
    | some item => s.setM i { s.M i with kolejka := usunElement (s.M i).kolejka item }) s
  -- take it off the conditions
  let s := (List.finRange MAX_CV).foldl (fun s i =>
    if (s.CV i).uzywany then
      match szukajCzekajacego s i proces with
      | none => s
      | some j => usunZakonczonyProcesCV s i j
    else s) s
  { s with aktualnyProces := original }

/-! ## §4 Dispatch -/

/-- The `switch` of `obslugaWiadomosci`; `none` where it leaves `result` unset. -/
def wykonaj (s : ServerState) (m : Message) : Except TableFault (Option ℤ × ServerState) :=
  let numerMutexu := m.m1i1
  let numerCv := m.m1i2
  let proces := m.pmProc
  if m.mType = CS_LOCK then (csLock s numerMutexu).map fun r => (some r.1, r.2)
  else if m.mType = CS_UNLOCK then
    .ok (some (csUnlock s numerMutexu).1, (csUnlock s numerMutexu).2)
  else if m.mType = CS_WAIT then (csWait s numerCv numerMutexu).map fun r => (some r.1, r.2)
  else if m.mType = CS_BROADCAST then (csBroadcast s numerCv).map fun r => (some r.1, r.2)
  else if m.mType = CS_EINTR then .ok (none, wyslijEINTR s proces)
  else .ok (none, usunZakonczonyProces s proces)

def obslugaWiadomosci (s : ServerState) (m : Message) : Except TableFault ServerState :=
  let s := { s with aktualnyProces := m.mSource }
  -- a type outside the six requests is answered `EINVAL` and nothing else happens
  if m.mType < 1 ∨ m.mType > 6 then .ok (wyslijWiadomosc EINVAL s.aktualnyProces s)
  else do
    let (result, s) ← wykonaj s m
    match result with
    | some r =>
      .ok (if m.mType < 5 ∧ r ≠ EDONTREPLY then wyslijWiadomosc r s.aktualnyProces s else s)
    | none => .ok s

/-- One round of the loop of `main`: the message is handled, and what was sent is read off. -/
def obsluz (s : ServerState) (m : Message) : Except TableFault (ServerState × List Reply) := do
  let s ← obslugaWiadomosci { s with sent := [] } m
  .ok ({ s with sent := [] }, s.sent)

end Notifications

end MinixCv.Server

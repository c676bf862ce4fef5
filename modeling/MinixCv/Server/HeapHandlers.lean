import MinixCv.Server.Handlers
import MinixCv.Server.QueueHeap

/-!
# The Server And Its Memory

`main.c` with the queues where they are: `M[i].kolejka` is a pointer, and `wstaw`,
`pierwszyKolejka`, `czyPusto`, `usunElement` and `FOR_EACH` read and write elements on the
heap.  The rest is as in `Handlers`; the functions have the same names there.

A handler can fail in three ways: by an access to memory that it must not access
(`sterta`), by an index outside a table (`tablica`), and because `malloc` has returned
`NULL`, through which the code then writes (`brakPamieci`).
-/

namespace MinixCv.Server.Sterta

open MinixCv.Lib

/-! ## §1 The state -/

/-- `struct mutex`; the pointer is `none` before `main` has set it. -/
structure Mutex (Q : Type) where
  uzywany : Bool
  numer : ℤ
  wlasciciel : ℤ
  kolejka : Option Q

/-- The globals of the server, what it has sent, and its memory.  `przydzielono` counts the
    elements that were ever allocated. -/
structure Serwer (A Q : Type) where
  M : Fin MAX_MUTEX → Mutex Q
  CV : Fin MAX_CV → ConditionVariable
  aktualnyProces : ℤ
  sent : List Reply
  pamiec : Pamiec A Q
  przydzielono : ℕ

inductive Blad where
  | sterta (fault : HeapFault)
  | tablica (fault : TableFault)
  | brakPamieci
  deriving DecidableEq, Repr

/-- `malloc`, any way it may choose what it returns: for the `n`-th element, with its
    contents, and for the `n`-th queue.  It returns `NULL` or something that is not in use. -/
structure Malloc (A Q : Type) where
  element : ℕ → Heap A ℤ → Option (A × Element A)
  kolejka : ℕ → (Q → Option (StrukturaKolejki A)) → Option Q
  element_free : ∀ n H x, element n H = some x → H x.1 = none
  kolejka_free : ∀ n K q, kolejka n K = some q → K q = none

namespace Serwer

variable {A Q : Type}

/-- `M[i] = x` -/
def setM (t : Serwer A Q) (i : Fin MAX_MUTEX) (x : Mutex Q) : Serwer A Q :=
  { t with M := Function.update t.M i x }

/-- `CV[i] = x` -/
def setCV (t : Serwer A Q) (i : Fin MAX_CV) (x : ConditionVariable) : Serwer A Q :=
  { t with CV := Function.update t.CV i x }

/-- A loop that visits more elements than were ever allocated does not end. -/
def rundy (t : Serwer A Q) : ℕ := t.przydzielono + 2

/-- The queue that `M[i].kolejka` points to. -/
def kolejkaMutexa (t : Serwer A Q) (i : Fin MAX_MUTEX) : Except Blad Q :=
  match (t.M i).kolejka with
  | none => .error (.sterta .null)
  | some q => .ok q

end Serwer

section Handlers

variable {A Q : Type} [DecidableEq A] [DecidableEq Q]

def wyslijWiadomosc (typ dokad : ℤ) (t : Serwer A Q) : Serwer A Q :=
  { t with sent := t.sent ++ [⟨typ, dokad⟩] }

/-! ## §2 The queues of the mutexes -/

/-- `czyPusto(M[i].kolejka)` -/
def czyPusto (t : Serwer A Q) (i : Fin MAX_MUTEX) : Except Blad Bool := do
  let q ← t.kolejkaMutexa i
  (t.pamiec.czyPusto q).mapError .sterta

/-- `pierwszyKolejka(M[i].kolejka)` -/
def pierwszyKolejka (t : Serwer A Q) (i : Fin MAX_MUTEX) : Except Blad (ℤ × Serwer A Q) := do
  let q ← t.kolejkaMutexa i
  let r ← (t.pamiec.pierwszyKolejka q).mapError .sterta
  .ok (r.1, { t with pamiec := r.2 })

/-- `usunElement(M[i].kolejka, item)` -/
def usunElement (t : Serwer A Q) (i : Fin MAX_MUTEX) (item : A) : Except Blad (Serwer A Q) := do
  let q ← t.kolejkaMutexa i
  let p ← (t.pamiec.usunElement t.rundy q item).mapError .sterta
  .ok { t with pamiec := p }

/-- The scan shared by the two sweeps over the queues: the first element that holds
    `proces`. -/
def szukaj (t : Serwer A Q) (i : Fin MAX_MUTEX) (proces : ℤ) : Except Blad (Option A) := do
  let pusto ← czyPusto t i
  if pusto then .ok none
  else do
    let q ← t.kolejkaMutexa i
    (t.pamiec.forEach t.rundy q fun item => item.val == proces).mapError .sterta

variable (malloc : Malloc A Q)

/-- `wstaw(M[i].kolejka, proces)`.  The pointer that `malloc` returns is not looked at. -/
def wstaw (t : Serwer A Q) (i : Fin MAX_MUTEX) (proces : ℤ) : Except Blad (Serwer A Q) := do
  let q ← t.kolejkaMutexa i
  match malloc.element t.przydzielono t.pamiec.elementy with
  | none => .error .brakPamieci
  | some nowy => do
    let p ← (t.pamiec.wstaw t.rundy q proces nowy.1 nowy.2).mapError .sterta
    .ok { t with pamiec := p, przydzielono := t.przydzielono + 1 }

/-! ## §3 Requests -/

def indeksUzywanegoMutexa (t : Serwer A Q) (numerMutexu : ℤ) : Option (Fin MAX_MUTEX) :=
  (List.finRange MAX_MUTEX).find? fun i => (t.M i).uzywany && (t.M i).numer == numerMutexu

def indeksUzywanegoCv (t : Serwer A Q) (numerCv : ℤ) : Option (Fin MAX_CV) :=
  (List.finRange MAX_CV).find? fun i => (t.CV i).uzywany && (t.CV i).numer == numerCv

/-- Value of `i` after the loop of `cs_lock` that looks for a free slot. -/
def wolnyMutex (t : Serwer A Q) : ℕ :=
  (List.finRange MAX_MUTEX).findIdx fun i => !(t.M i).uzywany

/-- Value of `i` after the loop of `cs_wait` that looks for a free slot. -/
def wolnyCv (t : Serwer A Q) : ℕ :=
  (List.finRange MAX_CV).findIdx fun i => !(t.CV i).uzywany

section Requests

variable [Minix]

def csLock (t : Serwer A Q) (numerMutexu : ℤ) : Except Blad (ℤ × Serwer A Q) :=
  match indeksUzywanegoMutexa t numerMutexu with
  | none =>
    if h : wolnyMutex t < MAX_MUTEX then
      let i : Fin MAX_MUTEX := ⟨wolnyMutex t, h⟩
      .ok (OK, t.setM i
        { t.M i with numer := numerMutexu, wlasciciel := t.aktualnyProces, uzywany := true })
    else .error (.tablica (.mutexSlot (wolnyMutex t)))
  | some i =>
    if (t.M i).wlasciciel = t.aktualnyProces then .ok (EPERM, t)
    else do
      let t ← wstaw malloc t i t.aktualnyProces
      .ok (EDONTREPLY, t)

/-- The part of `cs_unlock` behind its checks. -/
def oddajMutex (t : Serwer A Q) (i : Fin MAX_MUTEX) : Except Blad (ℤ × Serwer A Q) := do
  let pusto ← czyPusto t i
  if pusto then .ok (OK, t.setM i { t.M i with uzywany := false })
  else do
    let r ← pierwszyKolejka t i
    .ok (OK, wyslijWiadomosc 0 r.1 (r.2.setM i { r.2.M i with wlasciciel := r.1 }))

def csUnlock (t : Serwer A Q) (numerMutexu : ℤ) : Except Blad (ℤ × Serwer A Q) :=
  match indeksUzywanegoMutexa t numerMutexu with
  | none => .ok (EPERM, t)
  | some i =>
    if (t.M i).wlasciciel ≠ t.aktualnyProces then .ok (EPERM, t)
    else oddajMutex t i

/-- The last lines of `cs_wait`. -/
def dopiszCzekajacego (t : Serwer A Q) (i : Fin MAX_CV) (cv : ConditionVariable)
    (numerMutexu : ℤ) : Except Blad (ℤ × Serwer A Q) :=
  if cv.size < MAX_CZEKAJACYCH then
    .ok (EDONTREPLY, t.setCV i
      { cv with
        procesy := Function.update cv.procesy cv.size t.aktualnyProces
        muteksy := Function.update cv.muteksy cv.size numerMutexu
        size := cv.size + 1 })
  else .error (.tablica (.waiter i cv.size))

/-- The second half of `cs_wait`, after the mutex has been released. -/
def zarejestrujNaCv (t : Serwer A Q) (numerCv numerMutexu : ℤ) :
    Except Blad (ℤ × Serwer A Q) :=
  match indeksUzywanegoCv t numerCv with
  | some i => dopiszCzekajacego t i (t.CV i) numerMutexu
  | none =>
    if h : wolnyCv t < MAX_CV then
      let i : Fin MAX_CV := ⟨wolnyCv t, h⟩
      dopiszCzekajacego t i { t.CV i with size := 0, uzywany := true, numer := numerCv } numerMutexu
    else .error (.tablica (.cvSlot (wolnyCv t)))

def csWait (t : Serwer A Q) (numerCv numerMutexu : ℤ) : Except Blad (ℤ × Serwer A Q) :=
  match indeksUzywanegoMutexa t numerMutexu with
  | none => .ok (-EINVAL, t)
  | some i =>
    if (t.M i).wlasciciel ≠ t.aktualnyProces then .ok (-EINVAL, t)
    else do
      let r ← csUnlock t numerMutexu
      zarejestrujNaCv r.2 numerCv numerMutexu

/-- Body of the loop of `cs_broadcast`. -/
def zwrocMutex (i : Fin MAX_CV) (t : Serwer A Q) (j : ℕ) : Except Blad (Serwer A Q) := do
  let t := { t with aktualnyProces := (t.CV i).procesy j }
  let (response, t) ← csLock malloc t ((t.CV i).muteksy j)
  let t := if response ≠ EDONTREPLY then wyslijWiadomosc 0 t.aktualnyProces t else t
  let cv := t.CV i
  .ok (t.setCV i
    { cv with procesy := Function.update cv.procesy j 0, muteksy := Function.update cv.muteksy j 0 })

def csBroadcast (t : Serwer A Q) (numerCv : ℤ) : Except Blad (ℤ × Serwer A Q) :=
  match indeksUzywanegoCv t numerCv with
  | none => .ok (OK, t)
  | some i => do
    let original := t.aktualnyProces
    let t ← (List.range (t.CV i).size).foldlM (zwrocMutex malloc i) t
    let t := { t with aktualnyProces := original }
    .ok (OK, t.setCV i { t.CV i with uzywany := false, size := 0, numer := 0 })

end Requests

/-! ## §4 Notifications from PM -/

def usunZakonczonyProcesCV (t : Serwer A Q) (i : Fin MAX_CV) (proces_i : ℕ) : Serwer A Q :=
  if (t.CV i).size = 1 then t.setCV i { t.CV i with uzywany := false }
  else
    let cv := przesunCzekajacych (t.CV i) proces_i
    t.setCV i { cv with size := cv.size - 1 }

/-- First waiter of slot `i` that is `proces`. -/
def szukajCzekajacego (t : Serwer A Q) (i : Fin MAX_CV) (proces : ℤ) : Option ℕ :=
  (List.range (t.CV i).size).find? fun j => (t.CV i).procesy j == proces

/-- What both notifications do to the queue of slot `i`, where `wyslij` is what they do before
    the element is removed. -/
def usunZKolejki (wyslij : Serwer A Q → Serwer A Q) (proces : ℤ) (t : Serwer A Q)
    (i : Fin MAX_MUTEX) : Except Blad (Serwer A Q) := do
  let item ← szukaj t i proces
  match item with
  | none => .ok t
  | some item => usunElement (wyslij t) i item

/-- What both notifications do to the condition in slot `i`. -/
def usunZCv (wyslij : Serwer A Q → Serwer A Q) (proces : ℤ) (t : Serwer A Q) (i : Fin MAX_CV) :
    Serwer A Q :=
  if (t.CV i).uzywany then
    match szukajCzekajacego t i proces with
    | none => t
    | some j => usunZakonczonyProcesCV (wyslij t) i j
  else t

section Notifications

variable [Minix]

def wyslijEINTR (t : Serwer A Q) (proces : ℤ) : Except Blad (Serwer A Q) := do
  let wyslij := wyslijWiadomosc EINTR proces
  let t ← (List.finRange MAX_MUTEX).foldlM (usunZKolejki wyslij proces) t
  .ok ((List.finRange MAX_CV).foldl (usunZCv wyslij proces) t)

/-- Body of the first loop of `usunZakonczonyProces`. -/
def odblokuj (proces : ℤ) (t : Serwer A Q) (i : Fin MAX_MUTEX) : Except Blad (Serwer A Q) :=
  if (t.M i).uzywany && (t.M i).wlasciciel == proces then do
    let r ← csUnlock t (t.M i).numer
    .ok r.2
  else .ok t

def usunZakonczonyProces (t : Serwer A Q) (proces : ℤ) : Except Blad (Serwer A Q) := do
  let original := t.aktualnyProces
  let t := { t with aktualnyProces := proces }
  let t ← (List.finRange MAX_MUTEX).foldlM (odblokuj proces) t
  let t ← (List.finRange MAX_MUTEX).foldlM (usunZKolejki id proces) t
  let t := (List.finRange MAX_CV).foldl (usunZCv id proces) t
  .ok { t with aktualnyProces := original }

/-! ## §5 Dispatch -/

/-- The `switch` of `obslugaWiadomosci`; `none` where it leaves `result` unset. -/
def wykonaj (t : Serwer A Q) (m : Message) : Except Blad (Option ℤ × Serwer A Q) :=
  let numerMutexu := m.m1i1
  let numerCv := m.m1i2
  let proces := m.pmProc
  if m.mType = CS_LOCK then (csLock malloc t numerMutexu).map fun r => (some r.1, r.2)
  else if m.mType = CS_UNLOCK then (csUnlock t numerMutexu).map fun r => (some r.1, r.2)
  else if m.mType = CS_WAIT then (csWait t numerCv numerMutexu).map fun r => (some r.1, r.2)
  else if m.mType = CS_BROADCAST then
    (csBroadcast malloc t numerCv).map fun r => (some r.1, r.2)
  else if m.mType = CS_EINTR then (wyslijEINTR t proces).map fun t => (none, t)
  else (usunZakonczonyProces t proces).map fun t => (none, t)

def obslugaWiadomosci (t : Serwer A Q) (m : Message) : Except Blad (Serwer A Q) :=
  let t := { t with aktualnyProces := m.mSource }
  if m.mType < 1 ∨ m.mType > 6 then .ok (wyslijWiadomosc EINVAL t.aktualnyProces t)
  else do
    let (result, t) ← wykonaj malloc t m
    match result with
    | some r =>
      .ok (if m.mType < 5 ∧ r ≠ EDONTREPLY then wyslijWiadomosc r t.aktualnyProces t else t)
    | none => .ok t

/-- One round of the loop of `main`. -/
def obsluz (t : Serwer A Q) (m : Message) : Except Blad (Serwer A Q × List Reply) := do
  let t ← obslugaWiadomosci malloc { t with sent := [] } m
  .ok ({ t with sent := [] }, t.sent)

end Notifications

/-! ## §6 Start -/

/-- Before `main`: nothing is allocated, and every global is zero. -/
def poczatek : Serwer A Q where
  M _ := ⟨false, 0, 0, none⟩
  CV _ := ⟨false, 0, fun _ => 0, fun _ => 0, 0⟩
  aktualnyProces := 0
  sent := []
  pamiec := Pamiec.pusta
  przydzielono := 0

/-- `M[i].kolejka = utworzKolejke()`, which calls `malloc` three times. -/
def utworzKolejke (t : Serwer A Q) (i : Fin MAX_MUTEX) : Except Blad (Serwer A Q) :=
  match malloc.kolejka t.przydzielono t.pamiec.kolejki,
      malloc.element t.przydzielono t.pamiec.elementy with
  | some q, some start =>
    match malloc.element (t.przydzielono + 1) (t.pamiec.elementy.alloc start.1 start.2) with
    | some koniec => do
      let p ← (t.pamiec.utworzKolejke q start.1 koniec.1 start.2 koniec.2).mapError .sterta
      .ok ({ t with pamiec := p, przydzielono := t.przydzielono + 2 }.setM i
        { t.M i with uzywany := false, kolejka := some q })
    | none => .error .brakPamieci
  | _, _ => .error .brakPamieci

/-- `main` up to its loop. -/
def uruchom : Except Blad (Serwer A Q) :=
  (List.finRange MAX_MUTEX).foldlM (utworzKolejke malloc) poczatek

end Handlers

end MinixCv.Server.Sterta

import Mathlib.Data.Multiset.AddSub
import Mathlib.Data.List.OfFn
import Mathlib.Data.List.FinRange
import Mathlib.Logic.Function.Basic
import MinixCv.Lib.Monitor

/-!
# Producers And Consumers

`prod_cons.c`: producers put bytes into a buffer, consumers take them out and print them.  The
buffer lies in a pipe: who holds the mutex reads it, works on its copy and writes it back.

- `Buf`: the buffer with its counter and its end flag, and its image in the pipe
- `Place`, `Env`: where a process is, and what the processes share
- `action`, `Own`: the code of `main`, `producer` and `consumer`, place by place
- `prodCons`: the program

`main` up to its first `fork` runs alone (`prologue`).  A failed `fork`, which kills the whole
group, is left out, as are the pauses of `msleep` and the seeds of `rand`.
-/

namespace MinixCv.ProdCons

open MinixCv.Lib MinixCv.Lib.Monitor

/-! ## §1 The buffer -/

abbrev BSIZE : ℕ := 100

def MAX_PRODS : ℤ := 16

def MAX_CONS : ℤ := 16

def MAX_TURNS : ℤ := 10000

/-- `char buf[BSIZE+2]`. -/
abbrev Buf := Fin (BSIZE + 2) → Int8

namespace Buf

/-- `count=&buf[BSIZE]`. -/
def countIdx : Fin (BSIZE + 2) := ⟨BSIZE, by decide⟩

/-- `end_flag=&buf[BSIZE+1]`. -/
def endFlagIdx : Fin (BSIZE + 2) := ⟨BSIZE + 1, by decide⟩

/-- The index of a cell. -/
def cell (i : Fin BSIZE) : Fin (BSIZE + 2) := i.castAdd 2

def count (b : Buf) : Int8 := b countIdx

def endFlag (b : Buf) : Int8 := b endFlagIdx

/-- The bytes that `write` sends. -/
def bytes (b : Buf) : List Int8 := List.ofFn b

/-- The cell at which `for (i=0;i < BSIZE; i++)` breaks off. -/
def search (b : Buf) (stop : Int8 → Bool) : Option (Fin BSIZE) :=
  (List.finRange BSIZE).find? fun i => stop (b (cell i))

/-- `buf[i]=d; (*count)++`. -/
def put (b : Buf) (i : Fin BSIZE) (d : Int8) : Buf :=
  Function.update (Function.update b (cell i) d) countIdx (b.count + 1)

/-- `buf[i]=0; (*count)--`. -/
def take (b : Buf) (i : Fin BSIZE) : Buf :=
  Function.update (Function.update b (cell i) 0) countIdx (b.count - 1)

/-- `*end_flag=1`. -/
def close (b : Buf) : Buf := Function.update b endFlagIdx 1

end Buf

/-! ## §2 Places and what is shared -/

/-- The arguments of `main`, its `getpid()`, and how much a pipe holds. -/
structure Args where
  argc : ℤ
  prods : ℤ
  cons : ℤ
  turns : ℤ
  getpid : ℤ
  pipeBuf : ℕ

namespace Args

def mutex (a : Args) : ℤ := a.getpid

/-- `buf_not_empty` is assigned twice. -/
def bufNotEmpty (a : Args) : ℤ := a.mutex * 4 + 2

/-- `buf_not_full` is never assigned. -/
def bufNotFull (_ : Args) : ℤ := 0

end Args

/-- What is put into the buffer: `while (d==0) d = (char) (rand()%256)`. -/
abbrev Value := {d : Int8 // d ≠ 0}

/-- Where a process is, with the variables it will still use. -/
inductive Place where
  -- `main`
  | forkProds (i : ℕ)
  | forkCons (i : ℕ)
  | waitProds (prods : ℕ)
  | mainLock
  | mainRead
  | mainClose (b : Buf)
  | mainWrite (b : Buf)
  | mainBroadcast
  | mainUnlock
  | waitAll
  | returned
  -- `producer`
  | produce (t : ℕ)
  | pLock (t : ℕ) (d : Value)
  | pRead (t : ℕ) (d : Value)
  | pTest (t : ℕ) (d : Value) (b : Buf)
  | pWriteBack (t : ℕ) (d : Value) (b : Buf)
  | pWait (t : ℕ) (d : Value)
  | pPut (t : ℕ) (d : Value) (b : Buf)
  | pBroadcast (t : ℕ) (b : Buf)
  | pWrite (t : ℕ) (b : Buf)
  | pUnlock (t : ℕ)
  | pExit
  -- `consumer`
  | cLock
  | cRead
  | cTest (b : Buf)
  | cWriteBack (b : Buf)
  | cFlag (b : Buf)
  | cUnlockExit
  | cExit
  | cWait
  | cTake (b : Buf)
  | cPrint (b : Buf) (d : Int8)
  | cBroadcast (b : Buf)
  | cWrite (b : Buf)
  | cUnlock
  -- `fail`
  | failed (str : String)

/-- The pipe and the output.  `made` and `ended` record what has been put into the buffer and
    whether the end flag has been set. -/
structure Data where
  pipe : List Int8
  printed : List Int8
  made : Multiset Int8
  ended : Bool

/-- What the processes share: the data, the children of `main` that run and those that have
    ended and not been waited for. -/
structure Env extends Data where
  children : ℕ
  zombies : ℕ

/-- `read_buf`: the bytes that are there, at most as many as fit. -/
inductive ReadBuf (s : Env) : Option Buf → Env → Prop where
  | ok {b : Buf} {rest : List Int8} : s.pipe = b.bytes ++ rest →
      ReadBuf s (some b) { s with pipe := rest }
  | short : s.pipe ≠ [] → s.pipe.length < BSIZE + 2 → ReadBuf s none { s with pipe := [] }

/-- `write_buf`: all bytes at once, when there is room for them. -/
inductive WriteBuf (a : Args) (s : Env) (b : Buf) : Env → Prop where
  | ok : s.pipe.length + (BSIZE + 2) ≤ a.pipeBuf →
      WriteBuf a s b { s with pipe := s.pipe ++ b.bytes }

/-! ## §3 The code -/

/-- The checks of `main`. -/
def checkArgs (a : Args) : Option String :=
  if a.argc ≠ 4 then some "syntax: prod_cons prod_nr cons_nr turns"
  else if a.prods < 1 ∨ a.prods > MAX_PRODS then some "wrong number of producers"
  else if a.cons < 0 ∨ a.cons > MAX_CONS then some "wrong number of consumers"
  else if a.turns < 0 ∨ a.turns > MAX_TURNS then some "wrong number of turns"
  else none

/-- `main` up to the first `fork`: the empty buffer is in the pipe. -/
def prologue (a : Args) : Except String (Place × Env) :=
  match checkArgs a with
  | some str => .error str
  | none => .ok (.forkProds 0, ⟨⟨Buf.bytes fun _ => 0, [], 0, false⟩, 0, 0⟩)

/-- The calls of the library. -/
def action (a : Args) : Place → Action ℤ Place
  | .mainLock => .lock .mainRead
  | .mainBroadcast => .broadcast a.bufNotEmpty .mainUnlock
  | .mainUnlock => .unlock .waitAll
  | .pLock t d => .lock (.pRead t d)
  | .pWait t d => .wait a.bufNotFull (.pRead t d)
  | .pBroadcast t b => .broadcast a.bufNotEmpty (.pWrite t b)
  | .pUnlock t => .unlock (.produce (t + 1))
  | .cLock => .lock .cRead
  | .cWait => .wait a.bufNotEmpty .cRead
  | .cUnlockExit => .unlock .cExit
  | .cBroadcast b => .broadcast a.bufNotFull (.cWrite b)
  | .cUnlock => .unlock .cLock
  | _ => .own

/-- Everything else that is done. -/
inductive Own (a : Args) (s : Env) : Place → Place → Option Place → Env → Prop where
  -- `for (i=0; i<prods; i++)`, `for (i=0; i<cons; i++)`
  | forkProducer {i : ℕ} : (i : ℤ) < a.prods →
      Own a s (.forkProds i) (.forkProds (i + 1)) (some (.produce 0))
        { s with children := s.children + 1 }
  | forkedProducers {i : ℕ} : ¬(i : ℤ) < a.prods → Own a s (.forkProds i) (.forkCons 0) none s
  | forkConsumer {i : ℕ} : (i : ℤ) < a.cons →
      Own a s (.forkCons i) (.forkCons (i + 1)) (some .cLock) { s with children := s.children + 1 }
  | forkedConsumers {i : ℕ} : ¬(i : ℤ) < a.cons →
      Own a s (.forkCons i) (.waitProds a.prods.toNat) none s
  -- `while (prods>0) if (wait(NULL)>0) prods--`: without children, for ever
  | waitProducer {n : ℕ} : 0 < s.zombies →
      Own a s (.waitProds (n + 1)) (.waitProds n) none { s with zombies := s.zombies - 1 }
  | waitNobody {n : ℕ} : s.zombies = 0 → s.children = 0 →
      Own a s (.waitProds (n + 1)) (.waitProds (n + 1)) none s
  | waitedProducers : Own a s (.waitProds 0) .mainLock none s
  | mainRead {b : Buf} {s' : Env} : ReadBuf s (some b) s' → Own a s .mainRead (.mainClose b) none s'
  | mainReadFails {s' : Env} : ReadBuf s none s' → Own a s .mainRead (.failed "read failed") none s'
  | mainClose {b : Buf} : Own a s (.mainClose b) (.mainWrite b.close) none { s with ended := true }
  | mainWrite {b : Buf} {s' : Env} : WriteBuf a s b s' →
      Own a s (.mainWrite b) .mainBroadcast none s'
  -- `while (wait(NULL)>0)`
  | waitOne : 0 < s.zombies → Own a s .waitAll .waitAll none { s with zombies := s.zombies - 1 }
  | waitedAll : s.zombies = 0 → s.children = 0 → Own a s .waitAll .returned none s
  -- `producer`
  | produce {t : ℕ} {d : Value} : (t : ℤ) < a.turns → Own a s (.produce t) (.pLock t d) none s
  | produced {t : ℕ} : ¬(t : ℤ) < a.turns → Own a s (.produce t) .pExit none s
  | pRead {t : ℕ} {d : Value} {b : Buf} {s' : Env} : ReadBuf s (some b) s' →
      Own a s (.pRead t d) (.pTest t d b) none s'
  | pReadFails {t : ℕ} {d : Value} {s' : Env} : ReadBuf s none s' →
      Own a s (.pRead t d) (.failed "read failed") none s'
  | pFull {t : ℕ} {d : Value} {b : Buf} : b.count.toInt = BSIZE →
      Own a s (.pTest t d b) (.pWriteBack t d b) none s
  | pNotFull {t : ℕ} {d : Value} {b : Buf} : b.count.toInt ≠ BSIZE →
      Own a s (.pTest t d b) (.pPut t d b) none s
  | pWriteBack {t : ℕ} {d : Value} {b : Buf} {s' : Env} : WriteBuf a s b s' →
      Own a s (.pWriteBack t d b) (.pWait t d) none s'
  | pPutFirst {t : ℕ} {d : Value} {b : Buf} {i : Fin BSIZE} : b.search (· == 0) = some i →
      (b.put i d).count = 1 →
      Own a s (.pPut t d b) (.pBroadcast t (b.put i d)) none { s with made := d.1 ::ₘ s.made }
  | pPut {t : ℕ} {d : Value} {b : Buf} {i : Fin BSIZE} : b.search (· == 0) = some i →
      (b.put i d).count ≠ 1 →
      Own a s (.pPut t d b) (.pWrite t (b.put i d)) none { s with made := d.1 ::ₘ s.made }
  | pPutFails {t : ℕ} {d : Value} {b : Buf} : b.search (· == 0) = none →
      Own a s (.pPut t d b) (.failed "p:invalid buffer counter") none s
  | pWrite {t : ℕ} {b : Buf} {s' : Env} : WriteBuf a s b s' →
      Own a s (.pWrite t b) (.pUnlock t) none s'
  -- `consumer`
  | cRead {b : Buf} {s' : Env} : ReadBuf s (some b) s' → Own a s .cRead (.cTest b) none s'
  | cReadFails {s' : Env} : ReadBuf s none s' → Own a s .cRead (.failed "read failed") none s'
  | cEmpty {b : Buf} : b.count = 0 → Own a s (.cTest b) (.cWriteBack b) none s
  | cNotEmpty {b : Buf} : b.count ≠ 0 → Own a s (.cTest b) (.cTake b) none s
  | cWriteBack {b : Buf} {s' : Env} : WriteBuf a s b s' →
      Own a s (.cWriteBack b) (.cFlag b) none s'
  | cEnd {b : Buf} : b.endFlag ≠ 0 → Own a s (.cFlag b) .cUnlockExit none s
  | cGoOn {b : Buf} : b.endFlag = 0 → Own a s (.cFlag b) .cWait none s
  | cTake {b : Buf} {i : Fin BSIZE} : b.search (· != 0) = some i →
      Own a s (.cTake b) (.cPrint (b.take i) (b (Buf.cell i))) none s
  | cTakeFails {b : Buf} : b.search (· != 0) = none →
      Own a s (.cTake b) (.failed "c:invalid buffer counter") none s
  | cPrintLast {b : Buf} {d : Int8} : b.count.toInt = BSIZE - 1 →
      Own a s (.cPrint b d) (.cBroadcast b) none { s with printed := s.printed ++ [d] }
  | cPrint {b : Buf} {d : Int8} : b.count.toInt ≠ BSIZE - 1 →
      Own a s (.cPrint b d) (.cWrite b) none { s with printed := s.printed ++ [d] }
  | cWrite {b : Buf} {s' : Env} : WriteBuf a s b s' → Own a s (.cWrite b) .cUnlock none s'

/-- The places of `main`. -/
def Place.isMain : Place → Bool
  | .forkProds _ | .forkCons _ | .waitProds _ | .mainLock | .mainRead | .mainClose _
  | .mainWrite _ | .mainBroadcast | .mainUnlock | .waitAll | .returned => true
  | _ => false

/-- The program.  Its processes end by `exit`, or anywhere if they may be killed; a child that
    has ended can be waited for. -/
def prodCons (a : Args) (kills : Prop) : Program ℤ Place Env where
  action := action a
  step l s l' k s' := Own a s l l' k s'
  ends l := l = .pExit ∨ l = .cExit ∨ kills
  death l s :=
    if l.isMain then s else { s with children := s.children - 1, zombies := s.zombies + 1 }

/-! ## §4 Where the library is called -/

section Calls

variable {a : Args} {l l' : Place} {c : ℤ}

theorem action_lock (h : action a l = .lock l') :
    (l = .mainLock ∧ l' = .mainRead) ∨ (∃ t d, l = .pLock t d ∧ l' = .pRead t d) ∨
      (l = .cLock ∧ l' = .cRead) := by
  cases l <;> simp only [action, reduceCtorEq, Action.lock.injEq] at h <;> subst h <;> simp

theorem action_unlock (h : action a l = .unlock l') :
    (l = .mainUnlock ∧ l' = .waitAll) ∨ (∃ t, l = .pUnlock t ∧ l' = .produce (t + 1)) ∨
      (l = .cUnlockExit ∧ l' = .cExit) ∨ (l = .cUnlock ∧ l' = .cLock) := by
  cases l <;> simp only [action, reduceCtorEq, Action.unlock.injEq] at h <;> subst h <;> simp

theorem action_wait (h : action a l = .wait c l') :
    (∃ t d, l = .pWait t d ∧ c = a.bufNotFull ∧ l' = .pRead t d) ∨
      (l = .cWait ∧ c = a.bufNotEmpty ∧ l' = .cRead) := by
  cases l <;> simp only [action, reduceCtorEq, Action.wait.injEq] at h <;>
    obtain ⟨rfl, rfl⟩ := h <;> simp

theorem action_broadcast (h : action a l = .broadcast c l') :
    (l = .mainBroadcast ∧ c = a.bufNotEmpty ∧ l' = .mainUnlock) ∨
      (∃ t b, l = .pBroadcast t b ∧ c = a.bufNotEmpty ∧ l' = .pWrite t b) ∨
      ∃ b, l = .cBroadcast b ∧ c = a.bufNotFull ∧ l' = .cWrite b := by
  cases l <;> simp only [action, reduceCtorEq, Action.broadcast.injEq] at h <;>
    obtain ⟨rfl, rfl⟩ := h <;> simp

end Calls

end MinixCv.ProdCons

import Mathlib.Algebra.BigOperators.Fin
import Mathlib.Algebra.Order.BigOperators.Group.Finset
import MinixCv.Testy.ProdCons

/-!
# Why The Buffer Stays Right

The proof outline of `prod_cons.c`.  While nobody is inside, the whole buffer lies in the pipe,
its counter counts the cells in use, and what has been put into it has been printed or is still
there; consumers wait only for an empty buffer without the end flag, and producers only for a
full one.
-/

namespace MinixCv.ProdCons

open MinixCv.Lib MinixCv.Lib.Monitor

/-! ## §1 What is in the buffer -/

namespace Buf

/-- What one cell holds; `0` is no value. -/
def content (x : Int8) : Multiset Int8 := if x = 0 then 0 else {x}

/-- The values in the buffer. -/
def items (b : Buf) : Multiset Int8 := ∑ i, content (b (cell i))

variable {b : Buf} {i : Fin BSIZE} {d : Int8}

theorem cell_ne_countIdx : cell i ≠ countIdx := by
  intro h
  have hlt := i.isLt
  have hval := congrArg Fin.val h
  simp only [cell, countIdx, Fin.val_castAdd] at hval
  omega

theorem cell_ne_endFlagIdx : cell i ≠ endFlagIdx := by
  intro h
  have hlt := i.isLt
  have hval := congrArg Fin.val h
  simp only [cell, endFlagIdx, Fin.val_castAdd] at hval
  omega

theorem endFlagIdx_ne_countIdx : endFlagIdx ≠ countIdx := by decide

theorem cell_inj {j : Fin BSIZE} (h : cell j = cell i) : j = i := Fin.castAdd_injective _ 2 h

@[simp] theorem count_put : (b.put i d).count = b.count + 1 := by simp [put, count]

@[simp] theorem count_take : (b.take i).count = b.count - 1 := by simp [take, count]

@[simp] theorem count_close : b.close.count = b.count := by
  rw [close, count, Function.update_of_ne endFlagIdx_ne_countIdx.symm]
  rfl

@[simp] theorem endFlag_put : (b.put i d).endFlag = b.endFlag := by
  rw [put, endFlag, Function.update_of_ne endFlagIdx_ne_countIdx,
    Function.update_of_ne cell_ne_endFlagIdx.symm]
  rfl

@[simp] theorem endFlag_take : (b.take i).endFlag = b.endFlag := by
  rw [take, endFlag, Function.update_of_ne endFlagIdx_ne_countIdx,
    Function.update_of_ne cell_ne_endFlagIdx.symm]
  rfl

@[simp] theorem endFlag_close : b.close.endFlag = 1 := by simp [close, endFlag]

/-- One cell is written. -/
theorem items_write {b' : Buf} {x : Int8} (hi : b' (cell i) = x)
    (hothers : ∀ j, j ≠ i → b' (cell j) = b (cell j)) :
    b'.items + content (b (cell i)) = b.items + content x := by
  have hb := Finset.add_sum_erase Finset.univ (fun j => content (b (cell j))) (Finset.mem_univ i)
  have hb' := Finset.add_sum_erase Finset.univ (fun j => content (b' (cell j)))
    (Finset.mem_univ i)
  have hsame : ∑ j ∈ Finset.univ.erase i, content (b' (cell j)) =
      ∑ j ∈ Finset.univ.erase i, content (b (cell j)) :=
    Finset.sum_congr rfl fun j hj => by rw [hothers j (Finset.ne_of_mem_erase hj)]
  unfold items
  rw [← hb, ← hb', hsame, hi, add_right_comm, add_comm (content x), add_right_comm]

theorem items_put (hi : b (cell i) = 0) (hd : d ≠ 0) : (b.put i d).items = d ::ₘ b.items := by
  have hwrite : (b.put i d).items + content (b (cell i)) = b.items + content d := by
    refine items_write ?_ fun j hj => ?_
    · simp [put, Function.update_of_ne cell_ne_countIdx]
    · rw [put, Function.update_of_ne cell_ne_countIdx, Function.update_of_ne]
      exact fun h => hj (cell_inj h)
  rwa [hi, content, content, if_pos rfl, if_neg hd, add_zero, add_comm,
    Multiset.singleton_add] at hwrite

theorem items_take (hi : b (cell i) ≠ 0) : b.items = b (cell i) ::ₘ (b.take i).items := by
  have hwrite : (b.take i).items + content (b (cell i)) = b.items + content 0 := by
    refine items_write ?_ fun j hj => ?_
    · simp [take, Function.update_of_ne cell_ne_countIdx]
    · rw [take, Function.update_of_ne cell_ne_countIdx, Function.update_of_ne]
      exact fun h => hj (cell_inj h)
  rw [content, content, if_pos rfl, if_neg hi, add_zero, add_comm, Multiset.singleton_add]
    at hwrite
  exact hwrite.symm

@[simp] theorem items_close : b.close.items = b.items := by
  refine Finset.sum_congr rfl fun j _ => ?_
  rw [close, Function.update_of_ne cell_ne_endFlagIdx]

theorem card_content (x : Int8) : (content x).card = if x = 0 then 0 else 1 := by
  unfold content
  split_ifs <;> rfl

theorem card_items : b.items.card = ∑ i, if b (cell i) = 0 then 0 else 1 := by
  rw [items, Multiset.card_sum]
  exact Finset.sum_congr rfl fun i _ => card_content _

theorem card_items_le : b.items.card ≤ BSIZE := by
  rw [card_items]
  calc ∑ i : Fin BSIZE, (if b (cell i) = 0 then 0 else 1) ≤ ∑ _i : Fin BSIZE, 1 := by
        refine Finset.sum_le_sum fun i _ => ?_
        split_ifs <;> simp
    _ = BSIZE := by simp

/-- A search that finds nothing has seen every cell. -/
theorem search_eq_none {stop : Int8 → Bool} (h : b.search stop = none) (i : Fin BSIZE) :
    stop (b (cell i)) = false := by
  rw [search, List.find?_eq_none] at h
  simpa using h i (List.mem_finRange i)

theorem search_eq_some {stop : Int8 → Bool} (h : b.search stop = some i) :
    stop (b (cell i)) = true := by
  rw [search] at h
  simpa using List.find?_some h

/-- Without a free cell the buffer is full. -/
theorem card_of_no_free (h : b.search (· == 0) = none) : b.items.card = BSIZE := by
  have hne : ∀ i, b (cell i) ≠ 0 := fun i => by simpa using search_eq_none h i
  rw [card_items]
  simp [hne]

/-- Without a cell in use the buffer is empty. -/
theorem card_of_no_used (h : b.search (· != 0) = none) : b.items.card = 0 := by
  have heq : ∀ i, b (cell i) = 0 := fun i => by simpa using search_eq_none h i
  rw [card_items]
  simp [heq]

theorem items_zero : items (fun _ => 0) = 0 := by simp [items, content]

@[simp] theorem length_bytes : b.bytes.length = BSIZE + 2 := List.length_ofFn

theorem bytes_append_inj {b b' : Buf} {rest rest' : List Int8}
    (h : b.bytes ++ rest = b'.bytes ++ rest') : b = b' ∧ rest = rest' := by
  obtain ⟨hb, hrest⟩ := List.append_inj h (by simp)
  exact ⟨List.ofFn_injective hb, hrest⟩

end Buf

/-! ## §2 The assertions -/

/-- The counter counts the cells in use, everything that has been made is printed, in the
    buffer or among `x`, and the end flag is set if it should be. -/
structure Sound (b : Buf) (s : Data) (x : Multiset Int8) : Prop where
  count : b.count.toInt = b.items.card
  made : s.made = s.printed + x + b.items
  flag : b.endFlag ≠ 0 ↔ s.ended = true

/-- Who waits has a reason to. -/
structure Waits (a : Args) (b : Buf) (w : Set ℤ) : Prop where
  notEmpty : a.bufNotEmpty ∈ w → b.count = 0 ∧ b.endFlag = 0
  notFull : a.bufNotFull ∈ w → b.count.toInt = BSIZE

/-- The buffer lies in the pipe. -/
def There (s : Data) (b : Buf) : Prop := s.pipe = b.bytes ∧ Sound b s 0

/-- A process has the buffer. -/
def Taken (s : Data) (b : Buf) : Prop := s.pipe = [] ∧ Sound b s 0

/-- The invariant of the buffer while nobody is inside. -/
def Rest (a : Args) (s : Data) (w : Set ℤ) : Prop := ∃ b, There s b ∧ Waits a b w

/-- The places between a lock and the next unlock. -/
def Place.inside : Place → Bool
  | .mainRead | .mainClose _ | .mainWrite _ | .mainBroadcast | .mainUnlock
  | .pRead _ _ | .pTest _ _ _ | .pWriteBack _ _ _ | .pWait _ _ | .pPut _ _ _ | .pBroadcast _ _
  | .pWrite _ _ | .pUnlock _
  | .cRead | .cTest _ | .cWriteBack _ | .cFlag _ | .cUnlockExit | .cWait | .cTake _ | .cPrint _ _
  | .cBroadcast _ | .cWrite _ | .cUnlock | .failed _ => true
  | _ => false

/-- What a process finds at each place inside. -/
def Asserts (a : Args) (s : Data) (w : Set ℤ) : Place → Prop
  | .mainRead | .mainUnlock | .pRead _ _ | .pUnlock _ | .cRead | .cUnlock => Rest a s w
  | .mainClose b | .pTest _ _ b | .pWrite _ b | .cTest b | .cWrite b => Taken s b ∧ Waits a b w
  | .mainWrite b | .pBroadcast _ b => Taken s b ∧ (a.bufNotFull ∈ w → b.count.toInt = BSIZE)
  | .mainBroadcast => ∃ b, There s b ∧ (a.bufNotFull ∈ w → b.count.toInt = BSIZE)
  | .pWriteBack _ _ b => Taken s b ∧ Waits a b w ∧ b.count.toInt = BSIZE
  | .pWait _ _ => ∃ b, There s b ∧ Waits a b w ∧ b.count.toInt = BSIZE
  | .pPut _ _ b => Taken s b ∧ Waits a b w ∧ b.count.toInt ≠ BSIZE
  | .cWriteBack b => Taken s b ∧ Waits a b w ∧ b.count = 0
  | .cFlag b => There s b ∧ Waits a b w ∧ b.count = 0
  | .cUnlockExit => Rest a s w ∧ s.ended = true ∧ s.made = s.printed
  | .cWait => ∃ b, There s b ∧ Waits a b w ∧ b.count = 0 ∧ b.endFlag = 0
  | .cTake b => Taken s b ∧ Waits a b w ∧ b.count ≠ 0
  | .cPrint b d => s.pipe = [] ∧ Sound b s {d} ∧ a.bufNotEmpty ∉ w ∧
      (a.bufNotFull ∈ w → b.count.toInt = BSIZE - 1)
  | .cBroadcast b => Taken s b ∧ a.bufNotEmpty ∉ w
  | .failed _ => False
  | _ => True

/-! ## §3 The buffer under the operations -/

section Operations

variable {a : Args} {b b' : Buf} {s s' : Data} {w w' : Set ℤ} {x : Multiset Int8}

/-- The number of a condition is not that of the other one. -/
theorem bufNotEmpty_ne : a.bufNotEmpty ≠ a.bufNotFull := by
  unfold Args.bufNotEmpty Args.bufNotFull
  omega

theorem toInt_add_one {c : Int8} (h : c.toInt ≤ BSIZE) (h0 : 0 ≤ c.toInt) :
    (c + 1).toInt = c.toInt + 1 := by
  have hsize : ((BSIZE : ℕ) : ℤ) = 100 := rfl
  rw [Int8.toInt_add, Int8.toInt_one, Int.bmod_def]
  omega

theorem toInt_sub_one {c : Int8} (h : c.toInt ≤ BSIZE) (h0 : 0 < c.toInt) :
    (c - 1).toInt = c.toInt - 1 := by
  have hsize : ((BSIZE : ℕ) : ℤ) = 100 := rfl
  rw [Int8.toInt_sub, Int8.toInt_one, Int.bmod_def]
  omega

theorem toInt_eq_zero {c : Int8} : c.toInt = 0 ↔ c = 0 := by
  rw [← Int8.toInt_zero, Int8.toInt_inj]

/-- What nobody reads may change. -/
theorem Sound.congr (h : Sound b s x) (hmade : s'.made = s.made) (hprinted : s'.printed = s.printed)
    (hended : s'.ended = s.ended) : Sound b s' x :=
  ⟨h.count, by rw [hmade, hprinted, h.made], by rw [hended, h.flag]⟩

theorem Sound.count_le (h : Sound b s x) : 0 ≤ b.count.toInt ∧ b.count.toInt ≤ BSIZE := by
  have hle := b.card_items_le
  have hcount := h.count
  omega

theorem Waits.mono (hw : w' ⊆ w) (h : Waits a b w) : Waits a b w' :=
  ⟨fun hmem => h.notEmpty (hw hmem), fun hmem => h.notFull (hw hmem)⟩

theorem Rest.mono (hw : w' ⊆ w) (h : Rest a s w) : Rest a s w' := by
  obtain ⟨b, hb, hwaits⟩ := h
  exact ⟨b, hb, hwaits.mono hw⟩

theorem Sound.put (h : Sound b s 0) {i : Fin BSIZE} (hi : b.search (· == 0) = some i) (d : Value) :
    Sound (b.put i d) { s with made := d.1 ::ₘ s.made } 0 := by
  have hfree : b (Buf.cell i) = 0 := by simpa using Buf.search_eq_some hi
  obtain ⟨h0, hle⟩ := h.count_le
  refine ⟨?_, ?_, ?_⟩
  · rw [Buf.items_put hfree d.2, Multiset.card_cons, Buf.count_put, toInt_add_one hle h0, h.count]
    rfl
  · rw [Buf.items_put hfree d.2, h.made]
    simp
  · rw [Buf.endFlag_put]
    exact h.flag

theorem Sound.take (h : Sound b s 0) {i : Fin BSIZE} (hi : b.search (· != 0) = some i) :
    Sound (b.take i) s {b (Buf.cell i)} := by
  have hused : b (Buf.cell i) ≠ 0 := by simpa using Buf.search_eq_some hi
  have hitems := Buf.items_take hused
  obtain ⟨-, hle⟩ := h.count_le
  have hcard : b.items.card = (b.take i).items.card + 1 := by
    rw [hitems, Multiset.card_cons]
  have hcount := h.count
  refine ⟨?_, ?_, ?_⟩
  · rw [Buf.count_take, toInt_sub_one hle (by omega)]
    omega
  · rw [h.made, add_zero, hitems, add_assoc, Multiset.singleton_add]
  · rw [Buf.endFlag_take]
    exact h.flag

theorem Sound.print {d : Int8} (h : Sound b s {d}) :
    Sound b { s with printed := s.printed ++ [d] } 0 := by
  refine ⟨h.count, ?_, h.flag⟩
  rw [h.made, add_zero, ← Multiset.coe_add]
  rfl

theorem Sound.close (h : Sound b s 0) : Sound b.close { s with ended := true } 0 := by
  refine ⟨?_, ?_, ?_⟩
  · rw [Buf.count_close, Buf.items_close]
    exact h.count
  · rw [Buf.items_close]
    exact h.made
  · simp

/-- Whoever reads the pipe gets the buffer. -/
theorem There.read {e e' : Env} {o : Option Buf} (h : There e.toData b) (hread : ReadBuf e o e') :
    o = some b ∧ Taken e'.toData b := by
  cases hread with
  | @ok b' rest hpipe =>
    rw [h.1, ← List.append_nil b.bytes] at hpipe
    obtain ⟨rfl, rfl⟩ := Buf.bytes_append_inj hpipe
    exact ⟨rfl, rfl, h.2.congr rfl rfl rfl⟩
  | short _ hlen =>
    rw [h.1, Buf.length_bytes] at hlen
    exact absurd hlen (lt_irrefl _)

/-- Whoever writes the buffer back leaves it in the pipe. -/
theorem Taken.write {e e' : Env} (h : Taken e.toData b) (hwrite : WriteBuf a e b e') :
    There e'.toData b := by
  cases hwrite
  exact ⟨by simp [h.1], h.2.congr rfl rfl rfl⟩

end Operations

/-! ## §4 The outline -/

section Outline

variable {a : Args} {s : Data} {e e' : Env} {w w' : Set ℤ} {l l' : Place} {k : Option Place}

theorem Asserts.mono (hw : w' ⊆ w) (h : Asserts a s w l) : Asserts a s w' l := by
  cases l <;> try exact trivial
  case mainRead => exact Rest.mono hw h
  case mainUnlock => exact Rest.mono hw h
  case pRead => exact Rest.mono hw h
  case pUnlock => exact Rest.mono hw h
  case cRead => exact Rest.mono hw h
  case cUnlock => exact Rest.mono hw h
  case mainClose => exact ⟨h.1, h.2.mono hw⟩
  case pTest => exact ⟨h.1, h.2.mono hw⟩
  case pWrite => exact ⟨h.1, h.2.mono hw⟩
  case cTest => exact ⟨h.1, h.2.mono hw⟩
  case cWrite => exact ⟨h.1, h.2.mono hw⟩
  case mainWrite => exact ⟨h.1, fun hmem => h.2 (hw hmem)⟩
  case pBroadcast => exact ⟨h.1, fun hmem => h.2 (hw hmem)⟩
  case mainBroadcast =>
    obtain ⟨b, hb, hfull⟩ := h
    exact ⟨b, hb, fun hmem => hfull (hw hmem)⟩
  case pWriteBack => exact ⟨h.1, h.2.1.mono hw, h.2.2⟩
  case pWait =>
    obtain ⟨b, hb, hwaits, hcount⟩ := h
    exact ⟨b, hb, hwaits.mono hw, hcount⟩
  case pPut => exact ⟨h.1, h.2.1.mono hw, h.2.2⟩
  case cWriteBack => exact ⟨h.1, h.2.1.mono hw, h.2.2⟩
  case cFlag => exact ⟨h.1, h.2.1.mono hw, h.2.2⟩
  case cUnlockExit => exact ⟨h.1.mono hw, h.2⟩
  case cWait =>
    obtain ⟨b, hb, hwaits, hcount⟩ := h
    exact ⟨b, hb, hwaits.mono hw, hcount⟩
  case cTake => exact ⟨h.1, h.2.1.mono hw, h.2.2⟩
  case cPrint => exact ⟨h.1, h.2.1, fun hmem => h.2.2.1 (hw hmem), fun hmem => h.2.2.2 (hw hmem)⟩
  case cBroadcast => exact ⟨h.1, fun hmem => h.2 (hw hmem)⟩
  case failed => exact h

/-- Whoever is inside and reads gets the whole buffer. -/
theorem Rest.read {o : Option Buf} (h : Rest a e.toData w) (hread : ReadBuf e o e') :
    ∃ b, o = some b ∧ Taken e'.toData b ∧ Waits a b w := by
  obtain ⟨b, hb, hwaits⟩ := h
  obtain ⟨heq, htaken⟩ := hb.read hread
  exact ⟨b, heq, htaken, hwaits⟩

/-- A step of its own inside. -/
theorem Own.asserts (hstep : Own a e l l' k e') (hin : l.inside = true)
    (h : Asserts a e.toData w l) : Asserts a e'.toData w l' := by
  cases hstep <;> try simp [Place.inside] at hin
  case mainRead b hread =>
    obtain ⟨b₀, heq, hb⟩ := h.read hread
    cases heq
    exact hb
  case mainReadFails hread =>
    obtain ⟨b₀, heq, -⟩ := h.read hread
    cases heq
  case mainClose b =>
    obtain ⟨⟨hpipe, hsound⟩, hwaits⟩ := h
    exact ⟨⟨hpipe, hsound.close⟩, fun hmem => by rw [Buf.count_close]; exact hwaits.notFull hmem⟩
  case mainWrite b hwrite => exact ⟨b, h.1.write hwrite, h.2⟩
  case pRead t d b hread =>
    obtain ⟨b₀, heq, hb⟩ := h.read hread
    cases heq
    exact hb
  case pReadFails t d hread =>
    obtain ⟨b₀, heq, -⟩ := h.read hread
    cases heq
  case pFull t d b hcount => exact ⟨h.1, h.2, hcount⟩
  case pNotFull t d b hcount => exact ⟨h.1, h.2, hcount⟩
  case pWriteBack t d b hwrite => exact ⟨b, h.1.write hwrite, h.2⟩
  case pPutFirst t d b i hi hcount =>
    obtain ⟨⟨hpipe, hsound⟩, hwaits, hnot⟩ := h
    exact ⟨⟨hpipe, hsound.put hi d⟩, fun hmem => absurd (hwaits.notFull hmem) hnot⟩
  case pPut t d b i hi hcount =>
    obtain ⟨⟨hpipe, hsound⟩, hwaits, hnot⟩ := h
    refine ⟨⟨hpipe, hsound.put hi d⟩, fun hmem => ?_, fun hmem => absurd (hwaits.notFull hmem) hnot⟩
    -- somebody waits for the first value, and this is it
    rw [Buf.count_put, (hwaits.notEmpty hmem).1] at hcount
    exact absurd rfl hcount
  case pPutFails t d b hnone =>
    obtain ⟨⟨-, hsound⟩, -, hnot⟩ := h
    exact hnot (by rw [hsound.count, Buf.card_of_no_free hnone])
  case pWrite t b hwrite => exact ⟨b, h.1.write hwrite, h.2⟩
  case cRead b hread =>
    obtain ⟨b₀, heq, hb⟩ := h.read hread
    cases heq
    exact hb
  case cReadFails hread =>
    obtain ⟨b₀, heq, -⟩ := h.read hread
    cases heq
  case cEmpty b hcount => exact ⟨h.1, h.2, hcount⟩
  case cNotEmpty b hcount => exact ⟨h.1, h.2, hcount⟩
  case cWriteBack b hwrite => exact ⟨h.1.write hwrite, h.2⟩
  case cEnd b hflag =>
    obtain ⟨hb, hwaits, hcount⟩ := h
    have hempty : b.items = 0 := by
      have hcard := hb.2.count
      rw [hcount, Int8.toInt_zero] at hcard
      exact Multiset.card_eq_zero.mp (by omega)
    refine ⟨⟨b, hb, hwaits⟩, hb.2.flag.mp hflag, ?_⟩
    rw [hb.2.made, hempty, add_zero, add_zero]
  case cGoOn b hflag => exact ⟨b, h.1, h.2.1, h.2.2, hflag⟩
  case cTake b i hi =>
    obtain ⟨⟨hpipe, hsound⟩, hwaits, hnot⟩ := h
    refine ⟨hpipe, hsound.take hi, fun hmem => hnot (hwaits.notEmpty hmem).1, fun hmem => ?_⟩
    have hcount := hwaits.notFull hmem
    have hpos : 0 < b.count.toInt := by
      rw [hcount]
      decide
    rw [Buf.count_take, toInt_sub_one hsound.count_le.2 hpos, hcount]
  case cTakeFails b hnone =>
    obtain ⟨⟨-, hsound⟩, -, hnot⟩ := h
    refine hnot (toInt_eq_zero.mp ?_)
    rw [hsound.count, Buf.card_of_no_used hnone]
    rfl
  case cPrintLast b d hcount => exact ⟨⟨h.1, h.2.1.print⟩, h.2.2.1⟩
  case cPrint b d hcount =>
    exact ⟨⟨h.1, h.2.1.print⟩, fun hmem => absurd hmem h.2.2.1,
      fun hmem => absurd (h.2.2.2 hmem) hcount⟩
  case cWrite b hwrite => exact ⟨b, h.1.write hwrite, h.2⟩

/-- A step of its own outside leaves the data alone. -/
theorem Own.outside (hstep : Own a e l l' k e') (hin : l.inside = false) :
    e'.toData = e.toData := by
  cases hstep <;> first | rfl | simp [Place.inside] at hin

/-- A process of its own stays inside or outside, and its child starts outside. -/
theorem Own.inside (hstep : Own a e l l' k e') :
    l'.inside = l.inside ∧ ∀ j ∈ k, j.inside = false := by
  cases hstep <;> simp [Place.inside]

/-- A process that goes in finds the buffer in the pipe. -/
theorem asserts_entered (h : Rest a s w)
    (hl : l = .mainRead ∨ (∃ t d, l = .pRead t d) ∨ l = .cRead) : Asserts a s w l := by
  obtain rfl | ⟨t, d, rfl⟩ | rfl := hl <;> exact h

theorem asserts_unlock {l' : Place} (ha : action a l = .unlock l') (h : Asserts a s w l) :
    Rest a s w := by
  obtain ⟨rfl, -⟩ | ⟨t, rfl, -⟩ | ⟨rfl, -⟩ | ⟨rfl, -⟩ := action_unlock ha
  · exact h
  · exact h
  · exact h.1
  · exact h

/-- Who waits leaves the buffer in the pipe, and it has a reason to wait. -/
theorem asserts_wait {c : ℤ} {l' : Place} (ha : action a l = .wait c l') (h : Asserts a s w l) :
    Rest a s (insert c w) := by
  obtain ⟨t, d, rfl, rfl, -⟩ | ⟨rfl, rfl, -⟩ := action_wait ha
  · obtain ⟨b, hb, hwaits, hcount⟩ := h
    refine ⟨b, hb, fun hmem => hwaits.notEmpty ?_, fun _ => hcount⟩
    exact (Set.mem_insert_iff.mp hmem).resolve_left bufNotEmpty_ne
  · obtain ⟨b, hb, hwaits, hcount, hflag⟩ := h
    refine ⟨b, hb, fun _ => ⟨hcount, hflag⟩, fun hmem => hwaits.notFull ?_⟩
    exact (Set.mem_insert_iff.mp hmem).resolve_left bufNotEmpty_ne.symm

/-- After the broadcast nobody waits for what has come true. -/
theorem asserts_broadcast {c : ℤ} {l' : Place} (ha : action a l = .broadcast c l')
    (h : Asserts a s w l) : Asserts a s (w \ {c}) l' := by
  obtain ⟨rfl, rfl, rfl⟩ | ⟨t, b, rfl, rfl, rfl⟩ | ⟨b, rfl, rfl, rfl⟩ := action_broadcast ha
  · obtain ⟨b, hb, hfull⟩ := h
    exact ⟨b, hb, fun hmem => absurd rfl hmem.2, fun hmem => hfull hmem.1⟩
  · exact ⟨h.1, fun hmem => absurd rfl hmem.2, fun hmem => h.2 hmem.1⟩
  · exact ⟨h.1, fun hmem => absurd hmem.1 h.2, fun hmem => absurd rfl hmem.2⟩

theorem death_data (a : Args) (kills : Prop) (l : Place) (e : Env) :
    ((prodCons a kills).death l e).toData = e.toData := by
  simp only [prodCons]
  split_ifs <;> rfl

/-- **The outline of the program.** -/
def outline (a : Args) (kills : Prop) : Outline (prodCons a kills) where
  inside l := l.inside = true
  lock h := by
    obtain ⟨rfl, rfl⟩ | ⟨t, d, rfl, rfl⟩ | ⟨rfl, rfl⟩ := action_lock h <;> simp [Place.inside]
  unlock h := by
    obtain ⟨rfl, rfl⟩ | ⟨t, rfl, rfl⟩ | ⟨rfl, rfl⟩ | ⟨rfl, rfl⟩ := action_unlock h <;>
      simp [Place.inside]
  wait h := by
    obtain ⟨t, d, rfl, -, rfl⟩ | ⟨rfl, -, rfl⟩ := action_wait h <;> simp [Place.inside]
  broadcast h := by
    obtain ⟨rfl, -, rfl⟩ | ⟨t, b, rfl, -, rfl⟩ | ⟨b, rfl, -, rfl⟩ := action_broadcast h <;>
      simp [Place.inside]
  own _ hstep := by
    obtain ⟨hside, hchild⟩ := Own.inside hstep
    exact ⟨by rw [hside], fun j hj => by simp [hchild j hj]⟩
  inv e w := Rest a e.toData w
  holds l e w := Asserts a e.toData w l
  inv_mono := Rest.mono
  holds_mono := Asserts.mono
  locked h s w hrest := by
    apply asserts_entered hrest
    obtain ⟨-, rfl⟩ | ⟨t, d, -, rfl⟩ | ⟨-, rfl⟩ := action_lock h <;> simp
  unlocks h s w := asserts_unlock h
  waits h s w := asserts_wait h
  waited h s w hrest := by
    apply asserts_entered hrest
    obtain ⟨t, d, -, -, rfl⟩ | ⟨-, -, rfl⟩ := action_wait h <;> simp
  announced h _ s w := asserts_broadcast h
  moved _ hstep hin w h := Own.asserts hstep hin h
  stable_inv _ hstep hin w h := by
    rw [Own.outside hstep (by simpa using hin)]
    exact h
  stable _ hstep hin j w _ h := by
    rw [Own.outside hstep (by simpa using hin)]
    exact h
  death_inv _ w h := by
    rw [death_data]
    exact h
  death _ j w _ h := by
    rw [death_data]
    exact h

end Outline

end MinixCv.ProdCons

import MinixCv.Pm.UnfoldRounds
import Mathlib.Algebra.BigOperators.Fin

/-!
# The Process Table Over Whole Runs

What holds of the table between two rounds of PM, from its start on.

- `Counted`: `procs_in_use` is the number of slots in use, so the forks find a slot
- `Ordered`: process ids are distinct, nobody is deaf to `SIGKILL`, and the processes form a
  tree with INIT as its root, but for the children of the exits that are under way
- `fork_finds_slot`, `pids_distinct`, `process_tree`: the results
-/

namespace MinixCv.Pm

open MinixCv.Lib MinixCv.Server PmHeader

variable [PmHeader] {s t : PmState} {p : Slot}

/-! ## §1 Slots in use -/

def PmState.slotsInUse (s : PmState) : Finset Slot := {p | .IN_USE ∈ (s.mproc p).mpFlags}

/-- `procs_in_use` is right. -/
def Counted (s : PmState) : Prop := s.procsInUse = s.slotsInUse.card

theorem mem_slotsInUse : p ∈ s.slotsInUse ↔ .IN_USE ∈ (s.mproc p).mpFlags := by
  simp [PmState.slotsInUse]

theorem Counted.of_same (h : Counted s)
    (hinUse : ∀ q, .IN_USE ∈ (t.mproc q).mpFlags ↔ .IN_USE ∈ (s.mproc q).mpFlags)
    (hcount : t.procsInUse = s.procsInUse) : Counted t := by
  have hslots : t.slotsInUse = s.slotsInUse := by
    ext q
    rw [mem_slotsInUse, mem_slotsInUse]
    exact hinUse q
  unfold Counted
  rw [hslots, hcount]
  exact h

/-- One entry was assigned to, and is in use as it was before. -/
theorem Counted.setProc (h : Counted s) {r : Mproc}
    (hr : .IN_USE ∈ r.mpFlags ↔ .IN_USE ∈ (s.mproc p).mpFlags) : Counted (s.setProc p r) := by
  refine h.of_same (fun q => ?_) rfl
  rcases eq_or_ne q p with rfl | hq
  · simpa [PmState.setProc] using hr
  · simp [PmState.setProc, hq]

theorem slotsInUse_insert {r : Mproc} (ht : t.mproc = Function.update s.mproc p r)
    (hr : .IN_USE ∈ r.mpFlags) : t.slotsInUse = insert p s.slotsInUse := by
  ext q
  rw [Finset.mem_insert, mem_slotsInUse, mem_slotsInUse, ht]
  rcases eq_or_ne q p with rfl | hq
  · simp [hr]
  · simp [hq]

theorem slotsInUse_erase {r : Mproc} (ht : t.mproc = Function.update s.mproc p r)
    (hr : .IN_USE ∉ r.mpFlags) : t.slotsInUse = s.slotsInUse.erase p := by
  ext q
  rw [Finset.mem_erase, mem_slotsInUse, mem_slotsInUse, ht]
  rcases eq_or_ne q p with rfl | hq
  · simp [hr]
  · simp [hq]

theorem keeping_inUse (r old : Mproc) :
    .IN_USE ∈ (r.keeping old).mpFlags ↔ .IN_USE ∈ old.mpFlags := by
  simp [Mproc.keeping, vitalFlags]

theorem Change.counted (h : Change s t) (hs : Counted s) : Counted t := by
  cases h with
  | calm hcalm => exact hs.of_same (fun q => (hcalm.entry q).inUse) hcalm.procsInUse
  | elsewhere f => exact hs.of_same (fun q => keeping_inUse _ _) rfl
  | adopt p => exact hs.setProc Iff.rfl
  | release p hinUse _ =>
    -- one slot and one process less
    have hslots := slotsInUse_erase (s := s)
      (t := { s.setProc p (s.mproc p).released with procsInUse := s.procsInUse - 1 })
      (p := p) (r := (s.mproc p).released) rfl (by simp [Mproc.released])
    have hcard := Finset.card_erase_add_one (mem_slotsInUse.mpr hinUse)
    unfold Counted at hs ⊢
    rw [hslots]
    dsimp only
    omega

theorem Unfolds.counted (h : Unfolds s t) (hs : Counted s) : Counted t := by
  induction h with
  | refl _ => exact hs
  | change _ hchange ih => exact hchange.counted (ih hs)
  | exit _ hmark _ _ ih ih' =>
    -- a process that has ended keeps its slot
    obtain ⟨exitStatus, rfl⟩ := hmark.eq
    apply ih'
    apply (ih hs).setProc
    simp [Mproc.marked]

theorem Birth.counted {who child : Slot} {c : Mproc} (h : Birth s t who child c) (hs : Counted s) :
    Counted t := by
  have hcard := Finset.card_insert_of_notMem (fun hmem => h.free (mem_slotsInUse.mp hmem))
  unfold Counted at hs ⊢
  rw [slotsInUse_insert h.mproc h.live.1, hcard, h.procsInUse, hs]
  simp

theorem Round.counted (h : Round s t) (hs : Counted s) : Counted t := by
  cases h with
  | unfold h => exact h.counted hs
  | birth h₁ hbirth h₂ => exact h₂.counted (hbirth.counted (h₁.counted hs))

/-! ## §2 A slot for the child -/

/-- The loop of the two forks comes past every slot, and stops at one that is free. -/
theorem findChildLoop_free {table : Slot → Mproc} {free : Slot}
    (hfree : .IN_USE ∉ (table free).mpFlags) (k next n d : ℕ)
    (hd : (next + (d + 1)) % NR_PROCS = free) (hk : d < k) (hn : n + (d + 1) ≤ NR_PROCS) :
    ∃ h : (findChildLoop table k next n).1 < NR_PROCS,
      .IN_USE ∉ (table ⟨(findChildLoop table k next n).1, h⟩).mpFlags ∧
      (findChildLoop table k next n).2 ≤ NR_PROCS := by
  -- `d` slots lie between `next` and the free one
  induction k generalizing next n d with
  | zero => omega
  | succ k ih =>
    have hslot : (next + 1) % NR_PROCS < NR_PROCS := Nat.mod_lt _ (INIT_PROC_NR : Slot).pos
    unfold findChildLoop
    dsimp only
    split
    · rename_i hused
      cases d with
      | zero =>
        have heq : (⟨(next + 1) % NR_PROCS, hslot⟩ : Slot) = free := Fin.ext hd
        rw [heq] at hused
        exact absurd hused.1 hfree
      | succ d =>
        apply ih _ _ d
        · rw [Nat.mod_add_mod, ← hd]
          congr 1
          omega
        · omega
        · omega
    · rename_i hstop
      have hle : n + 1 ≤ NR_PROCS := by omega
      exact ⟨hslot, fun hused => hstop ⟨hused, hle⟩, hle⟩

/-- Where a slot is free, the forks find one. -/
theorem findChild_ok {free : Slot} (hfree : .IN_USE ∉ (s.mproc free).mpFlags) (srv : Bool) :
    ∃ slot s', findChild srv s = .ok (slot, s') ∧ .IN_USE ∉ (s.mproc slot).mpFlags ∧
      s'.mproc = s.mproc := by
  -- how far the free slot lies behind the first one that is tried
  have hpos : 0 < (NR_PROCS : ℕ) := (INIT_PROC_NR : Slot).pos
  have hdist : ∀ next : ℕ, ∃ d, d < NR_PROCS ∧ (next + (d + 1)) % NR_PROCS = free := by
    intro next
    refine ⟨(free + (NR_PROCS - (next + 1) % NR_PROCS)) % NR_PROCS, Nat.mod_lt _ hpos, ?_⟩
    have hlt := Nat.mod_lt (next + 1) hpos
    rw [show ∀ x, next + (x + 1) = next + 1 + x by omega, Nat.add_mod_mod, ← Nat.mod_add_mod]
    calc
      ((next + 1) % NR_PROCS + (free + (NR_PROCS - (next + 1) % NR_PROCS))) % NR_PROCS
          = (free + NR_PROCS) % NR_PROCS := by
        congr 1
        omega
      _ = free := by rw [Nat.add_mod_right, Nat.mod_eq_of_lt free.isLt]
  obtain ⟨d, hd, hnext⟩ := hdist (if srv then s.nextSrvChild else s.nextChild)
  obtain ⟨h, hslot, hn⟩ := findChildLoop_free hfree (NR_PROCS + 1) _ 0 d hnext (by omega) (by omega)
  unfold findChild
  dsimp only
  rw [if_neg (by omega), dif_pos h, if_neg hslot]
  refine ⟨_, _, rfl, hslot, ?_⟩
  split <;> rfl

/-! ## §3 Order -/

/-- From the process in slot `p` the parents lead to INIT. -/
inductive Rooted (s : PmState) : Slot → Prop where
  | init : Rooted s INIT_PROC_NR
  | child {p : Slot} : Rooted s (s.mproc p).mpParent → Rooted s p

/-- The table is in order, but for the children of the processes in `ending`. -/
structure Ordered (ending : Set Slot) (s : PmState) : Prop where
  initLive : (s.mproc INIT_PROC_NR).Live
  initEndpoint : (s.mproc INIT_PROC_NR).mpEndpoint = (INIT_PROC_NR : Slot).val
  initPid : (s.mproc INIT_PROC_NR).mpPid = INIT_PID
  nextPid : INIT_PID ≤ s.nextPid
  pidPos : ∀ q, q ≠ INIT_PROC_NR → .IN_USE ∈ (s.mproc q).mpFlags → INIT_PID < (s.mproc q).mpPid
  pidInj : ∀ q q', .IN_USE ∈ (s.mproc q).mpFlags → .IN_USE ∈ (s.mproc q').mpFlags →
    (s.mproc q).mpPid = (s.mproc q').mpPid → q = q'
  killable : ∀ q, .IN_USE ∈ (s.mproc q).mpFlags → Killable (s.mproc q)
  parent : ∀ q, .IN_USE ∈ (s.mproc q).mpFlags →
    (s.mproc (s.mproc q).mpParent).Live ∨ (s.mproc q).mpParent ∈ ending
  rooted : ∀ q, .IN_USE ∈ (s.mproc q).mpFlags → Rooted s q

namespace Ordered

variable {ending ending' : Set Slot}

/-- No process is new, nobody gets another parent than INIT, and those whom a process loses as
    its parent are known. -/
theorem decline (h : Ordered ending s)
    (hinUse : ∀ q, .IN_USE ∈ (t.mproc q).mpFlags → .IN_USE ∈ (s.mproc q).mpFlags)
    (hpid : ∀ q, .IN_USE ∈ (t.mproc q).mpFlags → (t.mproc q).mpPid = (s.mproc q).mpPid)
    (hkill : ∀ q, .IN_USE ∈ (t.mproc q).mpFlags → Killable (s.mproc q) → Killable (t.mproc q))
    (hparent : ∀ q, (t.mproc q).mpParent = (s.mproc q).mpParent ∨
      (t.mproc q).mpParent = INIT_PROC_NR)
    (hlive : ∀ q, (s.mproc q).Live → (t.mproc q).Live ∨ q ∈ ending') (hsub : ending ⊆ ending')
    (hinit : (t.mproc INIT_PROC_NR).Live)
    (hend : (t.mproc INIT_PROC_NR).mpEndpoint = (s.mproc INIT_PROC_NR).mpEndpoint)
    (hnext : t.nextPid = s.nextPid) : Ordered ending' t where
  initLive := hinit
  initEndpoint := hend.trans h.initEndpoint
  initPid := (hpid _ hinit.1).trans h.initPid
  nextPid := by
    rw [hnext]
    exact h.nextPid
  pidPos q hq hu := by
    rw [hpid q hu]
    exact h.pidPos q hq (hinUse q hu)
  pidInj q q' hu hu' heq := by
    rw [hpid q hu, hpid q' hu'] at heq
    exact h.pidInj q q' (hinUse q hu) (hinUse q' hu') heq
  killable q hu := hkill q hu (h.killable q (hinUse q hu))
  parent q hu := by
    rcases hparent q with heq | heq
    · rw [heq]
      rcases h.parent q (hinUse q hu) with hl | hmem
      · exact hlive _ hl
      · exact .inr (hsub hmem)
    · rw [heq]
      exact .inl hinit
  rooted q hu := by
    have hroot := h.rooted q (hinUse q hu)
    clear hu
    induction hroot with
    | init => exact .init
    | @child q _ ih =>
      apply Rooted.child
      rcases hparent q with heq | heq
      · rw [heq]
        exact ih
      · rw [heq]
        exact .init

theorem of_kept (h : Ordered ending s) (hkept : ∀ q, Kept (s.mproc q) (t.mproc q))
    (hnext : t.nextPid = s.nextPid) : Ordered ending t :=
  h.decline (fun q => (hkept q).inUse.mp) (fun q _ => (hkept q).mpPid) (fun q _ => (hkept q).killable)
    (fun q => .inl (hkept q).mpParent) (fun q hl => .inl ((hkept q).live.mpr hl)) subset_rfl
    ((hkept _).live.mpr h.initLive) (hkept _).mpEndpoint hnext

/-- One entry has changed. -/
theorem decline_one (h : Ordered ending s) {r : Mproc} (ht : t.mproc = Function.update s.mproc p r)
    (hnext : t.nextPid = s.nextPid) (hinUse : .IN_USE ∈ r.mpFlags → .IN_USE ∈ (s.mproc p).mpFlags)
    (hpid : .IN_USE ∈ r.mpFlags → r.mpPid = (s.mproc p).mpPid)
    (hkill : Killable (s.mproc p) → Killable r)
    (hparent : r.mpParent = (s.mproc p).mpParent ∨ r.mpParent = INIT_PROC_NR)
    (hlive : (s.mproc p).Live → r.Live ∨ p ∈ ending') (hsub : ending ⊆ ending')
    (hinit : p = INIT_PROC_NR → r.Live ∧ r.mpEndpoint = (s.mproc p).mpEndpoint) :
    Ordered ending' t := by
  -- what holds of the new entry and of every old one holds of every entry
  have hall : ∀ P : Slot → Mproc → Prop, P p r → (∀ q, P q (s.mproc q)) → ∀ q, P q (t.mproc q) := by
    intro P hp hold q
    rw [ht]
    rcases eq_or_ne q p with rfl | hq
    · rwa [Function.update_self]
    · rw [Function.update_of_ne hq]
      exact hold q
  apply h.decline _ _ _ _ _ hsub _ _ hnext
  · exact hall (fun q r => .IN_USE ∈ r.mpFlags → .IN_USE ∈ (s.mproc q).mpFlags) hinUse fun _ => id
  · exact hall (fun q r => .IN_USE ∈ r.mpFlags → r.mpPid = (s.mproc q).mpPid) hpid fun _ _ => rfl
  · exact hall (fun q r => .IN_USE ∈ r.mpFlags → Killable (s.mproc q) → Killable r)
      (fun _ => hkill) fun _ _ => id
  · exact hall (fun q r => r.mpParent = (s.mproc q).mpParent ∨ r.mpParent = INIT_PROC_NR) hparent
      fun _ => .inl rfl
  · exact hall (fun q r => (s.mproc q).Live → r.Live ∨ q ∈ ending') hlive fun _ hl => .inl hl
  · exact hall (fun q r => q = INIT_PROC_NR → r.Live) (fun hp => (hinit hp).1)
      (fun _ hq => hq ▸ h.initLive) _ rfl
  · exact hall (fun q r => q = INIT_PROC_NR → r.mpEndpoint = (s.mproc q).mpEndpoint)
      (fun hp => (hinit hp).2) (fun _ _ => rfl) _ rfl

/-- A process has no children left, so its end is over. -/
theorem ended (h : Ordered (insert p ending) s) (hchild : NoChild p s) : Ordered ending s := by
  refine { h with parent := fun q hu => ?_ }
  rcases h.parent q hu with hl | heq | hmem
  · exact .inl hl
  · exact absurd heq (hchild q hu)
  · exact .inr hmem

/-- The chain of the parents of a process runs through processes in use. -/
theorem rooted_of_agree (h : Ordered ∅ s)
    (hagree : ∀ q, .IN_USE ∈ (s.mproc q).mpFlags → t.mproc q = s.mproc q) {q : Slot}
    (hu : .IN_USE ∈ (s.mproc q).mpFlags) : Rooted t q := by
  have hroot := h.rooted q hu
  induction hroot with
  | init => exact .init
  | @child q _ ih =>
    have hl := (h.parent q hu).resolve_right (Set.notMem_empty _)
    apply Rooted.child
    rw [hagree q hu]
    exact ih hl.1

end Ordered

theorem Change.ordered {ending : Set Slot} (h : Change s t) (htame : Tame s.outside)
    (hs : Ordered ending s) : Ordered ending t := by
  cases h with
  | calm hcalm => exact hs.of_kept hcalm.entry hcalm.nextPid
  | elsewhere f => exact hs.of_kept (fun q => htame _ f _ q) rfl
  | adopt p =>
    refine hs.decline_one (p := p) (r := { s.mproc p with mpParent := INIT_PROC_NR }) rfl rfl id
      (fun _ => rfl) ?_ (.inr rfl) .inl subset_rfl ?_
    · exact fun hr => ⟨hr.mpIgnore, hr.mpCatch, hr.mpSigmask, hr.saMask⟩
    · exact fun hp => ⟨hp ▸ hs.initLive, rfl⟩
  | release p hinUse hexiting =>
    -- it was dead, so nobody counts on it as a parent
    have hdead : ¬(s.mproc p).Live := fun hl => hl.2 hexiting
    have hflags : .IN_USE ∉ (s.mproc p).released.mpFlags := by simp [Mproc.released]
    refine hs.decline_one (p := p) (r := (s.mproc p).released) rfl rfl (absurd · hflags)
      (absurd · hflags) ?_ (.inl rfl) (absurd · hdead) subset_rfl ?_
    · exact fun hr => ⟨hr.mpIgnore, hr.mpCatch, hr.mpSigmask, hr.saMask⟩
    · exact fun hp => absurd (hp ▸ hs.initLive) hdead

theorem Unfolds.ordered {ending : Set Slot} (h : Unfolds s t) (htame : Tame s.outside)
    (hs : Ordered ending s) : Ordered ending t := by
  induction h generalizing ending with
  | refl _ => exact hs
  | change hrun hchange ih =>
    apply hchange.ordered _ (ih htame hs)
    rw [hrun.outside_eq]
    exact htame
  | @exit s t u v p hrun hmark hrest hchild ih ih' =>
    have ht := ih htame hs
    have houtside : v.outside = s.outside := by
      obtain ⟨exitStatus, hu⟩ := hmark.eq
      rw [hrest.outside_eq, hu, ← hrun.outside_eq]
      rfl
    have hinit : p ≠ INIT_PROC_NR := by
      rintro rfl
      exact hmark.notInit ht.initEndpoint
    -- while the exit is under way its process is no parent to count on
    have hu : Ordered (insert p ending) u := by
      obtain ⟨exitStatus, rfl⟩ := hmark.eq
      refine ht.decline_one (p := p) (r := (t.mproc p).marked exitStatus) rfl rfl
        (fun _ => hmark.live.1) (fun _ => rfl) ?_ (.inl rfl)
        (fun _ => .inr (Set.mem_insert p ending)) (Set.subset_insert p ending) ?_
      · exact fun hr => ⟨hr.mpIgnore, hr.mpCatch, hr.mpSigmask, hr.saMask⟩
      · exact fun hp => absurd hp hinit
    have hv : Ordered (insert p ending) v := by
      apply ih' _ hu
      rw [← hrest.outside_eq, houtside]
      exact htame
    apply hv.ended
    apply hchild _ hinit
    rw [houtside]
    exact htame

theorem Birth.ordered {who child : Slot} {c : Mproc} (h : Birth s t who child c)
    (hs : Ordered ∅ s) : Ordered ∅ t := by
  -- who was in use is not the child, and is what it was
  have hne : ∀ q, .IN_USE ∈ (s.mproc q).mpFlags → q ≠ child := by
    rintro q hu rfl
    exact h.free hu
  have hold : ∀ q, q ≠ child → t.mproc q = s.mproc q := by
    intro q hq
    rw [h.mproc, Function.update_of_ne hq]
  have hchild : t.mproc child = c := by rw [h.mproc, Function.update_self]
  have hagree : ∀ q, .IN_USE ∈ (s.mproc q).mpFlags → t.mproc q = s.mproc q :=
    fun q hu => hold q (hne q hu)
  obtain ⟨hpid, hnext⟩ := h.nextPid hs.nextPid
  have hinit := hold _ (hne _ hs.initLive.1)
  constructor
  case initLive => rw [hinit]; exact hs.initLive
  case initEndpoint => rw [hinit]; exact hs.initEndpoint
  case initPid => rw [hinit]; exact hs.initPid
  case nextPid => exact hnext.le
  case pidPos =>
    intro q hq hu
    rcases eq_or_ne q child with rfl | hqc
    · rw [hchild]
      exact hpid
    · rw [hold q hqc] at hu ⊢
      exact hs.pidPos q hq hu
  case pidInj =>
    intro q q' hu hu' heq
    rcases eq_or_ne q child with rfl | hqc
    · rcases eq_or_ne q' q with rfl | hqc'
      · rfl
      · rw [hchild, hold q' hqc'] at heq
        exact absurd heq.symm (h.mpPid q' hqc')
    · rw [hold q hqc] at hu heq
      rcases eq_or_ne q' child with rfl | hqc'
      · rw [hchild] at heq
        exact absurd heq (h.mpPid q hqc)
      · rw [hold q' hqc'] at hu' heq
        exact hs.pidInj q q' hu hu' heq
  case killable =>
    intro q hu
    rcases eq_or_ne q child with rfl | hqc
    · rw [hchild]
      exact h.killable (hs.killable who h.parent.1)
    · rw [hold q hqc] at hu ⊢
      exact hs.killable q hu
  case parent =>
    intro q hu
    left
    rcases eq_or_ne q child with rfl | hqc
    · rw [hchild, h.mpParent, hagree who h.parent.1]
      exact h.parent
    · rw [hold q hqc] at hu ⊢
      have hl := (hs.parent q hu).resolve_right (Set.notMem_empty _)
      rw [hagree _ hl.1]
      exact hl
  case rooted =>
    intro q hu
    rcases eq_or_ne q child with rfl | hqc
    · apply Rooted.child
      rw [hchild, h.mpParent]
      exact hs.rooted_of_agree hagree h.parent.1
    · rw [hold q hqc] at hu
      exact hs.rooted_of_agree hagree hu

theorem Round.ordered (h : Round s t) (htame : Tame s.outside) (hs : Ordered ∅ s) :
    Ordered ∅ t ∧ t.outside = s.outside := by
  cases h with
  | unfold h => exact ⟨h.ordered htame hs, h.outside_eq⟩
  | birth h₁ hbirth h₂ =>
    have houtside := hbirth.outside.trans h₁.outside_eq
    refine ⟨h₂.ordered ?_ (hbirth.ordered (h₁.ordered htame hs)), h₂.outside_eq.trans houtside⟩
    rw [houtside]
    exact htame

/-! ## §4 The start -/

/-- PM has started from a boot image with one entry for each of its processes, INIT and RS
    among them; `outside` is what the other files do. -/
def Started (outside : ℕ → OtherFunction → (Slot → Mproc) → Slot → Mproc) (s : PmState) : Prop :=
  ∃ (image : List BootProc) (answers : ℕ → KernelCall → ℤ),
    (∀ ip ∈ image, ENDPOINT_P ip.endpoint = ip.procNr.val) ∧
    (image.map BootProc.procNr).Nodup ∧
    (∃ ip ∈ image, ip.procNr = INIT_PROC_NR ∧ ip.endpoint = (INIT_PROC_NR : Slot).val) ∧
    RS_PROC_NR ∈ image.map BootProc.procNr ∧
    sefCbInitFresh image (PmState.zero answers outside) = .ok ((), s)

theorem Started.booted {outside : ℕ → OtherFunction → (Slot → Mproc) → Slot → Mproc}
    (h : Started outside s) : Booted s := by
  obtain ⟨image, answers, hend, -, -, -, hrun⟩ := h
  exact ⟨image, _, ⟨fun _ => rfl, fun _ => rfl, rfl⟩, hend, hrun⟩

/-- The parent that a process of the boot image gets. -/
def bootParent (procNr : Slot) : Slot :=
  if procNr = INIT_PROC_NR ∨ procNr = RS_PROC_NR then INIT_PROC_NR else RS_PROC_NR

/-- One process of the boot image gets its entry. -/
structure Enrols (ip : BootProc) (c : Mproc) (s t : PmState) : Prop where
  mproc : t.mproc = Function.update s.mproc ip.procNr c
  live : c.Live
  mpEndpoint : c.mpEndpoint = ip.endpoint
  mpParent : c.mpParent = bootParent ip.procNr
  initPid : ip.procNr = INIT_PROC_NR → c.mpPid = INIT_PID
  mpPid : ip.procNr ≠ INIT_PROC_NR → INIT_PID ≤ s.nextPid →
    INIT_PID < c.mpPid ∧ ∀ q, q ≠ ip.procNr → (s.mproc q).mpPid ≠ c.mpPid
  killable : Killable c
  procsInUse : t.procsInUse = s.procsInUse + 1
  nextPid : INIT_PID ≤ s.nextPid → INIT_PID ≤ t.nextPid
  outside : t.outside = s.outside

/-- `require` leaves the table as it is. -/
theorem leads_require (call : KernelCall) (format : String) :
    Leads (require call format) s fun _ t => t = { s with asked := s.asked + 1 } := by
  apply Leads.bind (Φ := fun _ t => t = { s with asked := s.asked + 1 })
  · exact ⟨fun _ _ hm => by cases hm; rfl⟩
  · rintro a _ rfl
    exact .when (fun _ => .throw) fun _ => rfl

theorem leads_bootProc (ip : BootProc) (hzero : s.mproc ip.procNr = Mproc.zero) :
    Leads (bootProc ip) s fun _ t => ∃ c, Enrols ip c s t := by
  apply Leads.bind (Φ := fun _ t => t = { s with procsInUse := s.procsInUse + 1 })
  · exact ⟨fun _ _ hm => by cases hm; rfl⟩
  rintro _ _ rfl
  apply leads_setProc
  unfold bootKind
  by_cases hinit : ip.procNr = INIT_PROC_NR
  · rw [if_pos hinit]
    apply leads_setProc
    apply leads_setProc
    apply (leads_require _ _).mono
    rintro _ _ rfl
    simp only [PmState.setProc, Function.update_self, Function.update_idem, hzero]
    refine ⟨_, rfl, ?_, rfl, ?_, fun _ => rfl, fun hp => absurd hinit hp, ?_, rfl, id, rfl⟩
    · simp [Mproc.Live, Mproc.zero]
    · simp [bootParent, hinit]
    · constructor <;> simp [Mproc.zero]
  · simp only [if_neg hinit, bind_assoc]
    apply leads_setProc
    apply Leads.bind leads_getFreePid
    rintro pid _ ⟨rfl, hfresh, hpid⟩
    apply leads_setProc
    apply leads_setProc
    apply (leads_require _ _).mono
    rintro _ _ rfl
    simp only [PmState.setProc, Function.update_self, Function.update_idem, hzero] at hfresh hpid ⊢
    refine ⟨_, rfl, ?_, rfl, ?_, fun hp => absurd hp hinit, ?_, ?_, rfl, fun hle => (hpid hle).le, rfl⟩
    · simp [Mproc.Live, Mproc.zero]
    · simp [bootParent, hinit]
    · intro _ hle
      refine ⟨hpid hle, fun q hq => ?_⟩
      have hq' := hfresh q
      rwa [Function.update_of_ne hq] at hq'
    · constructor <;> simp [Mproc.zero]

/-- The processes of `done` have their entries, and everything else is as it was. -/
structure Setup (outside : ℕ → OtherFunction → (Slot → Mproc) → Slot → Mproc)
    (done : List BootProc) (s : PmState) : Prop where
  zero : ∀ q, q ∉ done.map BootProc.procNr → s.mproc q = Mproc.zero
  live : ∀ q ∈ done.map BootProc.procNr, (s.mproc q).Live
  endpoint : ∀ ip ∈ done, (s.mproc ip.procNr).mpEndpoint = ip.endpoint
  parent : ∀ q ∈ done.map BootProc.procNr, (s.mproc q).mpParent = bootParent q
  initPid : INIT_PROC_NR ∈ done.map BootProc.procNr → (s.mproc INIT_PROC_NR).mpPid = INIT_PID
  pidPos : ∀ q ∈ done.map BootProc.procNr, q ≠ INIT_PROC_NR → INIT_PID < (s.mproc q).mpPid
  pidInj : ∀ q ∈ done.map BootProc.procNr, ∀ q' ∈ done.map BootProc.procNr,
    (s.mproc q).mpPid = (s.mproc q').mpPid → q = q'
  killable : ∀ q, Killable (s.mproc q)
  count : Counted s
  nextPid : INIT_PID ≤ s.nextPid
  outside : s.outside = outside

namespace Setup

variable {outside : ℕ → OtherFunction → (Slot → Mproc) → Slot → Mproc} {done : List BootProc}

theorem enrol {ip : BootProc} {c : Mproc} (h : Setup outside done s) (hip : Enrols ip c s t)
    (hnew : ip.procNr ∉ done.map BootProc.procNr) : Setup outside (ip :: done) t := by
  have hself : t.mproc ip.procNr = c := by rw [hip.mproc, Function.update_self]
  have hold : ∀ q, q ≠ ip.procNr → t.mproc q = s.mproc q := by
    intro q hq
    rw [hip.mproc, Function.update_of_ne hq]
  have hne : ∀ q ∈ done.map BootProc.procNr, q ≠ ip.procNr := by
    rintro q hq rfl
    exact hnew hq
  have hmem : ∀ {q}, q ∈ (ip :: done).map BootProc.procNr ↔
      q = ip.procNr ∨ q ∈ done.map BootProc.procNr := by
    intro q
    rw [List.map_cons, List.mem_cons]
  -- the new process has an id of its own: INIT's is below, the others are fresh
  have hfresh : ∀ q ∈ done.map BootProc.procNr, (s.mproc q).mpPid ≠ c.mpPid := by
    intro q hq
    by_cases hinit : ip.procNr = INIT_PROC_NR
    · have hpos := h.pidPos q hq (hinit ▸ hne q hq)
      rw [hip.initPid hinit]
      exact hpos.ne'
    · exact (hip.mpPid hinit h.nextPid).2 q (hne q hq)
  constructor
  case zero =>
    intro q hq
    rw [hmem, not_or] at hq
    rw [hold q hq.1]
    exact h.zero q hq.2
  case live =>
    intro q hq
    rcases hmem.mp hq with rfl | hq
    · rw [hself]
      exact hip.live
    · rw [hold q (hne q hq)]
      exact h.live q hq
  case endpoint =>
    intro jp hjp
    rcases List.mem_cons.mp hjp with rfl | hjp
    · rw [hself]
      exact hip.mpEndpoint
    · rw [hold _ (hne _ (List.mem_map_of_mem hjp))]
      exact h.endpoint jp hjp
  case parent =>
    intro q hq
    rcases hmem.mp hq with rfl | hq
    · rw [hself]
      exact hip.mpParent
    · rw [hold q (hne q hq)]
      exact h.parent q hq
  case initPid =>
    intro hq
    rcases hmem.mp hq with heq | hq
    · rw [heq, hself]
      exact hip.initPid heq.symm
    · rw [hold _ (hne _ hq)]
      exact h.initPid hq
  case pidPos =>
    intro q hq hinit
    rcases hmem.mp hq with rfl | hq
    · rw [hself]
      exact (hip.mpPid hinit h.nextPid).1
    · rw [hold q (hne q hq)]
      exact h.pidPos q hq hinit
  case pidInj =>
    intro q hq q' hq' heq
    rcases hmem.mp hq with rfl | hq
    · rcases hmem.mp hq' with rfl | hq'
      · rfl
      · rw [hself, hold q' (hne q' hq')] at heq
        exact absurd heq.symm (hfresh q' hq')
    · rw [hold q (hne q hq)] at heq
      rcases hmem.mp hq' with rfl | hq'
      · rw [hself] at heq
        exact absurd heq (hfresh q hq)
      · rw [hold q' (hne q' hq')] at heq
        exact h.pidInj q hq q' hq' heq
  case killable =>
    intro q
    rcases eq_or_ne q ip.procNr with rfl | hq
    · rw [hself]
      exact hip.killable
    · rw [hold q hq]
      exact h.killable q
  case count =>
    have hfree : ip.procNr ∉ s.slotsInUse := by
      rw [mem_slotsInUse, h.zero _ hnew]
      simp [Mproc.zero]
    have hcount : s.procsInUse = s.slotsInUse.card := h.count
    unfold Counted
    rw [slotsInUse_insert hip.mproc hip.live.1, Finset.card_insert_of_notMem hfree,
      hip.procsInUse, hcount]
    simp
  case nextPid => exact hip.nextPid h.nextPid
  case outside => exact hip.outside.trans h.outside

/-- When INIT and RS are set up, the table is in order. -/
theorem ordered (h : Setup outside done s)
    (hinit : ∃ ip ∈ done, ip.procNr = INIT_PROC_NR ∧ ip.endpoint = (INIT_PROC_NR : Slot).val)
    (hrs : RS_PROC_NR ∈ done.map BootProc.procNr) : Ordered ∅ s := by
  obtain ⟨ip, hip, hprocNr, hend⟩ := hinit
  have hmem : INIT_PROC_NR ∈ done.map BootProc.procNr := hprocNr ▸ List.mem_map_of_mem hip
  have hused : ∀ q, .IN_USE ∈ (s.mproc q).mpFlags → q ∈ done.map BootProc.procNr := by
    intro q hu
    by_contra hq
    rw [h.zero q hq] at hu
    simp [Mproc.zero] at hu
  have hlive := h.live _ hmem
  have hrsRooted : Rooted s RS_PROC_NR := by
    apply Rooted.child
    rw [h.parent _ hrs, bootParent, if_pos (.inr rfl)]
    exact .init
  refine ⟨hlive, ?_, h.initPid hmem, h.nextPid, ?_, ?_, fun q _ => h.killable q, ?_, ?_⟩
  · rw [← hprocNr, h.endpoint ip hip, hend, hprocNr]
  · exact fun q hq hu => h.pidPos q (hused q hu) hq
  · exact fun q q' hu hu' => h.pidInj q (hused q hu) q' (hused q' hu')
  · intro q hu
    rw [h.parent q (hused q hu), bootParent]
    split
    · exact .inl hlive
    · exact .inl (h.live _ hrs)
  · intro q hu
    apply Rooted.child
    rw [h.parent q (hused q hu), bootParent]
    split
    · exact .init
    · exact hrsRooted

end Setup

theorem Started.setup {outside : ℕ → OtherFunction → (Slot → Mproc) → Slot → Mproc}
    (h : Started outside s) : Counted s ∧ Ordered ∅ s ∧ s.outside = outside := by
  obtain ⟨image, answers, -, hnodup, hinit, hrs, hrun⟩ := h
  have hzero : Setup outside [] (PmState.zero answers outside) := by
    refine ⟨fun _ _ => rfl, by simp, by simp, by simp, by simp, by simp, by simp, ?_, ?_, ?_, rfl⟩
    · intro q
      constructor <;> simp [PmState.zero, Mproc.zero]
    · simp [Counted, PmState.slotsInUse, PmState.zero, Mproc.zero]
    · simp [PmState.zero]
  have hloop := Leads.forM (l := image) (g := bootProc)
    (I := fun done s => (done.map BootProc.procNr).Nodup → Setup outside done s) ?_
    (fun _ => hzero : ([].map BootProc.procNr).Nodup → _)
  · have hsetup := hloop.result () s hrun
    rw [List.append_nil] at hsetup
    have hdone := hsetup (by rwa [List.map_reverse, List.nodup_reverse])
    refine ⟨hdone.count, hdone.ordered ?_ ?_, hdone.outside⟩
    · obtain ⟨ip, hip, hprocNr⟩ := hinit
      exact ⟨ip, List.mem_reverse.mpr hip, hprocNr⟩
    · rwa [List.map_reverse, List.mem_reverse]
  · intro ip _ done s hs
    by_cases hdone : ((ip :: done).map BootProc.procNr).Nodup
    · rw [List.map_cons, List.nodup_cons] at hdone
      have hsetup := hs hdone.2
      apply (leads_bootProc ip (hsetup.zero _ hdone.1)).mono
      rintro _ t ⟨c, hc⟩ _
      exact hsetup.enrol hc hdone.1
    · exact ⟨fun _ _ _ hnodup => absurd hnodup hdone⟩

/-! ## §5 The results -/

variable {s₀ : PmState} {is : List Input}
  {outside : ℕ → OtherFunction → (Slot → Mproc) → Slot → Mproc}

/-- The count is right after every run. -/
theorem run_counted (hstart : Started outside s₀) (hrun : Run Step s₀ is s) : Counted s := by
  obtain ⟨hcount, -, -⟩ := hstart.setup
  have hboth := hrun.invariant (I := fun s => Fine (lost s.log) s.view ∧ Counted s) ?_
    ⟨hstart.booted.fine.rebase, hcount⟩
  · exact hboth.2
  · rintro t i u ⟨hfine, hcount⟩ hstep
    exact ⟨(step_fine hfine hstep).rebase, (step_round hfine hstep).counted hcount⟩

/-- The table is in order after every run. -/
theorem run_ordered (hstart : Started outside s₀) (htame : Tame outside) (hrun : Run Step s₀ is s) :
    Ordered ∅ s ∧ s.outside = outside := by
  obtain ⟨-, hordered, houtside⟩ := hstart.setup
  have hall := hrun.invariant
    (I := fun s => Fine (lost s.log) s.view ∧ Ordered ∅ s ∧ s.outside = outside) ?_
    ⟨hstart.booted.fine.rebase, hordered, houtside⟩
  · exact hall.2
  · rintro t i u ⟨hfine, hordered, rfl⟩ hstep
    obtain ⟨hu, houtside⟩ := (step_round hfine hstep).ordered htame hordered
    exact ⟨(step_fine hfine hstep).rebase, hu, houtside⟩

/-- The two forks behind the search for a slot. -/
def forkInto (child : Slot → Slot → Program Unit) (who : Slot) (r : Mproc) (slot : Slot) :
    Program (ℤ ⊕ Slot) := do
  let a ← ask (.vm_fork r.mpEndpoint slot)
  if a ≠ OK then pure (.inl a)
  else do
    child who slot
    pure (.inr slot)

/-- **A slot must exist.**  After every run of PM from its start `procs_in_use` is the number of
slots in use.  So whoever forks then, by either of the two calls, is refused because at most
the last few slots are free, or VM is asked to fork into a free slot of the table as it is:
neither of the panics behind the search for a slot is ever reached. -/
theorem fork_finds_slot (hstart : Started outside s₀) (hrun : Run Step s₀ is s) (srv : Bool)
    (child : Slot → Slot → Program Unit) (who : Slot) :
    s.procsInUse = s.slotsInUse.card ∧
    ((forkWith srv child { s with mp := who } = .ok (.inl EAGAIN, { s with mp := who }) ∧
        NR_PROCS ≤ s.slotsInUse.card + LAST_FEW) ∨
      ∃ slot s', slot ∉ s.slotsInUse ∧ s'.mproc = s.mproc ∧
        forkWith srv child { s with mp := who } = forkInto child who (s.mproc who) slot s') := by
  have hcount : s.procsInUse = s.slotsInUse.card := run_counted hstart hrun
  refine ⟨hcount, ?_⟩
  by_cases hfull : s.procsInUse = NR_PROCS ∨
      s.procsInUse ≥ (NR_PROCS : ℤ) - LAST_FEW ∧ (s.mproc who).mpEffuid ≠ 0
  · left
    constructor
    · simp only [forkWith, mp, proc, tableFull, bind_apply, hfull, decide_true, if_true]
      rfl
    · rw [hcount] at hfull
      unfold LAST_FEW at hfull ⊢
      omega
  · right
    -- not every slot is in use
    have hfree : ∃ free, .IN_USE ∉ (s.mproc free).mpFlags := by
      by_contra hall
      have huniv : s.slotsInUse = Finset.univ := by
        ext q
        simpa [mem_slotsInUse] using not_exists_not.mp hall q
      rw [huniv, Finset.card_univ, Fintype.card_fin] at hcount
      exact hfull (.inl hcount)
    obtain ⟨free, hfree⟩ := hfree
    obtain ⟨slot, s', hfind, hslot, hmproc⟩ :=
      findChild_ok (s := { s with mp := who }) hfree srv
    refine ⟨slot, s', fun hmem => hslot (mem_slotsInUse.mp hmem), hmproc, ?_⟩
    simp only [forkWith, mp, proc, tableFull, bind_apply, hfull, decide_false, Bool.false_eq_true,
      if_false, hfind]
    rfl

/-- **Process ids.**  If the other files leave the processes what they are, then after every run
of PM from its start no two processes in use have the same id, INIT has `INIT_PID`, everybody
else a higher one, and nobody is deaf to `SIGKILL`. -/
theorem pids_distinct (hstart : Started outside s₀) (htame : Tame outside)
    (hrun : Run Step s₀ is s) :
    (∀ q q', .IN_USE ∈ (s.mproc q).mpFlags → .IN_USE ∈ (s.mproc q').mpFlags →
      (s.mproc q).mpPid = (s.mproc q').mpPid → q = q') ∧
    (s.mproc INIT_PROC_NR).mpPid = INIT_PID ∧
    (∀ q, q ≠ INIT_PROC_NR → .IN_USE ∈ (s.mproc q).mpFlags → INIT_PID < (s.mproc q).mpPid) ∧
    ∀ q, .IN_USE ∈ (s.mproc q).mpFlags → Killable (s.mproc q) := by
  obtain ⟨h, -⟩ := run_ordered hstart htame hrun
  exact ⟨h.pidInj, h.initPid, h.pidPos, h.killable⟩

/-- **The processes form a tree.**  If the other files leave the processes what they are, then
after every run of PM from its start INIT is alive, every process in use, dead or alive, has
a live parent, and from each the parents lead to INIT. -/
theorem process_tree (hstart : Started outside s₀) (htame : Tame outside)
    (hrun : Run Step s₀ is s) :
    (s.mproc INIT_PROC_NR).Live ∧ ∀ q, .IN_USE ∈ (s.mproc q).mpFlags →
      (s.mproc (s.mproc q).mpParent).Live ∧ Rooted s q := by
  obtain ⟨h, -⟩ := run_ordered hstart htame hrun
  refine ⟨h.initLive, fun q hu => ⟨?_, h.rooted q hu⟩⟩
  exact (h.parent q hu).resolve_right (Set.notMem_empty _)

theorem started_of_after {image : List BootProc} {answers : ℕ → KernelCall → ℤ}
    (hend : ∀ ip ∈ image, ENDPOINT_P ip.endpoint = ip.procNr.val)
    (hnodup : (image.map BootProc.procNr).Nodup)
    (hinit : ∃ ip ∈ image, ip.procNr = INIT_PROC_NR ∧ ip.endpoint = (INIT_PROC_NR : Slot).val)
    (hrs : RS_PROC_NR ∈ image.map BootProc.procNr)
    (h : after (sefCbInitFresh image) (PmState.zero answers outside) = some s) :
    Started outside s :=
  ⟨image, answers, hend, hnodup, hinit, hrs, run_eq_of_after h⟩

/-- Other files that do nothing are tame. -/
theorem tame_idle : Tame fun _ _ table => table := by
  intro n f table q
  have hflags : ((table q).keeping (table q)).mpFlags = (table q).mpFlags := by
    ext g
    simp only [Mproc.keeping, Finset.mem_union, Finset.mem_sdiff, Finset.mem_inter]
    tauto
  exact .of_eq hflags rfl rfl rfl rfl rfl rfl rfl

end MinixCv.Pm

namespace MinixCv.Pm

open MinixCv.Lib MinixCv.Server

section Example

local instance smallTable : PmHeader := PmHeader.sixteen

/-- INIT forks a child, and the child forks and exits. -/
def orphanInputs : List Input :=
  [.call 10 .fork,
    .call 1 (.vfsReply ⟨.PM_FORK_REPLY, 32771, 0, 0⟩ []),
    .call 32771 .fork,
    .call 1 (.vfsReply ⟨.PM_FORK_REPLY, 32772, 0, 0⟩ []),
    .call 32771 (.exit 0)]

/-- Where seven processes are in use, of which the child has exited and its own child has not. -/
def orphaned (s : PmState) : Bool :=
  s.procsInUse = 7 ∧ .EXITING ∈ (s.mproc 3).mpFlags ∧ (s.mproc 4).Live

theorem orphan_run : ∃ s₀ s, Started (fun _ _ table => table) s₀ ∧ Run Step s₀ orphanInputs s ∧
    orphaned s := by
  have hend : ((cvStart.bind (attend orphanInputs)).map orphaned) = some true := by decide +kernel
  obtain ⟨s, hs, horphaned⟩ := Option.map_eq_some_iff.mp hend
  obtain ⟨s₀, hs₀, hattend⟩ := Option.bind_eq_some_iff.mp hs
  have hstart : Started (fun _ _ table => table) s₀ :=
    started_of_after (by decide) (by decide) (by decide) (by decide) hs₀
  exact ⟨s₀, s, hstart, (run_of_attend hattend).mono fun _ _ _ h => h.2.1, horphaned⟩

theorem fork_finds_slot_orphan : ∃ s₀ s, Started (fun _ _ table => table) s₀ ∧
    Run Step s₀ orphanInputs s ∧ (7 : ℤ) = s.slotsInUse.card := by
  obtain ⟨s₀, s, hstart, hrun, horphaned⟩ := orphan_run
  have hcount := (fork_finds_slot hstart hrun false (fun _ _ => pure ()) 10).1
  have hseven : s.procsInUse = 7 := (of_decide_eq_true horphaned).1
  exact ⟨s₀, s, hstart, hrun, hseven.symm.trans hcount⟩

theorem pids_distinct_orphan : ∃ s₀ s, Started (fun _ _ table => table) s₀ ∧
    Run Step s₀ orphanInputs s ∧ (s.mproc PmHeader.INIT_PROC_NR).mpPid = INIT_PID ∧
    INIT_PID < (s.mproc 4).mpPid ∧ Killable (s.mproc 4) := by
  obtain ⟨s₀, s, hstart, hrun, horphaned⟩ := orphan_run
  have hlive : (s.mproc 4).Live := (of_decide_eq_true horphaned).2.2
  obtain ⟨-, hinit, hpid, hkill⟩ := pids_distinct hstart tame_idle hrun
  exact ⟨s₀, s, hstart, hrun, hinit, hpid 4 (by decide) hlive.1, hkill 4 hlive.1⟩

theorem process_tree_orphan : ∃ s₀ s, Started (fun _ _ table => table) s₀ ∧
    Run Step s₀ orphanInputs s ∧ (s.mproc (s.mproc 4).mpParent).Live ∧ Rooted s 4 := by
  obtain ⟨s₀, s, hstart, hrun, horphaned⟩ := orphan_run
  have hlive : (s.mproc 4).Live := (of_decide_eq_true horphaned).2.2
  exact ⟨s₀, s, hstart, hrun, (process_tree hstart tame_idle hrun).2 4 hlive.1⟩

end Example

end MinixCv.Pm

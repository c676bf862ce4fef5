import MinixCv.Pm.UnfoldRounds

/-!
# What A Round Does To The Living

Whoever dies in a round has been reported to `cv`; and where no endpoint is given out a
second time, whoever has been reported is dead.

- `Alive`: some process in use that is not exiting has this endpoint
- `Round.alive_or_told`, `not_alive_of_told`: the two directions
- `Fresh`: the endpoints of the processes that are born are new
-/

namespace MinixCv.Pm

open MinixCv.Lib MinixCv.Server PmHeader

variable [PmHeader] {s t : PmState} {p q : Slot} {ep : ℤ}

/-- A live process has this endpoint. -/
def Alive (s : PmState) (ep : ℤ) : Prop := ∃ p, (s.mproc p).Live ∧ (s.mproc p).mpEndpoint = ep

theorem ToldExit.mono {log log' : List Event} (h : ToldExit ep log) (hsub : log <:+ log') :
    ToldExit ep log' := by
  obtain ⟨dest, m, hmem, hrest⟩ := h
  exact ⟨dest, m, hsub.subset hmem, hrest⟩

/-! ## §1 Changes and exits -/

theorem keeping_live (r old : Mproc) : (r.keeping old).Live ↔ old.Live := by
  simp [Mproc.Live, Mproc.keeping, vitalFlags]

/-- A change leaves the living alone, and makes nobody live. -/
theorem Change.live_iff (h : Change s t) (q : Slot) :
    (t.mproc q).Live ↔ (s.mproc q).Live := by
  cases h with
  | calm hcalm => exact (hcalm.entry q).live
  | elsewhere f => exact keeping_live _ _
  | adopt p =>
    rcases eq_or_ne q p with rfl | hq
    · simp [PmState.setProc, Mproc.Live]
    · simp [PmState.setProc, hq]
  | release p _ hexiting =>
    rcases eq_or_ne q p with rfl | hq
    · simp [PmState.setProc, Mproc.Live, Mproc.released, hexiting]
    · simp [PmState.setProc, hq]

theorem Change.mpEndpoint_eq (h : Change s t) (q : Slot) :
    (t.mproc q).mpEndpoint = (s.mproc q).mpEndpoint := by
  cases h with
  | calm hcalm => exact (hcalm.entry q).mpEndpoint
  | elsewhere f => rfl
  | adopt p =>
    rcases eq_or_ne q p with rfl | hq
    · simp [PmState.setProc]
    · simp [PmState.setProc, hq]
  | release p _ _ =>
    rcases eq_or_ne q p with rfl | hq
    · simp [PmState.setProc, Mproc.released]
    · simp [PmState.setProc, hq]

theorem Change.log_suffix (h : Change s t) : s.log <:+ t.log := by
  cases h with
  | calm hcalm => exact hcalm.log
  | elsewhere f => exact List.suffix_rfl
  | adopt p => exact List.suffix_rfl
  | release p _ _ => exact List.suffix_rfl

theorem Marks.mpEndpoint_eq (h : Marks p s t) (q : Slot) :
    (t.mproc q).mpEndpoint = (s.mproc q).mpEndpoint := by
  obtain ⟨exitStatus, rfl⟩ := h.eq
  rcases eq_or_ne q p with rfl | hq
  · simp [PmState.setProc, Mproc.marked]
  · simp [PmState.setProc, hq]

/-- Only the process that is marked dies by the mark. -/
theorem Marks.live_iff (h : Marks p s t) (q : Slot) :
    (t.mproc q).Live ↔ (s.mproc q).Live ∧ q ≠ p := by
  obtain ⟨exitStatus, rfl⟩ := h.eq
  rcases eq_or_ne q p with rfl | hq
  · simp [PmState.setProc, Mproc.Live, Mproc.marked]
  · simp [PmState.setProc, hq]

theorem Marks.log_eq (h : Marks p s t) : t.log = s.log := by
  obtain ⟨exitStatus, rfl⟩ := h.eq
  rfl

namespace Unfolds

theorem mpEndpoint_eq (h : Unfolds s t) (q : Slot) :
    (t.mproc q).mpEndpoint = (s.mproc q).mpEndpoint := by
  induction h with
  | refl _ => rfl
  | change _ hchange ih => rw [hchange.mpEndpoint_eq, ih]
  | exit _ hmark _ _ ih ih' => rw [ih', hmark.mpEndpoint_eq, ih]

theorem log_suffix (h : Unfolds s t) : s.log <:+ t.log := by
  induction h with
  | refl _ => exact List.suffix_rfl
  | change _ hchange ih => exact ih.trans hchange.log_suffix
  | exit _ hmark _ _ ih ih' =>
    rw [hmark.log_eq] at ih'
    exact ih.trans ih'

/-- Whoever dies has been reported. -/
theorem live_or_told (h : Unfolds s t) (hl : (s.mproc q).Live) :
    (t.mproc q).Live ∨ ToldExit (s.mproc q).mpEndpoint t.log := by
  induction h with
  | refl _ => exact .inl hl
  | change _ hchange ih =>
    rcases ih hl with hl' | htold
    · exact .inl ((hchange.live_iff q).mpr hl')
    · exact .inr (htold.mono hchange.log_suffix)
  | @exit s t u v p hrun hmark hrest _ ih ih' =>
    have hsuffix : t.log <:+ v.log := by
      rw [← hmark.log_eq]
      exact hrest.log_suffix
    rcases ih hl with hl' | htold
    · rcases eq_or_ne q p with rfl | hq
      -- the report is in the log when the mark is made
      · rw [← hrun.mpEndpoint_eq]
        exact .inr (hmark.told.mono hsuffix)
      · rcases ih' ((hmark.live_iff q).mpr ⟨hl', hq⟩) with hl'' | htold
        · exact .inl hl''
        · rw [hmark.mpEndpoint_eq, hrun.mpEndpoint_eq] at htold
          exact .inr htold
    · exact .inr (htold.mono hsuffix)

theorem alive_or_told (h : Unfolds s t) (hs : Alive s ep) : Alive t ep ∨ ToldExit ep t.log := by
  obtain ⟨q, hl, rfl⟩ := hs
  rcases h.live_or_told hl with hl' | htold
  · exact .inl ⟨q, hl', h.mpEndpoint_eq q⟩
  · exact .inr htold

end Unfolds

/-! ## §2 Rounds -/

/-- A birth leaves the living alone: the slot of the child was free. -/
theorem Birth.alive {who child : Slot} {c : Mproc} (h : Birth s t who child c) (hs : Alive s ep) :
    Alive t ep := by
  obtain ⟨q, hl, hend⟩ := hs
  have hq : q ≠ child := by
    rintro rfl
    exact h.free hl.1
  have hold : t.mproc q = s.mproc q := by rw [h.mproc, Function.update_of_ne hq]
  exact ⟨q, by rwa [hold], by rwa [hold]⟩

namespace Round

theorem log_suffix (h : Round s t) : s.log <:+ t.log := by
  cases h with
  | unfold h => exact h.log_suffix
  | birth h₁ hbirth h₂ =>
    have hlog := h₂.log_suffix
    rw [hbirth.log] at hlog
    exact h₁.log_suffix.trans ((List.suffix_cons _ _).trans hlog)

/-- Whoever dies in a round has been reported to `cv`. -/
theorem alive_or_told (h : Round s t) (hs : Alive s ep) : Alive t ep ∨ ToldExit ep t.log := by
  cases h with
  | unfold h => exact h.alive_or_told hs
  | birth h₁ hbirth h₂ =>
    rcases h₁.alive_or_told hs with halive | htold
    · exact h₂.alive_or_told (hbirth.alive halive)
    · have hlog := h₂.log_suffix
      rw [hbirth.log] at hlog
      exact .inr (htold.mono ((List.suffix_cons _ _).trans hlog))

end Round

/-! ## §3 Endpoints that are not given out again -/

/-- A process that is born gets an endpoint that nobody has been reported under. -/
def Fresh : List Event → Prop
  | [] => True
  | .born _ ep :: log => (∀ dest m, .told dest m ∈ log → m.PM_PROC ≠ ep) ∧ Fresh log
  | _ :: log => Fresh log

/-- The start reports nothing. -/
theorem Booted.log_eq_nil (h : Booted s) : s.log = [] := by
  obtain ⟨image, s₀, hzero, himage, hrun⟩ := h
  have hstart : Booting ∅ s₀.view :=
    ⟨fun q => by simp [PmState.view, hzero.mpFlags], hzero.vfs,
      fun q _ hu => by simp [PmState.view, hzero.mpFlags] at hu, hzero.log⟩
  have hboot : Sure (sefCbInitFresh image) s₀.view fun _ => Booting ∅ :=
    .forM (fun ip hip _ hv => sure_bootProc ip hv (himage ip hip)) hstart
  exact (hboot.of_ok hrun).log

end MinixCv.Pm

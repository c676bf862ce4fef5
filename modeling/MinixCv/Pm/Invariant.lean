import MinixCv.Pm.View
import Mathlib.Data.Finset.Card
import Mathlib.Data.List.Infix

/-!
# The Invariant Of The Life Cycle

`Good X n k` holds between any two operations on the view:

- every slot is `Sound`: its flags agree with each other, with its endpoint and with the
  request that VFS works on
- a live process has only been interrupted, a dying one has been reported dead once and
  nothing was said about it since
- the slots in `X` are `Settled`: dead, and VFS is done with them
- at most `n` processes are live, which bounds the depth of a chain of exits
- `k` notices found nobody named `cv`, or nobody is named so now
-/

namespace MinixCv.Pm

open MinixCv.Lib MinixCv.Server PmHeader

variable [PmHeader]

/-! ## §1 What was said about a process -/

/-- The notices about the endpoint since it was last given out, newest first: to whom each
    was sent, and its type. -/
def noticesOn (ep : ℤ) : List Event → List (Option ℤ × MType)
  | [] => []
  | .born _ e :: log => if e = ep then [] else noticesOn ep log
  | .told dest m :: log =>
    if m.PM_PROC = ep then (dest, m.mType) :: noticesOn ep log else noticesOn ep log
  | .released _ _ :: log => noticesOn ep log

/-- Nothing but interruptions. -/
def Interrupted (notices : List (Option ℤ × MType)) : Prop :=
  ∀ t ∈ notices, t.2 = .signal CS_EINTR

/-- One death, after interruptions only and with nothing behind it. -/
def Final (notices : List (Option ℤ × MType)) : Prop :=
  ∃ dest earlier, notices = (dest, .signal CS_EXIT) :: earlier ∧ Interrupted earlier

/-- The number of notices that found nobody named `cv`. -/
def lost : List Event → ℕ
  | [] => 0
  | .told none _ :: log => lost log + 1
  | _ :: log => lost log

/-- At every moment of the log, every process has been interrupted and at most then died;
    and a slot is released after the death. -/
structure Orderly (log : List Event) : Prop where
  notices : ∀ older, older <:+ log → ∀ ep, Interrupted (noticesOn ep older) ∨
    Final (noticesOn ep older)
  released : ∀ p ep older, .released p ep :: older <:+ log → Final (noticesOn ep older)

omit [PmHeader] in
theorem interrupted_nil : Interrupted [] := by simp [Interrupted]

omit [PmHeader] in
theorem Interrupted.cons {notices : List (Option ℤ × MType)} (h : Interrupted notices)
    (dest : Option ℤ) : Interrupted ((dest, .signal CS_EINTR) :: notices) := by
  intro t ht
  rcases List.mem_cons.mp ht with rfl | ht
  · rfl
  · exact h t ht

theorem orderly_nil : Orderly ([] : List Event) where
  notices older h ep := by
    rw [List.suffix_nil.mp h]
    exact .inl interrupted_nil
  released p ep older h := by simp at h

theorem Orderly.cons {e : Event} {log : List Event} (h : Orderly log)
    (hnotices : ∀ ep, Interrupted (noticesOn ep (e :: log)) ∨ Final (noticesOn ep (e :: log)))
    (hreleased : ∀ p ep, e = .released p ep → Final (noticesOn ep log)) : Orderly (e :: log) where
  notices older hsuf ep := by
    -- a moment of the longer log is the last one or one of the shorter log
    rcases List.suffix_cons_iff.mp hsuf with rfl | hsuf
    · exact hnotices ep
    · exact h.notices older hsuf ep
  released p ep older hsuf := by
    rcases List.suffix_cons_iff.mp hsuf with heq | hsuf
    · obtain ⟨he, rfl⟩ := List.cons.inj heq
      exact hreleased p ep he.symm
    · exact h.released p ep older hsuf

/-! ## §2 Slots -/

namespace Entry

/-- What holds of a slot by itself. -/
structure Sound (e : Entry) (p : Slot) : Prop where
  exiting : .EXITING ∈ e.flags → .IN_USE ∈ e.flags
  zombie : .ZOMBIE ∈ e.flags → .EXITING ∈ e.flags
  traceZombie : .TRACE_ZOMBIE ∈ e.flags → .EXITING ∈ e.flags
  toldParent : .TOLD_PARENT ∈ e.flags → .EXITING ∈ e.flags
  endpoint : .IN_USE ∈ e.flags → ENDPOINT_P e.endpoint = p.val
  vfsCall : .VFS_CALL ∈ e.flags → .IN_USE ∈ e.flags
  idle : .VFS_CALL ∉ e.flags → e.vfs = none
  request : ∀ m, e.vfs = some m →
    m.PM_PROC = e.endpoint ∧ (m.Ends ↔ .EXITING ∈ e.flags)

/-- What has been said about the process in the slot. -/
structure Reported (e : Entry) (log : List Event) : Prop where
  live : e.Live → Interrupted (noticesOn e.endpoint log)
  dying : e.Dying → Final (noticesOn e.endpoint log)

/-- Dead, and VFS is done. -/
def Settled (e : Entry) : Prop :=
  .IN_USE ∉ e.flags ∨ .EXITING ∈ e.flags ∧ .VFS_CALL ∉ e.flags

omit [PmHeader] in
theorem Live.not_dying {e : Entry} (h : e.Live) : ¬e.Dying := fun hd => h.2 hd.2

omit [PmHeader] in
theorem Live.not_settled {e : Entry} (h : e.Live) : ¬e.Settled := by
  intro hcase
  rcases hcase with hu | ⟨he, -⟩
  · exact hu h.1
  · exact h.2 he

/-- The flags that the invariant ties together are the same. -/
structure SameCore (e e' : Entry) : Prop where
  inUse : .IN_USE ∈ e.flags ↔ .IN_USE ∈ e'.flags
  exiting : .EXITING ∈ e.flags ↔ .EXITING ∈ e'.flags
  vfsCall : .VFS_CALL ∈ e.flags ↔ .VFS_CALL ∈ e'.flags
  endpoint : e.endpoint = e'.endpoint
  name : e.name = e'.name
  vfs : e.vfs = e'.vfs

/-- Only `ZOMBIE`, `TRACE_ZOMBIE` and `TOLD_PARENT` of a dying process have changed. -/
theorem Sound.of_sameCore {e e' : Entry} {p : Slot} (h : e.Sound p) (hsame : SameCore e' e)
    (hexit : .EXITING ∈ e.flags) : e'.Sound p := by
  have hexit' := hsame.exiting.mpr hexit
  exact {
    exiting := fun _ => hsame.inUse.mpr (h.exiting hexit)
    zombie := fun _ => hexit'
    traceZombie := fun _ => hexit'
    toldParent := fun _ => hexit'
    endpoint := fun hu => by
      rw [hsame.endpoint]
      exact h.endpoint (hsame.inUse.mp hu)
    vfsCall := fun hc => hsame.inUse.mpr (h.vfsCall (hsame.vfsCall.mp hc))
    idle := fun hc => by
      rw [hsame.vfs]
      exact h.idle fun hc' => hc (hsame.vfsCall.mpr hc')
    request := fun m hm => by
      rw [hsame.vfs] at hm
      rw [hsame.endpoint, hsame.exiting]
      exact h.request m hm }

omit [PmHeader] in
theorem SameCore.live {e e' : Entry} (h : SameCore e' e) : e'.Live ↔ e.Live := by
  unfold Live
  rw [h.inUse, h.exiting]

omit [PmHeader] in
theorem SameCore.dying {e e' : Entry} (h : SameCore e' e) : e'.Dying ↔ e.Dying := by
  unfold Dying
  rw [h.inUse, h.exiting]

omit [PmHeader] in
theorem SameCore.isCv {e e' : Entry} (h : SameCore e' e) : e'.IsCv ↔ e.IsCv := by
  unfold IsCv
  rw [h.inUse, h.name]

omit [PmHeader] in
theorem SameCore.settled {e e' : Entry} (h : SameCore e' e) : e'.Settled ↔ e.Settled := by
  unfold Settled
  rw [h.inUse, h.exiting, h.vfsCall]

/-- What was said about the process in the slot is what counts, not the rest of the log. -/
theorem Reported.of_notices {e : Entry} {log log' : List Event} (h : e.Reported log)
    (hsame : .IN_USE ∈ e.flags → noticesOn e.endpoint log' = noticesOn e.endpoint log) :
    e.Reported log' where
  live hl := by
    rw [hsame hl.1]
    exact h.live hl
  dying hd := by
    rw [hsame hd.1]
    exact h.dying hd

theorem Reported.of_sameCore {e e' : Entry} {log : List Event} (h : e.Reported log)
    (hsame : SameCore e' e) : e'.Reported log where
  live hl := by
    rw [hsame.endpoint]
    exact h.live (hsame.live.mp hl)
  dying hd := by
    rw [hsame.endpoint]
    exact h.dying (hsame.dying.mp hd)

/-- An unused slot with nothing open is sound, whatever else it holds. -/
theorem sound_empty (p : Slot) (ep : ℤ) (name : String) : (⟨∅, ep, name, none⟩ : Entry).Sound p := by
  constructor <;> simp

theorem reported_empty (ep : ℤ) (name : String) (log : List Event) :
    (⟨∅, ep, name, none⟩ : Entry).Reported log where
  live h := by simp [Live] at h
  dying h := by simp [Dying] at h

end Entry

/-! ## §3 The invariant -/

open Classical in
/-- The live processes. -/
noncomputable def View.living (v : View) : Finset Slot :=
  Finset.univ.filter fun p => (v.slot p).Live

theorem View.mem_living {v : View} {p : Slot} : p ∈ v.living ↔ (v.slot p).Live := by
  simp [living]

structure Good (X : Set Slot) (n k : ℕ) (v : View) : Prop where
  sound : ∀ p, (v.slot p).Sound p
  reported : ∀ p, (v.slot p).Reported v.log
  orderly : Orderly v.log
  attended : lost v.log = k ∨ ∀ p, ¬(v.slot p).IsCv
  settled : ∀ p ∈ X, (v.slot p).Settled
  few : v.living.card ≤ n

namespace Good

variable {X : Set Slot} {n k : ℕ} {v : View} {p : Slot} {e : Entry}

theorem mono {n' : ℕ} (h : Good X n k v) (hn : n ≤ n') : Good X n' k v :=
  { h with few := h.few.trans hn }

theorem of_subset {Y : Set Slot} (h : Good X n k v) (hY : Y ⊆ X) : Good Y n k v :=
  { h with settled := fun p hp => h.settled p (hY hp) }

/-- Two processes in use have different endpoints. -/
theorem endpoint_ne (h : Good X n k v) {q : Slot} (hp : .IN_USE ∈ (v.slot p).flags)
    (hq : .IN_USE ∈ (v.slot q).flags) (hne : q ≠ p) : (v.slot q).endpoint ≠ (v.slot p).endpoint := by
  intro heq
  have h₁ := (h.sound p).endpoint hp
  have h₂ := (h.sound q).endpoint hq
  rw [heq, h₁] at h₂
  exact hne (Fin.ext (by exact_mod_cast h₂.symm))

theorem living_set_subset (hlive : e.Live → (v.slot p).Live) :
    (v.set p e).living ⊆ v.living := by
  intro q hq
  rw [View.mem_living] at hq ⊢
  rcases eq_or_ne q p with rfl | hne
  · rw [View.set_slot_self] at hq
    exact hlive hq
  · rwa [View.set_slot_of_ne v e hne] at hq

/-- One slot changes, and no life begins.  It gets the name `cv` only while nothing is lost. -/
theorem set (h : Good X n k v) (hs : e.Sound p) (hr : e.Reported v.log)
    (hcv : lost v.log = k ∨ (e.IsCv → (v.slot p).IsCv)) (hX : p ∈ X → e.Settled)
    (hlive : e.Live → (v.slot p).Live) : Good X n k (v.set p e) where
  sound := View.forall_set (P := fun q e => e.Sound q) hs fun q _ => h.sound q
  reported := View.forall_set (P := fun _ e => e.Reported v.log) hr fun q _ => h.reported q
  orderly := h.orderly
  attended := by
    rcases hcv with hk | hcv
    · exact .inl hk
    · apply h.attended.imp_right
      intro hnone
      exact View.forall_set (P := fun _ e => ¬e.IsCv) (fun he => hnone p (hcv he)) fun q _ => hnone q
  settled := View.forall_set (P := fun q e => q ∈ X → e.Settled) hX fun q _ => h.settled q
  few := (Finset.card_le_card (living_set_subset hlive)).trans h.few

/-- A dying process may change its flags `ZOMBIE`, `TRACE_ZOMBIE` and `TOLD_PARENT`. -/
theorem set_sameCore (h : Good X n k v) (hsame : e.SameCore (v.slot p))
    (hexit : .EXITING ∈ (v.slot p).flags) : Good X n k (v.set p e) :=
  h.set ((h.sound p).of_sameCore hsame hexit) ((h.reported p).of_sameCore hsame)
    (.inr hsame.isCv.mp) (fun hp => hsame.settled.mpr (h.settled p hp)) hsame.live.mp

/-! ## §4 Events -/

/-- An event changes nothing but what was said. -/
theorem push {ev : Event} (h : Good X n k v) (hr : ∀ p, (v.slot p).Reported (ev :: v.log))
    (ho : Orderly (ev :: v.log)) (ha : lost (ev :: v.log) = lost v.log ∨ ∀ p, ¬(v.slot p).IsCv) :
    Good X n k (v.push ev) where
  sound := h.sound
  reported := hr
  orderly := ho
  attended := by
    rcases h.attended with hk | hnone
    · exact ha.imp_left fun hlost => hlost.trans hk
    · exact .inr hnone
  settled := h.settled
  few := h.few

/-- `ev` is what `tell_cv` records for a notice `m` when the view is `v`. -/
def Notice (v : View) (m : Message) (ev : Event) : Prop :=
  ∃ dest, ev = .told dest m ∧ (dest = none → ∀ q, ¬(v.slot q).IsCv)

theorem Notice.attended {m : Message} {ev : Event} (h : Notice v m ev) :
    lost (ev :: v.log) = lost v.log ∨ ∀ q, ¬(v.slot q).IsCv := by
  obtain ⟨dest, rfl, hnone⟩ := h
  cases dest with
  | none => exact .inr (hnone rfl)
  | some dest => exact .inl rfl

theorem noticesOn_told_of_ne {ep : ℤ} {dest : Option ℤ} {m : Message} {log : List Event}
    (hne : m.PM_PROC ≠ ep) : noticesOn ep (.told dest m :: log) = noticesOn ep log := by
  simp [noticesOn, hne]

theorem noticesOn_told_self {dest : Option ℤ} {m : Message} {log : List Event} :
    noticesOn m.PM_PROC (.told dest m :: log) = (dest, m.mType) :: noticesOn m.PM_PROC log := by
  simp [noticesOn]

/-- What was said about the others is not touched by a notice about `p`. -/
theorem reported_told_of_ne (h : Good X n k v) {dest : Option ℤ} {m : Message} {q : Slot}
    (hp : .IN_USE ∈ (v.slot p).flags) (hm : m.PM_PROC = (v.slot p).endpoint) (hq : q ≠ p) :
    (v.slot q).Reported (.told dest m :: v.log) := by
  apply (h.reported q).of_notices
  intro hu
  apply noticesOn_told_of_ne
  rw [hm]
  exact (h.endpoint_ne hp hu hq).symm

/-- After a notice the log is orderly if it says something fitting about that process. -/
theorem orderly_told (h : Good X n k v) {dest : Option ℤ} {m : Message}
    (hm : Interrupted ((dest, m.mType) :: noticesOn m.PM_PROC v.log) ∨
      Final ((dest, m.mType) :: noticesOn m.PM_PROC v.log)) : Orderly (.told dest m :: v.log) := by
  apply h.orderly.cons
  · intro ep
    rcases eq_or_ne m.PM_PROC ep with rfl | hne
    · rw [noticesOn_told_self]
      exact hm
    · rw [noticesOn_told_of_ne hne]
      exact h.orderly.notices v.log List.suffix_rfl ep
  · intro q ep heq
    exact nomatch heq

/-- A live process is interrupted. -/
theorem push_eintr (h : Good X n k v) {m : Message} {ev : Event} (hp : (v.slot p).Live)
    (hm : m.PM_PROC = (v.slot p).endpoint) (hty : m.mType = .signal CS_EINTR)
    (hev : Notice v m ev) : Good X n k (v.push ev) := by
  have hattended := hev.attended
  obtain ⟨dest, rfl, -⟩ := hev
  have hint : Interrupted ((dest, m.mType) :: noticesOn m.PM_PROC v.log) := by
    rw [hty, hm]
    exact ((h.reported p).live hp).cons dest
  apply h.push _ (h.orderly_told (.inl hint)) hattended
  intro q
  rcases eq_or_ne q p with rfl | hq
  · -- the process itself: one interruption more
    refine ⟨fun _ => ?_, fun hd => absurd hd hp.not_dying⟩
    rw [← hm, noticesOn_told_self]
    exact hint
  · exact h.reported_told_of_ne hp.1 hm hq

/-- A slot is released whose process has been reported dead. -/
theorem push_released (h : Good X n k v) {ep : ℤ} (hfinal : Final (noticesOn ep v.log)) :
    Good X n k (v.push (.released p ep)) := by
  apply h.push _ _ (.inl rfl)
  · intro q
    exact ⟨(h.reported q).live, (h.reported q).dying⟩
  · apply h.orderly.cons
    · exact h.orderly.notices v.log List.suffix_rfl
    · intro q ep' heq
      cases heq
      exact hfinal

end Good

/-! ## §5 Steps of the life cycle -/

namespace Entry

/-- VFS has been asked. -/
def requested (m : Message) (e : Entry) : Entry :=
  { e with flags := insert .VFS_CALL e.flags, vfs := some m }

/-- The process is marked as exiting, and most other flags are gone. -/
def marked (e : Entry) : Entry :=
  { e with flags := insert .EXITING (e.flags ∩ {.IN_USE, .VFS_CALL}) }

/-- VFS has been asked to end the process, and it is marked. -/
def doomed (m : Message) (e : Entry) : Entry := (e.requested m).marked

/-- VFS has answered. -/
def answered (e : Entry) : Entry := { e with flags := e.flags \ {.VFS_CALL}, vfs := none }

/-- `exec` has given the process a name. -/
def renamed (name : String) (e : Entry) : Entry := { e with name := name }

/-- The slot has been released. -/
def released (e : Entry) : Entry := { e with flags := ∅, vfs := none }

variable {e : Entry} {p : Slot} {m : Message}

theorem Sound.requested (h : e.Sound p) (hl : e.Live) (hm : m.PM_PROC = e.endpoint)
    (hends : ¬m.Ends) : (e.requested m).Sound p := by
  obtain ⟨hu, hx⟩ := hl
  constructor
  -- the new request is not an ending one, and the process is not exiting
  case request =>
    intro m' hm'
    cases hm'
    exact ⟨hm, iff_of_false hends (by simp [Entry.requested, hx])⟩
  case zombie => simpa [Entry.requested] using h.zombie
  case traceZombie => simpa [Entry.requested] using h.traceZombie
  case toldParent => simpa [Entry.requested] using h.toldParent
  case endpoint => simpa [Entry.requested] using h.endpoint
  all_goals simp [Entry.requested, hu]

theorem Sound.doomed (h : e.Sound p) (hl : e.Live) (hm : m.PM_PROC = e.endpoint)
    (hends : m.Ends) : (e.doomed m).Sound p := by
  constructor
  -- the request ends the process, and the mark says so too
  case request =>
    intro m' hm'
    cases hm'
    exact ⟨hm, iff_of_true hends (by simp [Entry.doomed, Entry.marked])⟩
  case endpoint => exact fun _ => h.endpoint hl.1
  all_goals simp [Entry.doomed, Entry.marked, Entry.requested, hl.1]

theorem Sound.answered (h : e.Sound p) : e.answered.Sound p := by
  constructor
  case request => simp [Entry.answered]
  case exiting => simpa [Entry.answered] using h.exiting
  case zombie => simpa [Entry.answered] using h.zombie
  case traceZombie => simpa [Entry.answered] using h.traceZombie
  case toldParent => simpa [Entry.answered] using h.toldParent
  case endpoint => simpa [Entry.answered] using h.endpoint
  all_goals simp [Entry.answered]

/-- No clause mentions the name. -/
theorem Sound.renamed (h : e.Sound p) (name : String) : (e.renamed name).Sound p :=
  ⟨h.exiting, h.zombie, h.traceZombie, h.toldParent, h.endpoint, h.vfsCall, h.idle, h.request⟩

omit [PmHeader] in
theorem requested_live (m : Message) : (e.requested m).Live ↔ e.Live := by
  simp [Live, requested]

omit [PmHeader] in
theorem answered_live : e.answered.Live ↔ e.Live := by
  simp [Live, answered]

omit [PmHeader] in
theorem doomed_dying (hl : e.Live) (m : Message) : (e.doomed m).Dying := by
  simp [Dying, doomed, marked, requested, hl.1]

end Entry

namespace Good

variable {X : Set Slot} {n k : ℕ} {v : View} {p : Slot} {m : Message}

/-- `tell_vfs` for a live process. -/
theorem requested (h : Good X n k v) (hl : (v.slot p).Live) (hm : m.PM_PROC = (v.slot p).endpoint)
    (hends : ¬m.Ends) : Good X n k (v.set p ((v.slot p).requested m)) := by
  apply h.set ((h.sound p).requested hl hm hends)
  · refine ⟨fun _ => (h.reported p).live hl, fun hd => ?_⟩
    exact absurd hd ((Entry.requested_live m).mpr hl).not_dying
  · exact .inr fun hcv => ⟨hl.1, hcv.2⟩
  · exact fun hp => absurd (h.settled p hp) hl.not_settled
  · exact fun _ => hl

/-- The answer of VFS. -/
theorem answered (h : Good X n k v) : Good X n k (v.set p (v.slot p).answered) := by
  apply h.set (h.sound p).answered
  · have hp := h.reported p
    refine ⟨fun hl => hp.live (Entry.answered_live.mp hl), fun hd => hp.dying ?_⟩
    simpa [Entry.Dying, Entry.answered] using hd
  · right
    intro hcv
    simpa [Entry.IsCv, Entry.answered] using hcv
  · intro hp
    -- clearing `VFS_CALL` can only settle a slot
    have hset := h.settled p hp
    simp only [Entry.Settled, Entry.answered, Finset.mem_sdiff] at hset ⊢
    tauto
  · exact Entry.answered_live.mp

/-- The answer of VFS to the end of a process settles it. -/
theorem answered_settles (h : Good ∅ n k v) (hd : (v.slot p).Dying) :
    Good {p} n k (v.set p (v.slot p).answered) := by
  refine { h.answered with settled := ?_ }
  intro q heq
  subst heq
  rw [View.set_slot_self]
  exact .inr (by simp [Entry.answered, hd.2])

theorem living_doomed (hl : (v.slot p).Live) :
    (v.set p ((v.slot p).doomed m)).living.card + 1 ≤ v.living.card := by
  have hsub : (v.set p ((v.slot p).doomed m)).living ⊆ v.living.erase p := by
    intro q hq
    rw [View.mem_living] at hq
    -- `p` itself no longer lives, and nobody else has come to life
    rcases eq_or_ne q p with rfl | hne
    · rw [View.set_slot_self] at hq
      exact absurd (Entry.doomed_dying hl m) hq.not_dying
    · rw [View.set_slot_of_ne v _ hne] at hq
      exact Finset.mem_erase.mpr ⟨hne, View.mem_living.mpr hq⟩
  have hmem : p ∈ v.living := View.mem_living.mpr hl
  have hcard := Finset.card_le_card hsub
  rw [Finset.card_erase_of_mem hmem] at hcard
  have hpos := Finset.card_pos.mpr ⟨p, hmem⟩
  omega

/-- A live process ends, and its death is reported: one fewer is alive. -/
theorem bury (h : Good X (n + 1) k v) {m' : Message} {ev : Event} (hl : (v.slot p).Live)
    (hm : m.PM_PROC = (v.slot p).endpoint) (hends : m.Ends)
    (hm' : m'.PM_PROC = (v.slot p).endpoint) (hty : m'.mType = .signal CS_EXIT)
    (hev : Notice v m' ev) : Good X n k ((v.set p ((v.slot p).doomed m)).push ev) := by
  have hattended := hev.attended
  obtain ⟨dest, rfl, -⟩ := hev
  -- until now the process has been alive, so it had only been interrupted
  have hfinal : Final ((dest, m'.mType) :: noticesOn m'.PM_PROC v.log) := by
    rw [hty, hm']
    exact ⟨dest, _, rfl, (h.reported p).live hl⟩
  constructor
  case sound =>
    exact View.forall_set (P := fun q e => e.Sound q) ((h.sound p).doomed hl hm hends)
      fun q _ => h.sound q
  case reported =>
    apply View.forall_set (P := fun _ e => e.Reported (.told dest m' :: v.log))
    · refine ⟨fun hlive => absurd (Entry.doomed_dying hl m) hlive.not_dying, fun _ => ?_⟩
      change Final (noticesOn (v.slot p).endpoint _)
      rw [← hm', noticesOn_told_self]
      exact hfinal
    · intro q hq
      exact h.reported_told_of_ne hl.1 hm' hq
  case orderly => exact h.orderly_told (.inr hfinal)
  -- the mark does not touch the name, so nobody becomes `cv`
  case attended =>
    have hcv : (∀ q, ¬(v.slot q).IsCv) →
        ∀ q, ¬((v.set p ((v.slot p).doomed m)).slot q).IsCv := fun hnone =>
      View.forall_set (P := fun _ e => ¬e.IsCv) (fun he => hnone p ⟨hl.1, he.2⟩)
        fun q _ => hnone q
    rcases h.attended with hk | hnone
    · exact hattended.imp (fun hlost => hlost.trans hk) hcv
    · exact .inr (hcv hnone)
  case settled =>
    exact View.forall_set (P := fun q e => q ∈ X → e.Settled)
      (fun hp => absurd (h.settled p hp) hl.not_settled) fun q _ => h.settled q
  -- the place the dead process leaves pays for one level of the recursion
  case few => exact Nat.le_of_succ_le_succ ((living_doomed hl).trans h.few)

/-- `cleanup` of a dead process. -/
theorem release (h : Good X n k v) (hd : (v.slot p).Dying) :
    Good X n k ((v.set p (v.slot p).released).push (.released p (v.slot p).endpoint)) := by
  have hset : Good X n k (v.set p (v.slot p).released) := by
    apply h.set (Entry.sound_empty p _ _)
    · exact Entry.reported_empty _ _ _
    · exact .inr fun hcv => ⟨hd.1, hcv.2⟩
    · exact fun _ => .inl (by simp)
    · exact fun hl => absurd hl.1 (by simp)
  exact hset.push_released ((h.reported p).dying hd)

/-! ## §6 Births and names -/

theorem noticesOn_born_of_ne {ep e : ℤ} {q : Slot} {log : List Event} (hne : e ≠ ep) :
    noticesOn ep (.born q e :: log) = noticesOn ep log := by
  simp [noticesOn, hne]

/-- A process is born, with the name of one in use. -/
theorem birth (h : Good ∅ n k v) {q : Slot} {ep : ℤ} (hn : NR_PROCS ≤ n)
    (hq : .IN_USE ∈ (v.slot q).flags) (hep : ENDPOINT_P ep = p.val) :
    Good ∅ n k ((v.set p ⟨{.IN_USE}, ep, (v.slot q).name, none⟩).push (.born p ep)) := by
  -- the endpoint contains the number of the slot, so nobody else has it
  have hne : ∀ q, q ≠ p → .IN_USE ∈ (v.slot q).flags → ep ≠ (v.slot q).endpoint := by
    intro q hqp hu heq
    have hslot := (h.sound q).endpoint hu
    rw [← heq, hep] at hslot
    exact hqp (Fin.ext (by exact_mod_cast hslot.symm))
  constructor
  case sound =>
    apply View.forall_set (P := fun q e => e.Sound q)
    · constructor <;> simp [hep]
    · exact fun q _ => h.sound q
  case reported =>
    apply View.forall_set (P := fun _ e => e.Reported (.born p ep :: v.log))
    · refine ⟨fun _ => ?_, fun hd => absurd hd.2 (by simp)⟩
      simp [noticesOn, interrupted_nil]
    · intro q hqp
      apply (h.reported q).of_notices
      exact fun hu => noticesOn_born_of_ne (hne q hqp hu)
  case orderly =>
    apply h.orderly.cons
    · intro e
      rcases eq_or_ne ep e with rfl | he
      · exact .inl (by simp [noticesOn, interrupted_nil])
      · rw [noticesOn_born_of_ne he]
        exact h.orderly.notices v.log List.suffix_rfl e
    · intro _ _ heq
      exact nomatch heq
  case attended =>
    -- the name is inherited: no `cv` is born unless one is in use
    apply h.attended.imp_right
    intro hnone
    apply View.forall_set (P := fun _ e => ¬e.IsCv)
    · exact fun hcv => hnone q ⟨hq, hcv.2⟩
    · exact fun q _ => hnone q
  case settled => simp
  case few =>
    apply (Finset.card_le_univ _).trans
    simpa using hn

/-- `exec` gives a process another name, while no notice of this round is lost. -/
theorem renamed (h : Good X n k v) (name : String) (hlost : lost v.log = k) :
    Good X n k (v.set p ((v.slot p).renamed name)) := by
  apply h.set ((h.sound p).renamed name) _ (.inl hlost) (h.settled p) id
  exact ⟨(h.reported p).live, (h.reported p).dying⟩

/-- At the beginning of a round nothing has been lost in it. -/
theorem rebase (h : Good X n k v) : Good X n (lost v.log) v :=
  { h with attended := .inl rfl }

end Good

end MinixCv.Pm

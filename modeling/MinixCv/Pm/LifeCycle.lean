import MinixCv.Lib.Run
import MinixCv.Pm.Rounds

/-!
# Every Death Is Reported Once

Runs of PM from its start.  While a process named `cv` is in use no notice is lost, and then
the log of a run tells `cv` about each process what the invariant says: interruptions, one
death, and nothing more until the endpoint is given to another process.
-/

namespace MinixCv.Pm

open MinixCv.Lib MinixCv.Server PmHeader

variable [PmHeader] {v : View} {p : Slot}

/-! ## §1 The start -/

/-- While PM starts, slots are empty or in use; those in `unset` have no endpoint yet. -/
structure Booting (unset : Set Slot) (v : View) : Prop where
  flags : ∀ p, (v.slot p).flags ⊆ {.IN_USE}
  vfs : ∀ p, (v.slot p).vfs = none
  endpoint : ∀ p, p ∉ unset → .IN_USE ∈ (v.slot p).flags → ENDPOINT_P (v.slot p).endpoint = p.val
  log : v.log = []

theorem Booting.set {unset unset' : Set Slot} {e : Entry} (h : Booting unset v)
    (hflags : e.flags ⊆ {.IN_USE}) (hvfs : e.vfs = none)
    (hend : p ∉ unset' → ENDPOINT_P e.endpoint = p.val) (hunset : ∀ q, q ≠ p → q ∈ unset → q ∈ unset') :
    Booting unset' (v.set p e) where
  flags := View.forall_set (P := fun _ e => e.flags ⊆ {.IN_USE}) hflags fun q _ => h.flags q
  vfs := View.forall_set (P := fun _ e => e.vfs = none) hvfs fun q _ => h.vfs q
  endpoint := View.forall_set
    (P := fun q e => q ∉ unset' → .IN_USE ∈ e.flags → ENDPOINT_P e.endpoint = q.val)
    (fun hp _ => hend hp) fun q hq hset => h.endpoint q fun hu => hset (hunset q hq hu)
  log := h.log

/-- After the start the invariant holds. -/
theorem Booting.fine (h : Booting ∅ v) : Fine 0 v := by
  -- nobody is exiting, a zombie, or in a call of VFS
  have hflag : ∀ {f : Flag} q, f ≠ .IN_USE → f ∉ (v.slot q).flags := fun q hf hmem =>
    hf (Finset.mem_singleton.mp (h.flags q hmem))
  constructor
  case sound =>
    intro q
    exact {
      exiting := fun hx => absurd hx (hflag q (by decide))
      zombie := fun hx => absurd hx (hflag q (by decide))
      traceZombie := fun hx => absurd hx (hflag q (by decide))
      toldParent := fun hx => absurd hx (hflag q (by decide))
      endpoint := h.endpoint q (Set.notMem_empty q)
      vfsCall := fun hx => absurd hx (hflag q (by decide))
      idle := fun _ => h.vfs q
      request := fun m hm => by
        rw [h.vfs q] at hm
        exact nomatch hm }
  case reported =>
    intro q
    rw [h.log]
    exact ⟨fun _ => interrupted_nil, fun hd => absurd hd.2 (hflag q (by decide))⟩
  case orderly =>
    rw [h.log]
    exact orderly_nil
  case attended =>
    rw [h.log]
    exact .inl rfl
  case settled => simp
  case few =>
    apply (Finset.card_le_univ _).trans
    simp

/-- An assignment to a slot whose endpoint is still to be set. -/
theorem sure_boot_modify {f : Mproc → Mproc} (h : Booting {p} v)
    (hf : ∀ r : Mproc, r.mpFlags ∩ vitalFlags ⊆ {.IN_USE} → (f r).mpFlags ∩ vitalFlags ⊆ {.IN_USE}) :
    Sure (modifyProc p f) v fun _ => Booting {p} := by
  apply sure_modifyProc
  intro r hr
  have hflags := h.flags p
  rw [hr.flags] at hflags
  refine h.set (hf r hflags) (h.vfs p) ?_ fun _ _ hq => hq
  exact fun hp => absurd rfl hp

theorem sure_bootKind (h : Booting {p} v) : Sure (bootKind p) v fun _ => Booting {p} := by
  apply Ensures.ite
  · intro _
    apply sure_boot_modify h
    intro r hr
    have hflags : insert .IN_USE r.mpFlags ∩ vitalFlags ⊆ {.IN_USE} := by
      rw [Finset.insert_inter_of_mem (by decide)]
      exact Finset.insert_subset (by decide) hr
    exact hflags
  · intro _
    refine Silent.andThen (quiet_modifyProc p fun _ => ⟨rfl, rfl, rfl⟩) fun _ => ?_
    apply quiet_getFreePid.andThen
    intro pid
    apply sure_boot_modify h
    intro r hr
    have hflags : (r.mpFlags ∪ {.IN_USE, .PRIV_PROC}) ∩ vitalFlags ⊆ {.IN_USE} := by
      rw [Finset.union_inter_distrib_right]
      exact Finset.union_subset hr (by decide)
    exact hflags

theorem sure_bootProc (ip : BootProc) (h : Booting ∅ v)
    (hip : ENDPOINT_P ip.endpoint = ip.procNr.val) :
    Sure (bootProc ip) v fun _ => Booting ∅ := by
  -- the flags are set before the endpoint, so for a while the slot is exempt
  have hunset : Booting {ip.procNr} v :=
    ⟨h.flags, h.vfs, fun q _ => h.endpoint q (Set.notMem_empty q), h.log⟩
  apply (quiet_countProcs 1).andThen
  intro _
  refine Ensures.bind (sure_boot_modify hunset fun _ hr => hr) fun _ v₁ h₁ => ?_
  refine Ensures.bind (sure_bootKind h₁) fun _ v₂ h₂ => ?_
  apply Ensures.bind (Φ := fun _ => Booting ∅)
  · apply sure_modifyProc
    intro r hr
    have hflags := h₂.flags ip.procNr
    rw [hr.flags] at hflags
    refine h₂.set hflags (h₂.vfs _) (fun _ => hip) fun q hq hmem => ?_
    exact absurd hmem hq
  · intro _ v₃ h₃
    exact (quiet_require _ _).keeps h₃

theorem Booted.fine {s : PmState} (h : Booted s) : Fine 0 s.view := by
  obtain ⟨image, s₀, hzero, himage, hrun⟩ := h
  have hstart : Booting ∅ s₀.view :=
    ⟨fun q => by simp [PmState.view, hzero.mpFlags], hzero.vfs,
      fun q _ hu => by simp [PmState.view, hzero.mpFlags] at hu, hzero.log⟩
  have hboot : Sure (sefCbInitFresh image) s₀.view fun _ => Booting ∅ :=
    .forM (fun ip hip _ hv => sure_bootProc ip hv (himage ip hip)) hstart
  exact (hboot.of_ok hrun).fine

/-! ## §2 Runs -/

/-- In every state between two rounds the invariant holds, whatever has been lost. -/
theorem step_fine {s s' : PmState} {i : Input} (h : Fine (lost s.log) s.view)
    (hstep : Step s i s') : Fine (lost s.log) s'.view :=
  (sure_round i h hstep.1).of_ok hstep.2

theorem run_fine {s s' : PmState} {is : List Input} (h : Run Step s is s')
    (hs : Fine (lost s.log) s.view) : Fine (lost s'.log) s'.view :=
  h.invariant (I := fun s => Fine (lost s.log) s.view)
    (fun _ _ _ hs hstep => (step_fine hs hstep).rebase) hs

/-- A process named `cv` is in use. -/
def HasCv (s : PmState) : Prop := ∃ p, IsCv (s.mproc p)

/-- A round before and after which a process named `cv` is in use. -/
def AttendedStep (s : PmState) (i : Input) (s' : PmState) : Prop :=
  HasCv s ∧ Step s i s' ∧ HasCv s'

/-- No notice is lost in a round after which a process named `cv` is in use. -/
theorem lost_eq_of_attended {s s' : PmState} {i : Input} (h : Fine (lost s.log) s.view)
    (hstep : AttendedStep s i s') : lost s'.log = lost s.log := by
  obtain ⟨-, hstep, q, hq⟩ := hstep
  -- had a notice been lost, nobody would be named `cv` at the end of the round
  rcases (step_fine h hstep).attended with hlost | hnone
  · exact hlost
  · exact absurd ((s'.view_shows q).isCv.mp hq) (hnone q)

theorem lost_eq_of_run {s s' : PmState} {is : List Input} (h : Run AttendedStep s is s')
    (hs : Fine (lost s.log) s.view) : lost s'.log = lost s.log := by
  -- the count of lost notices is carried from round to round
  induction h with
  | nil _ => rfl
  | cons hstep _ ih =>
    rw [ih (step_fine hs hstep.2.1).rebase]
    exact lost_eq_of_attended hs hstep

/-- No round of a run needs more than the depth the model gives to `exit_proc`. -/
theorem round_ne_fuel {s s' : PmState} {is : List Input} {i : Input} (hboot : Booted s)
    (hrun : Run Step s is s') (hi : i.Honest s') : i.run s' ≠ .error .fuel := by
  intro hfuel
  have hs := run_fine hrun hboot.fine.rebase
  exact Ensures.of_error (sure_round i hs hi) hfuel rfl

/-! ## §3 Reading the log -/

theorem noticesOn_append_of_born {ep : ℤ} {new old : List Event}
    (h : ∃ q, .born q ep ∈ new) : noticesOn ep (new ++ old) = noticesOn ep new := by
  induction new with
  | nil => simp at h
  | cons e new ih =>
    obtain ⟨q, hq⟩ := h
    rcases List.mem_cons.mp hq with rfl | hq
    · simp [noticesOn]
    · have ih := ih ⟨q, hq⟩
      cases e <;> simp [noticesOn, ih]

theorem noticesOn_append {ep : ℤ} {new old : List Event} (h : ∀ q, .born q ep ∉ new) :
    noticesOn ep (new ++ old) = noticesOn ep new ++ noticesOn ep old := by
  induction new with
  | nil => rfl
  | cons e new ih =>
    have ih := ih fun q hq => h q (List.mem_cons_of_mem e hq)
    cases e with
    | born q e =>
      have hne : e ≠ ep := fun heq => h q (heq ▸ List.mem_cons_self)
      simp [noticesOn, ih, hne]
    | told dest m =>
      simp only [List.cons_append, noticesOn, ih]
      split <;> rfl
    | released q e => exact ih

theorem lost_append (new old : List Event) : lost (new ++ old) = lost new + lost old := by
  induction new with
  | nil => simp [lost]
  | cons e new ih =>
    cases e with
    | born q ep => exact ih
    | released q ep => exact ih
    | told dest m =>
      cases dest with
      | some dest => exact ih
      | none =>
        simp only [List.cons_append, lost, ih]
        omega

/-- Where nothing was lost, every notice was sent to somebody. -/
theorem sent_of_lost_eq_zero {ep : ℤ} {log : List Event} (h : lost log = 0) :
    ∀ t ∈ noticesOn ep log, t.1 ≠ none := by
  -- a notice that found nobody would have been counted
  induction log with
  | nil => simp [noticesOn]
  | cons e log ih =>
    cases e with
    | born q e =>
      simp only [noticesOn]
      split
      · simp
      · exact ih h
    | released q e => exact ih h
    | told dest m =>
      cases dest with
      | none => simp [lost] at h
      | some dest =>
        simp only [noticesOn]
        split
        · intro t ht
          rcases List.mem_cons.mp ht with rfl | ht
          · simp
          · exact ih h t ht
        · exact ih h

omit [PmHeader] in
theorem not_interrupted {notices : List (Option ℤ × MType)} {dest : Option ℤ}
    (hmem : (dest, .signal CS_EXIT) ∈ notices) : ¬Interrupted notices := by
  intro hint
  have heq : MType.signal CS_EXIT = .signal CS_EINTR := hint _ hmem
  exact absurd heq (by decide)

omit [PmHeader] in
/-- The death is among the newer notices if the older ones are interruptions. -/
theorem Final.of_append {a b : List (Option ℤ × MType)} (h : Final (a ++ b))
    (hb : Interrupted b) : Final a := by
  obtain ⟨dest, earlier, heq, hearlier⟩ := h
  cases a with
  | nil =>
    rw [List.nil_append] at heq
    rw [heq] at hb
    exact absurd hb (not_interrupted List.mem_cons_self)
  | cons t a =>
    rw [List.cons_append] at heq
    obtain ⟨rfl, rfl⟩ := List.cons.inj heq
    exact ⟨dest, a, rfl, fun t ht => hearlier t (List.mem_append_left b ht)⟩

omit [PmHeader] in
/-- Nothing can be said in front of a death. -/
theorem eq_nil_of_final {a b : List (Option ℤ × MType)} (hb : Final b)
    (h : Interrupted (a ++ b) ∨ Final (a ++ b)) : a = [] := by
  obtain ⟨dest, earlier, rfl, -⟩ := hb
  cases a with
  | nil => rfl
  | cons t a =>
    have hmem : (dest, MType.signal CS_EXIT) ∈ a ++ (dest, .signal CS_EXIT) :: earlier := by simp
    rw [List.cons_append] at h
    rcases h with hint | ⟨dest', earlier', heq, hint⟩
    · exact absurd hint (not_interrupted (List.mem_cons_of_mem t hmem))
    · obtain ⟨-, rfl⟩ := List.cons.inj heq
      exact absurd hint (not_interrupted hmem)

/-! ## §4 The result -/

/-- **Deaths are reported once.**  Let PM run from its start to `s₁` and on to `s₂`, with a
process named `cv` in use from `s₁` on, and let a slot be released on the way from `s₁` to
`s₂`, by a process with endpoint `ep` that was alive in `s₁` or born since.  Then the messages
`tell_cv` has sent about `ep` since that process was born or since `s₁` are, newest first, one
`CS_EXIT` and otherwise `CS_EINTR`s; and as long as the endpoint is not given to another
process there is no message about it behind the release. -/
theorem death_reported_once {s₀ s₁ s₂ : PmState} {before inputs : List Input}
    (hboot : Booted s₀) (hbefore : Run Step s₀ before s₁) (hrun : Run AttendedStep s₁ inputs s₂)
    {newer middle : List Event} {p : Slot} {ep : ℤ}
    (hlog : s₂.log = newer ++ .released p ep :: (middle ++ s₁.log))
    (hlife : (∃ q, .born q ep ∈ middle) ∨
      ∃ q, (s₁.mproc q).Live ∧ (s₁.mproc q).mpEndpoint = ep) :
    (∃ dest earlier, noticesOn ep middle = (some dest, .signal CS_EXIT) :: earlier ∧
      ∀ t ∈ earlier, t.1 ≠ none ∧ t.2 = .signal CS_EINTR) ∧
    ∀ later, later <:+ newer → (∀ q, .born q ep ∉ later) → noticesOn ep later = [] := by
  have hs₁ := run_fine hbefore hboot.fine.rebase
  have hs₂ := run_fine (hrun.mono fun _ _ _ hstep => hstep.2.1) hs₁
  have horder : Orderly s₂.log := hs₂.orderly
  -- at the release the log was orderly: the death had been reported
  have hfinal : Final (noticesOn ep (middle ++ s₁.log)) :=
    horder.released p ep _ ⟨newer, hlog.symm⟩
  -- and it was reported after `s₁`, since in `s₁` the process was alive or not yet born
  have hmiddle : Final (noticesOn ep middle) := by
    by_cases hborn : ∃ q, .born q ep ∈ middle
    · rwa [noticesOn_append_of_born hborn] at hfinal
    · obtain ⟨q, hlive, rfl⟩ := hlife.resolve_left hborn
      rw [noticesOn_append (not_exists.mp hborn)] at hfinal
      exact hfinal.of_append ((hs₁.reported q).live ((s₁.view_shows q).live.mp hlive))
  -- nothing was lost on the way
  have hsent : lost middle = 0 := by
    have hlost := lost_eq_of_run hrun hs₁
    rw [hlog, lost_append] at hlost
    have hcons : lost (.released p ep :: (middle ++ s₁.log)) = lost middle + lost s₁.log :=
      lost_append middle s₁.log
    omega
  constructor
  · obtain ⟨dest, earlier, heq, hearlier⟩ := hmiddle
    have hdest : ∀ t ∈ noticesOn ep middle, t.1 ≠ none := sent_of_lost_eq_zero hsent
    rw [heq] at hdest
    cases dest with
    | none => exact absurd rfl (hdest _ List.mem_cons_self)
    | some dest =>
      exact ⟨dest, earlier, heq, fun t ht => ⟨hdest t (List.mem_cons_of_mem _ ht), hearlier t ht⟩⟩
  · intro later hsuffix hborn
    -- a notice behind the release would stand in front of the death
    have hsuf : later ++ .released p ep :: (middle ++ s₁.log) <:+ s₂.log := by
      rw [hlog]
      obtain ⟨rest, rfl⟩ := hsuffix
      exact ⟨rest, by simp⟩
    have hnotices := horder.notices _ hsuf ep
    rw [noticesOn_append hborn] at hnotices
    exact eq_nil_of_final hfinal hnotices

/-! ## §5 Checking a run -/

instance (s : PmState) (source : ℤ) : (c : Call) → Decidable (c.Honest s source)
  | .vfsReply reply _ => decidable_of_iff
      (source = VFS_PROC_NR → reply.callNr = .PM_REBOOT_REPLY ∨
        ∃ rmp, ∃ m, m ∈ s.vfs rmp ∧ reply.Answers m)
      Iff.rfl
  | .fork | .srvFork _ _ | .exit _ | .waitpid _ _ | .kill _ _ | .srvKill _ _ | .pause
  | .sigaction _ _ _ _ | .sigpending | .sigprocmask _ _ | .sigsuspend _ | .sigreturn _
  | .other _ _ => .isTrue trivial

instance (s : PmState) : (i : Input) → Decidable (i.Honest s)
  | .call source c => inferInstanceAs (Decidable (0 ≤ ENDPOINT_P source ∧ c.Honest s source))
  | .notify _ _ | .ksig _ _ | .rename _ _ => .isTrue trivial

instance (s : PmState) : Decidable (HasCv s) :=
  inferInstanceAs (Decidable (∃ p, IsCv (s.mproc p)))

theorem booted_of_after {image : List BootProc} {answers : ℕ → KernelCall → ℤ}
    {outside : ℕ → OtherFunction → (Slot → Mproc) → Slot → Mproc} {s : PmState}
    (himage : ∀ ip ∈ image, ENDPOINT_P ip.endpoint = ip.procNr.val)
    (h : after (sefCbInitFresh image) (PmState.zero answers outside) = some s) : Booted s :=
  ⟨image, _, ⟨fun _ => rfl, fun _ => rfl, rfl⟩, himage, run_eq_of_after h⟩

/-- The state after the inputs, if they are honest, PM returns, and `cv` attends throughout. -/
def attend : List Input → PmState → Option PmState
  | [], s => some s
  | i :: is, s =>
    if HasCv s ∧ i.Honest s then
      match after i.run s with
      | some s' => if HasCv s' then attend is s' else none
      | none => none
    else none

theorem run_of_attend {is : List Input} {s s' : PmState} (h : attend is s = some s') :
    Run AttendedStep s is s' := by
  induction is generalizing s with
  | nil =>
    cases h
    exact .nil _
  | cons i is ih =>
    unfold attend at h
    split at h
    · rename_i hpre
      cases hafter : after i.run s with
      | none =>
        rw [hafter] at h
        exact nomatch h
      | some t =>
        rw [hafter] at h
        dsimp only at h
        split at h
        · rename_i hcv
          exact .cons ⟨hpre.1, ⟨hpre.2, run_eq_of_after hafter⟩, hcv⟩ (ih h)
        · exact nomatch h
    · exact nomatch h

end MinixCv.Pm

namespace MinixCv.Pm

open MinixCv.Lib MinixCv.Server

section Example

local instance : PmHeader := PmHeader.sixteen

/-- A boot image that holds `cv`. -/
def cvImage : List BootProc :=
  [⟨0, "pm", 0⟩, ⟨1, "vfs", 1⟩, ⟨2, "rs", 2⟩, ⟨10, "init", 10⟩, ⟨12, "cv", 12⟩]

/-- The kernel grants everything, and gives the first child the generation 1. -/
def grantAll (_ : ℕ) : KernelCall → ℤ
  | .vm_fork_generation _ _ => 1
  | _ => 0

def cvStart : Option PmState :=
  after (sefCbInitFresh cvImage) (PmState.zero grantAll fun _ _ table => table)

/-- INIT forks a child, which catches a signal of INIT and then exits; INIT waits for it. -/
def childInputs : List Input :=
  [.call 10 .fork,
    .call 1 (.vfsReply ⟨.PM_FORK_REPLY, 32771, 0, 0⟩ []),
    .call 32771 (.sigaction 15 false (some ⟨.address 1, ∅, ∅⟩) 0),
    .call 10 (.kill 7 15),
    .call 1 (.vfsReply ⟨.PM_UNPAUSE_REPLY, 32771, 0, 0⟩ []),
    .call 32771 (.exit 0),
    .call 1 (.vfsReply ⟨.PM_EXIT_REPLY, 32771, 32771, 0⟩ []),
    .call 10 (.waitpid (-1) false)]

/-- What the log of that run holds before the release. -/
def childNotices : List Event :=
  [.told (some 12) { mType := .signal CS_EXIT, PM_PROC := 32771, PM_TRACED_PROC := 32771 },
    .told (some 12) { mType := .signal CS_EINTR, PM_PROC := 32771 },
    .born 3 32771]

theorem child_log : (cvStart.bind (attend childInputs)).map PmState.log =
    some (.released 3 32771 :: childNotices) := by
  decide +kernel

theorem cvStart_log : cvStart.map PmState.log = some [] := by
  decide +kernel

theorem death_reported_once_child :
    ∃ s₀ s₂, Booted s₀ ∧ Run AttendedStep s₀ childInputs s₂ ∧
      s₂.log = [] ++ .released 3 32771 :: (childNotices ++ s₀.log) ∧
      ∃ dest earlier, noticesOn 32771 childNotices = (some dest, .signal CS_EXIT) :: earlier ∧
        ∀ t ∈ earlier, t.1 ≠ none ∧ t.2 = .signal CS_EINTR := by
  obtain ⟨s₀, hs₀⟩ : ∃ s₀, cvStart = some s₀ := Option.isSome_iff_exists.mp (by decide +kernel)
  -- the run is computed once, in `child_log`; here it only gets its name
  have hlog₀ : s₀.log = [] := by
    have h := cvStart_log
    rw [hs₀] at h
    exact Option.some.inj h
  have hend := child_log
  rw [hs₀, Option.bind_some] at hend
  obtain ⟨s₂, hs₂, hlog⟩ := Option.map_eq_some_iff.mp hend
  have hboot : Booted s₀ := booted_of_after (by decide) hs₀
  have hrun := run_of_attend hs₂
  have hlog₂ : s₂.log = [] ++ .released 3 32771 :: (childNotices ++ s₀.log) := by
    rw [hlog, hlog₀, List.append_nil]
    rfl
  have hborn : ∃ q, Event.born q 32771 ∈ childNotices := ⟨3, by decide⟩
  have hresult := death_reported_once hboot (.nil s₀) hrun hlog₂ (.inl hborn)
  exact ⟨s₀, s₂, hboot, hrun, hlog₂, hresult.1⟩

end Example

end MinixCv.Pm

import MinixCv.Pm.LifeCycle

/-!
# Who Gets The Notices

`tell_cv` takes the first slot in use whose name is `cv`.  The clients ask RS.  The two agree
when no slot before that of the service is in use under the same name.  A `cv` that has
crashed and is not yet cleaned up keeps its slot and its name, and so does a user program
called `cv`; `sig_proc`, `process_ksig` and `sendreply` look at `EXITING`, `tell_cv` does not.
-/

namespace MinixCv.Pm

open MinixCv.Lib MinixCv.Server PmHeader

variable [PmHeader]

/-! ## §1 The calls of `tell_cv` -/

/-- The two places that call `tell_cv`. -/
inductive CallSite where
  | unpause
  | exitProc (dumpCore : Bool)
  deriving DecidableEq, Repr

/-- The call, for the process in slot `rmp` with entry `r`. -/
def CallSite.tellCv (rmp : Slot) (r : Mproc) : CallSite → Program Unit
  | .unpause => unpauseTellCv rmp r
  | .exitProc dumpCore => exitTellCv rmp r dumpCore

/-- The type the message should have. -/
def CallSite.typ : CallSite → ℤ
  | .unpause => CS_EINTR
  | .exitProc _ => CS_EXIT

/-- The program returns from `s` having sent one message, of this type and about this
    process, to `dest`. -/
def SendsOnly (m : Program Unit) (s : PmState) (dest typ ep : ℤ) : Prop :=
  ∃ s' msg, m s = .ok ((), s') ∧ s'.log = .told (some dest) msg :: s.log ∧
    s'.asked = s.asked + 1 ∧ msg.mType = .signal typ ∧ msg.PM_PROC = ep

/-- The message of either call. -/
def CallSite.message (r : Mproc) : CallSite → Message
  | .unpause => (unpauseMessage r).withSignal CS_EINTR
  | .exitProc dumpCore => (exitMessage r dumpCore).withSignal CS_EXIT

theorem CallSite.message_spec (site : CallSite) (r : Mproc) :
    (site.message r).mType = .signal site.typ ∧ (site.message r).PM_PROC = r.mpEndpoint := by
  cases site with
  | unpause => exact ⟨rfl, rfl⟩
  | exitProc dumpCore => exact ⟨rfl, rfl⟩

/-! ## §2 The scan -/

/-- The slot that `tell_cv` takes is the first one in use with the name `cv`. -/
theorem scan_finds {s : PmState} {v : Slot} (hv : IsCv (s.mproc v)) :
    ∃ p, (List.finRange NR_PROCS).find? (fun i => decide (IsCv (s.mproc i))) = some p ∧
      IsCv (s.mproc p) ∧ ∀ q, q < p → ¬IsCv (s.mproc q) := by
  cases hfind : (List.finRange NR_PROCS).find? (fun i => decide (IsCv (s.mproc i))) with
  | none =>
    have hnone := List.find?_eq_none.mp hfind v (List.mem_finRange v)
    exact absurd (decide_eq_true hv) hnone
  | some p =>
    -- the slots before the first match are those with a smaller index
    obtain ⟨hp, i, hi, heq, hbefore⟩ := List.find?_eq_some_iff_getElem.mp hfind
    refine ⟨p, rfl, of_decide_eq_true hp, ?_⟩
    intro q hq
    rw [List.getElem_finRange] at heq
    have hqi : q.val < i := by
      rw [← heq] at hq
      exact hq
    simpa using hbefore q.val hqi

/-- What `tell_cv` does when the scan has found a slot and the send succeeds. -/
theorem tellCv_run {s : PmState} {p : Slot} (q : Slot) {m : Message} {signal : ℤ}
    (hfind : (List.finRange NR_PROCS).find? (fun i => decide (IsCv (s.mproc i))) = some p)
    (hsend : s.answers s.asked (.asynsend3 (s.mproc p).mpEndpoint) = OK) :
    tellCv q m signal s = .ok ((), { s with
      asked := s.asked + 1
      log := .told (some (s.mproc p).mpEndpoint) (m.withSignal signal) :: s.log }) := by
  -- the three steps of `tell_cv`, one after the other: scan, send, record
  have hscan : scan IsCv s = .ok (some p, s) := by
    unfold scan
    rw [hfind]
  have hrequire : require (.asynsend3 (s.mproc p).mpEndpoint) "unable to send to CV: %d" s =
      .ok ((), { s with asked := s.asked + 1 }) := by
    unfold require
    rw [bind_apply]
    simp only [ask, hsend]
    rfl
  unfold tellCv
  rw [bind_apply, hscan]
  simp only
  rw [bind_apply]
  simp only [proc]
  rw [bind_apply, hrequire]
  rfl

theorem CallSite.tellCv_run {s : PmState} {p : Slot} (site : CallSite) (rmp : Slot) (r : Mproc)
    (hfind : (List.finRange NR_PROCS).find? (fun i => decide (IsCv (s.mproc i))) = some p)
    (hsend : s.answers s.asked (.asynsend3 (s.mproc p).mpEndpoint) = OK) :
    site.tellCv rmp r s = .ok ((), { s with
      asked := s.asked + 1
      log := .told (some (s.mproc p).mpEndpoint) (site.message r) :: s.log }) := by
  cases site with
  | unpause => exact Pm.tellCv_run rmp hfind hsend
  | exitProc dumpCore => exact Pm.tellCv_run rmp hfind hsend

/-! ## §3 The result -/

/-- **Who gets the notices.**  Let the live `cv` service, the one RS knows, sit in slot `v`,
with an endpoint no other process in use has.  Where sends succeed, the message of either call
goes to the service exactly when no slot before `v` is in use under the name `cv`. -/
theorem notice_reaches_service_iff (site : CallSite) (s : PmState) (rmp v : Slot)
    (rsLookup : String → ℤ) (hlive : (s.mproc v).Live) (hname : (s.mproc v).mpName = "cv")
    (hrs : rsLookup "cv" = (s.mproc v).mpEndpoint)
    (hep : ∀ p, .IN_USE ∈ (s.mproc p).mpFlags →
      (s.mproc p).mpEndpoint = (s.mproc v).mpEndpoint → p = v)
    (hsend : ∀ n dest, s.answers n (.asynsend3 dest) = OK) :
    SendsOnly (site.tellCv rmp (s.mproc rmp)) s (rsLookup "cv") site.typ
        (s.mproc rmp).mpEndpoint ↔
      ∀ p, p < v → ¬IsCv (s.mproc p) := by
  obtain ⟨p, hfind, hp, hbefore⟩ := scan_finds ⟨hlive.1, hname⟩
  have hrun := site.tellCv_run rmp (s.mproc rmp) hfind (hsend _ _)
  obtain ⟨htyp, hproc⟩ := site.message_spec (s.mproc rmp)
  rw [hrs]
  constructor
  · intro hex
    obtain ⟨s', msg, hrun', hlog, -⟩ := hex
    rw [hrun] at hrun'
    cases hrun'
    -- the message went to the slot the scan has found, so that slot is the service
    obtain ⟨hdest, -⟩ : (s.mproc p).mpEndpoint = (s.mproc v).mpEndpoint ∧ _ := by
      simpa using hlog
    rw [← hep p hp.1 hdest]
    exact hbefore
  · intro hfirst
    have hpv : p = v := by
      -- the scan stops at the service: nobody before it has the name
      rcases lt_trichotomy p v with hlt | heq | hgt
      · exact absurd hp (hfirst p hlt)
      · exact heq
      · exact absurd ⟨hlive.1, hname⟩ (hbefore v hgt)
    rw [hpv] at hrun
    exact ⟨_, _, hrun, rfl, rfl, htyp, hproc⟩

end MinixCv.Pm

namespace MinixCv.Pm

open MinixCv.Lib MinixCv.Server

section Example

local instance : PmHeader := PmHeader.sixteen

/-- A service in slot 12, and INIT. -/
def cleanTable : PmState :=
  { PmState.zero grantAll fun _ _ table => table with
    mproc := fun p =>
      if p = 12 then
        { Mproc.zero with mpName := "cv", mpFlags := {.IN_USE, .PRIV_PROC}, mpEndpoint := 32780 }
      else if p = 10 then
        { Mproc.zero with mpName := "init", mpFlags := {.IN_USE}, mpEndpoint := 10 }
      else Mproc.zero }

theorem notice_reaches_service_clean :
    SendsOnly (CallSite.unpause.tellCv 10 (cleanTable.mproc 10)) cleanTable 32780 CS_EINTR 10 :=
  (notice_reaches_service_iff .unpause cleanTable 10 12 (fun _ => 32780) (by decide) rfl rfl
    (by decide) fun _ _ => rfl).mpr (by decide)

/-- A boot image with `cv` in slot 3. -/
def lowCvImage : List BootProc :=
  [⟨0, "pm", 0⟩, ⟨1, "vfs", 1⟩, ⟨2, "rs", 2⟩, ⟨3, "cv", 3⟩, ⟨10, "init", 10⟩]

def lowCvStart : Option PmState :=
  after (sefCbInitFresh lowCvImage) (PmState.zero grantAll fun _ _ table => table)

/-- `cv` is killed and VFS does not answer; RS starts it again in slot 4, and INIT forks. -/
def crashInputs : List Input :=
  [.ksig 3 9,
    .call 2 (.srvFork 0 0),
    .call 1 (.vfsReply ⟨.PM_SRV_FORK_REPLY, 32772, 0, 0⟩ []),
    .rename 4 "cv",
    .call 10 .fork,
    .call 1 (.vfsReply ⟨.PM_FORK_REPLY, 32773, 0, 0⟩ [])]

def crashed : Option PmState := lowCvStart.bind (attend crashInputs)

/-- The report about the child in slot 5, as `exit_proc` would now send it. -/
def corpseReport (s : PmState) : Option PmState :=
  after ((CallSite.exitProc false).tellCv 5 (s.mproc 5)) s

/-- The live service is in slot 4. -/
theorem crashed_service :
    (crashed.map fun s => (decide ((s.mproc 4).Live ∧ (s.mproc 4).mpName = "cv"),
      (s.mproc 4).mpEndpoint, (s.mproc 5).mpEndpoint)) = some (true, 32772, 32773) := by
  decide +kernel

/-- The report goes to the endpoint of slot 3. -/
theorem crashed_report :
    ((crashed.bind corpseReport).map fun s => noticesOn 32773 s.log) =
      some [(some 3, .signal CS_EXIT)] := by
  decide +kernel

theorem notice_sent_to_corpse :
    ∃ s₀ s, Booted s₀ ∧ Run Step s₀ crashInputs s ∧ (s.mproc 4).Live ∧
      (s.mproc 4).mpName = "cv" ∧
      ¬SendsOnly ((CallSite.exitProc false).tellCv 5 (s.mproc 5)) s (s.mproc 4).mpEndpoint CS_EXIT
        (s.mproc 5).mpEndpoint := by
  obtain ⟨s, hs, hservice⟩ := Option.map_eq_some_iff.mp crashed_service
  obtain ⟨s₀, hs₀, hrun⟩ := Option.bind_eq_some_iff.mp hs
  simp only [Prod.mk.injEq, decide_eq_true_eq] at hservice
  obtain ⟨⟨hlive, hname⟩, hend₄, hend₅⟩ := hservice
  refine ⟨s₀, s, booted_of_after (by decide) hs₀,
    (run_of_attend hrun).mono fun _ _ _ hstep => hstep.2.1, hlive, hname, ?_⟩
  intro hex
  obtain ⟨s', msg, hsend, hlog, -, -, hproc⟩ := hex
  -- if the call had reached the service, the computed report would say so
  have hafter : corpseReport s = some s' := by
    unfold corpseReport after
    rw [hsend]
  have hreport := crashed_report
  rw [hs, Option.bind_some, hafter, Option.map_some, hlog, hend₄] at hreport
  rw [hend₅] at hproc
  simp [noticesOn, hproc] at hreport

end Example

end MinixCv.Pm

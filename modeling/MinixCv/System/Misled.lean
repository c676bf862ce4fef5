import MinixCv.Server.Sentinels
import MinixCv.System.Results

/-!
# A Notification That Is Led Astray

`Step` has no notification whose scan stops at a head sentinel.  Here is what such a `CS_EINTR`
does to the process it names: it is told `EINTR` and asks for its mutex again, while the server
keeps it in the queue.

- `deliverAll_of_posted`: a process that is not blocked takes no reply
- `misled_eintr`: the server's tables stay as they are, and the process posts a second request
- `misled_lock_refused`: the mutex is given to it before that request is received, and its
  `cs_lock` ends with `EPERM`
-/

namespace MinixCv.System

open MinixCv.Lib MinixCv.LockManager MinixCv.Server MinixCv.Client

section Misled

variable [Minix] {σ : State} {p o m : ℤ} {t : List ℤ} {i : Fin MAX_MUTEX}

/-- A process whose message has not been received takes no reply. -/
theorem reply_of_posted {x : Process} {site : Site} (h : x.phase = .posted site) (typ : ℤ) :
    x.reply typ = x := by
  simp [Process.reply, h]

theorem deliverAll_of_posted {dead : Finset ℤ} {clients : ℤ → Process} {site : Site}
    (h : (clients p).phase = .posted site) (out : List Reply) :
    deliverAll dead clients out p = clients p := by
  induction out generalizing clients with
  | nil => rfl
  | cons r out ih =>
    have hsame : deliver dead clients r p = clients p := by
      by_cases hp : p = r.dokad
      · subst hp
        unfold deliver
        split_ifs
        · rfl
        · rw [Function.update_self, reply_of_posted h]
      · exact deliver_of_ne hp
    rw [deliverAll, List.foldl_cons, ← deliverAll, ih (by rw [hsame]; exact h), hsame]

/-- However often a blocked process is told `EINTR`, it asks again once. -/
theorem deliverAll_eintr {dead : Finset ℤ} {clients : ℤ → Process} {site site' : Site}
    {out : List Reply} (hout : ∀ r ∈ out, r = ⟨EINTR, p⟩) (hne : out ≠ []) (hp : p ∉ dead)
    (hphase : (clients p).phase = .blocked site) (hretry : site.retry = some site') :
    deliverAll dead clients out p = ⟨.posted site', Minix.EINTR, (clients p).history⟩ := by
  cases out with
  | nil => exact absurd rfl hne
  | cons r out =>
    have hr := hout r List.mem_cons_self
    have hfirst : deliver dead clients r p = ⟨.posted site', Minix.EINTR, (clients p).history⟩ := by
      rw [hr, deliver, if_neg hp, Function.update_self, Process.reply_EINTR hphase hretry]
    have hposted : (deliver dead clients r p).phase = .posted site' := by rw [hfirst]
    rw [deliverAll, List.foldl_cons, ← deliverAll, deliverAll_of_posted hposted, hfirst]

/-- A `CS_EINTR` about a process that the head sentinel of its queue holds: the tables stay as
they are, and the process posts its request once more. -/
theorem misled_eintr (hσ : Inv σ) (hp : p ∉ σ.dead)
    (hphase : (σ.clients p).phase = .blocked (.lock m))
    (hmem : p ∈ (σ.server.M i).kolejka.elementy) (hstart : (σ.server.M i).kolejka.start = p) :
    ∃ σ', EveryStep σ (.eintr p) σ' ∧ TableInv σ'.server ∧ abs σ'.server = abs σ.server ∧
      σ'.dead = σ.dead ∧ σ'.clients p = ⟨.posted (.lock m), Minix.EINTR, (σ.clients p).history⟩ ∧
      ∀ q, q ≠ p → σ'.clients q = σ.clients q := by
  have hreq : (eintrMessage p 0).request = .interrupt p := request_eintr _ p 0
  obtain ⟨s, out, hok, hs, habs, hout, hne⟩ :=
    obsluz_eintr_hidden hσ.tables hσ.manager hreq hmem hstart
  refine ⟨_, .eintr hok, hs, habs, rfl, ?_, fun q hq => ?_⟩
  · exact deliverAll_eintr hout hne hp hphase rfl
  · apply deliverAll_of_not_mem
    intro hq'
    obtain ⟨r, hr, rfl⟩ := List.mem_map.mp hq'
    exact hq (by rw [hout r hr])

/-- **A misled `CS_EINTR` breaks a `cs_lock`**: while `p` is first in the queue for `m` and the
head sentinel of that queue holds `p`, PM interrupts `p`, the owner unlocks, and the server
then receives what `p` has posted.  The `cs_lock` of `p`, which did not own `m`, ends with
`EPERM`. -/
theorem misled_lock_refused (hσ : Reachable σ) (hp : p ∉ σ.dead) (ho : o ∉ σ.dead)
    (hphase : (σ.clients p).phase = .blocked (.lock m)) (hidle : (σ.clients o).phase = .idle)
    (hget : (abs σ.server).mutexes.get m = some (o, p :: t))
    (hmem : p ∈ (σ.server.M i).kolejka.elementy) (hstart : (σ.server.M i).kolejka.start = p) :
    ∃ σ', Run EveryStep σ [.eintr p, .call o (.csUnlock m), .receive o, .receive p] σ' ∧
      ¬ σ.server.Owns p m ∧
      (σ'.clients p).history = ⟨.csLock m, -1, Minix.EPERM⟩ :: (σ.clients p).history := by
  have hop : o ≠ p := by
    rintro rfl
    simp [hidle] at hphase
  obtain ⟨σ₁, h₁, hs₁, habs₁, hdead₁, hclient₁, hothers₁⟩ :=
    misled_eintr hσ.inv hp hphase hmem hstart
  have hidle₁ : (σ₁.clients o).phase = .idle := by rw [hothers₁ o hop, hidle]
  -- the owner unlocks, and the reply finds `p` with a message that has not been received
  have hposted₂ : ((σ₁.call o (.csUnlock m)).clients o).phase = .posted (.unlock m) :=
    call_posted σ₁ o _
  have hclient₂ : (σ₁.call o (.csUnlock m)).clients p = σ₁.clients p := by
    simp [State.call, hop.symm]
  rw [← habs₁] at hget
  have hunlock : (abs σ₁.server).unlock o m =
      (⟨(abs σ₁.server).mutexes.set m (some (p, t)), (abs σ₁.server).conditions⟩, [⟨0, p⟩], OK) := by
    simp [Manager.unlock, hget]
  have hfits : Fits ((abs σ₁.server).next ((Site.unlock m).message o).request) := by
    rw [message_request]
    exact hs₁.fits.unlock o m
  obtain ⟨⟨s₂, out₂⟩, hok₂⟩ := (obsluz_ok_iff hs₁).mpr hfits
  have hh₂ := Handled.of_ok hs₁ (site_blind o (.unlock m) _) hok₂
  have hget₂ : (abs s₂).mutexes.get m = some (p, t) := by
    rw [hh₂.abs_eq, message_request, siteRequest, Manager.next, hunlock]
    simp
  have hclient₃ : ((σ₁.call o (.csUnlock m)).receive o s₂ out₂).clients p = σ₁.clients p := by
    have hp₂ : Function.update (σ₁.call o (.csUnlock m)).clients o
        ((σ₁.call o (.csUnlock m)).clients o).received p = σ₁.clients p := by
      rw [Function.update_of_ne hop.symm, hclient₂]
    have hposted : (Function.update (σ₁.call o (.csUnlock m)).clients o
        ((σ₁.call o (.csUnlock m)).clients o).received p).phase = .posted (.lock m) := by
      rw [hp₂, hclient₁]
    rw [State.receive]
    exact (deliverAll_of_posted hposted _).trans hp₂
  -- the owner that asks again is refused
  have hlock : (abs s₂).lock p m = (abs s₂, some EPERM) := by simp [Manager.lock, hget₂]
  have hfits₃ : Fits ((abs s₂).next ((Site.lock m).message p).request) := by
    rw [message_request, siteRequest, Manager.next, hlock]
    exact hh₂.tableInv.fits
  obtain ⟨⟨s₃, out₃⟩, hok₃⟩ := (obsluz_ok_iff hh₂.tableInv).mpr hfits₃
  have hrep₃ := (Handled.of_ok hh₂.tableInv (site_blind p (.lock m) _) hok₃).replies_of
    (by simp [message_request, siteRequest])
  rw [message_request, siteRequest, Manager.Replies, hlock] at hrep₃
  have hposted₃ : (((σ₁.call o (.csUnlock m)).receive o s₂ out₂).clients p).phase =
      .posted (.lock m) := by rw [hclient₃, hclient₁]
  refine ⟨_, .cons h₁ (.cons (.call (hdead₁ ▸ ho) hidle₁) (.cons (.receive hposted₂ hok₂)
    (.cons (.receive hposted₃ hok₃) (.nil _)))), ?_, ?_⟩
  · intro hown
    obtain ⟨q, hq⟩ := (owns_iff hσ.inv.tables).mp hown
    rw [← habs₁, hget, Option.some.injEq, Prod.mk.injEq] at hq
    exact hop hq.1
  · generalize hσ₃ : (σ₁.call o (.csUnlock m)).receive o s₂ out₂ = σ₃ at hclient₃ hposted₃
    have hdead₃ : p ∉ σ₃.dead := by
      rw [← hσ₃]
      exact hdead₁ ▸ hp
    have hout₃ : ⟨EPERM, p⟩ ∈ out₃ := by simp [hrep₃]
    rw [State.receive]
    dsimp only
    rw [deliverAll_of_mem (by simp [hrep₃]) hdead₃ hout₃, Function.update_self,
      Process.received_of_posted hposted₃, Process.reply_EPERM rfl, hclient₃, hclient₁]
    rfl

end Misled

end MinixCv.System

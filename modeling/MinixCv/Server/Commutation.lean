import MinixCv.LockManager.ClosedForms
import MinixCv.LockManager.Footprint
import MinixCv.Server.Runs

/-!
# Independent Requests Commute

Two requests with disjoint footprints may take different slots of the tables in the two
orders of handling them.  What nobody can see is hidden by `abs`:

- `Alike`: tables that stand for the same lock manager, with the same sentinels
- `Alike.step`: alike configurations answer every message alike and stay alike
- `independent_requests_commute`: the two orders lead to alike configurations, and send
  every process the same replies
-/

namespace MinixCv.Server

open MinixCv.Lib MinixCv.LockManager

/-! ## §1 What a process is sent -/

/-- The replies of `out` that go to `q`, in order. -/
def repliesTo (q : ℤ) (out : List Reply) : List ℤ := (out.filter (·.dokad == q)).map (·.typ)

/-- The replies that `q` is sent in the run `ls`, in order. -/
def sentTo (q : ℤ) (ls : List (Message × List Reply)) : List ℤ :=
  ls.flatMap fun l => repliesTo q l.2

/-- What handles the same messages from `c` sends every process the same from `d`. -/
def Imitates [Minix] (c d : Config) : Prop :=
  ∀ ls c', Run Step c ls c' → ∃ ls' d', Run Step d ls' d' ∧ ls'.map (·.1) = ls.map (·.1) ∧
    ∀ q, sentTo q ls' = sentTo q ls

/-- No later messages can tell `c` and `d` apart. -/
def Indistinguishable [Minix] (c d : Config) : Prop := Imitates c d ∧ Imitates d c

section Replies

variable [Minix] {a : Manager} {r : Request} {out out' : List Reply}

omit [Minix] in
theorem repliesTo_eq_nil {q : ℤ} (h : ∀ x ∈ out, x.dokad ≠ q) : repliesTo q out = [] := by
  have hfilter : out.filter (·.dokad == q) = [] := by
    rw [List.filter_eq_nil_iff]
    intro x hx
    simpa using h x hx
  rw [repliesTo, hfilter, List.map_nil]

/-- The replies to a request of a process are determined by the state. -/
theorem replies_unique (hr : r.sender ≠ none) (h : a.Replies r out) (h' : a.Replies r out') :
    out = out' := by
  cases r with
  | interrupt p => exact absurd rfl hr
  | exit p => exact absurd rfl hr
  | _ => exact Eq.trans h (Eq.symm h')

/-- Whatever the order in which a death hands mutexes on, every process is sent the same. -/
theorem repliesTo_unique (h : a.Replies r out) (h' : a.Replies r out')
    (hnodup : (out.map (·.dokad)).Nodup) (hnodup' : (out'.map (·.dokad)).Nodup) (q : ℤ) :
    repliesTo q out = repliesTo q out' := by
  cases r with
  | interrupt p =>
    rcases h with ⟨hw, rfl⟩ | ⟨hw, rfl⟩ <;> rcases h' with ⟨hw', rfl⟩ | ⟨hw', rfl⟩
    · rfl
    · exact absurd hw hw'
    · exact absurd hw' hw
    · rfl
  | exit p =>
    have hmem := Manager.exit_replies h
    have hmem' := Manager.exit_replies h'
    -- the same messages in another order
    have hperm : out.Perm out' := by
      refine (List.perm_ext_iff_of_nodup hnodup.of_map hnodup'.of_map).mpr fun x => ?_
      rw [hmem, hmem']
    -- all of them say `0`
    have hzero : ∀ {l : List Reply}, (∀ x ∈ l, x.typ = 0) →
        repliesTo q l = List.replicate (l.filter (·.dokad == q)).length 0 := by
      intro l hl
      refine List.eq_replicate_iff.mpr ⟨by simp [repliesTo], fun t ht => ?_⟩
      obtain ⟨x, hx, rfl⟩ := List.mem_map.mp ht
      exact hl x (List.mem_filter.mp hx).1
    rw [hzero fun x hx => ((hmem x).mp hx).1, hzero fun x hx => ((hmem' x).mp hx).1,
      (hperm.filter _).length_eq]
  | _ =>
    rw [replies_unique (by simp [Request.sender]) h h']

end Replies

/-! ## §2 Alike configurations -/

/-- Reached configurations whose tables stand for the same lock manager. -/
structure Alike (c d : Config) : Prop where
  left : Inv c
  right : Inv d
  abs_eq : abs c.server = abs d.server
  sentinels : SameSentinels c.server d.server

section Alike

variable [Minix] {c d : Config}

omit [Minix] in
theorem Alike.symm (h : Alike c d) : Alike d c :=
  ⟨h.right, h.left, h.abs_eq.symm, fun i => (h.sentinels i).symm⟩

/-- **Step lemma**: a message that `c` handles is handled by `d`, everybody is sent the same,
and the configurations stay alike. -/
theorem Alike.step (h : Alike c d) {m : Message} {out : List Reply} {c' : Config}
    (hstep : Step c (m, out) c') :
    ∃ out' d', Step d (m, out') d' ∧ (∀ q, repliesTo q out' = repliesTo q out) ∧ Alike c' d' := by
  -- the two configurations show the same to the sender, so `d` may receive `m` too
  have hadm : Admissible d m := by
    refine ⟨fun p hp hpend => hstep.admissible.answered p hp ?_, fun p hp i => ?_⟩
    · rw [h.left.pending_iff, h.abs_eq, ← h.right.pending_iff]
      exact hpend
    · rw [h.sentinels i]
      exact hstep.admissible.sentinel p hp i
  -- and handles it without running out of slots, since `c` does
  have hfits : Fits ((abs d.server).next m.request) := by
    rw [← h.abs_eq]
    exact (obsluz_ok_iff h.left.tables).mp ⟨_, hstep.handled⟩
  obtain ⟨out', d', hopen⟩ := exists_openStep h.right hadm hfits
  have hstep' : Step d (m, out') d' := ⟨hopen, hstep.fromPM⟩
  obtain ⟨hnext, hrep⟩ := hstep.manager h.left
  obtain ⟨hnext', hrep'⟩ := hstep'.manager h.right
  rw [← h.abs_eq] at hnext' hrep'
  refine ⟨out', d', hstep', fun q => ?_, hstep.inv h.left, hstep'.inv h.right, ?_, ?_⟩
  · exact repliesTo_unique hrep' hrep (hstep'.answers h.right).nodup
      (hstep.answers h.left).nodup q
  · rw [hnext, hnext']
  · intro i
    rw [(hstep'.handledAs h.right).sentinels i, (hstep.handledAs h.left).sentinels i]
    exact h.sentinels i

/-- **Run lemma**: so it is for every later run. -/
theorem Alike.imitates (h : Alike c d) : Imitates c d := by
  intro ls c' hrun
  induction hrun generalizing d with
  | nil c => exact ⟨[], d, .nil d, rfl, fun _ => rfl⟩
  | @cons c c₁ _ l ls hstep _ ih =>
    obtain ⟨out', d₁, hstep', hto, h₁⟩ := h.step hstep
    obtain ⟨ls', d', hrun', hmsgs, hsent⟩ := ih h₁
    refine ⟨(l.1, out') :: ls', d', .cons hstep' hrun', by simp [hmsgs], fun q => ?_⟩
    have hrest := hsent q
    simp only [sentTo] at hrest
    simp only [sentTo, List.flatMap_cons, hto, hrest]

end Alike

/-! ## §3 Two orders -/

/-- A request of one of the four kinds that clients send. -/
def Message.FromClient (m : Message) : Prop := 1 ≤ m.mType ∧ m.mType ≤ 4

theorem Message.FromClient.sender {m : Message} (h : m.FromClient) :
    m.request.sender = some m.mSource := by
  have hle := h.2
  have hge := h.1
  obtain ⟨_, hr⟩ | ⟨_, hr⟩ | ⟨_, hr⟩ | ⟨_, hr⟩ | ⟨ht, -⟩ | ⟨ht, -⟩ | ⟨ht, -⟩ := m.request_cases
  · rw [hr, Request.sender]
  · rw [hr, Request.sender]
  · rw [hr, Request.sender]
  · rw [hr, Request.sender]
  · simp [ht, CS_EINTR] at hle
  · simp [ht, CS_EXIT] at hle
  · omega

section Orders

variable [Minix] {c c₁ c₂ c₁₂ c₂₁ : Config}

/-- After a request, one with a disjoint footprint is answered as before it. -/
theorem replies_after {a : Manager} {r r' : Request}
    (hd : Disjoint (a.footprint r) (a.footprint r')) {out : List Reply} :
    (a.next r).Replies r' out ↔ a.Replies r' out :=
  (Manager.next_congr ((Manager.next_localAt a r).frame hd.symm)).2 out

/-- **Independent requests commute**: two requests of different processes with disjoint
footprints are answered the same in both orders, and no later messages can tell the two
resulting configurations apart. -/
theorem independent_requests_commute (hc : Reachable c) {m₁ m₂ : Message}
    (hm₁ : m₁.FromClient) (hm₂ : m₂.FromClient) (hne : m₁.mSource ≠ m₂.mSource)
    (hd : Disjoint ((abs c.server).footprint m₁.request) ((abs c.server).footprint m₂.request))
    {o₁ o₂ o₁' o₂' : List Reply}
    (h₁ : Step c (m₁, o₁) c₁) (h₁₂ : Step c₁ (m₂, o₂) c₁₂)
    (h₂ : Step c (m₂, o₂') c₂) (h₂₁ : Step c₂ (m₁, o₁') c₂₁) :
    (∀ q, sentTo q [(m₁, o₁), (m₂, o₂)] = sentTo q [(m₂, o₂'), (m₁, o₁')]) ∧
      Indistinguishable c₁₂ c₂₁ := by
  have hinv := hc.inv
  have hinv₁ := h₁.inv hinv
  have hinv₂ := h₂.inv hinv
  obtain ⟨hnext₁, hrep₁⟩ := h₁.manager hinv
  obtain ⟨hnext₂, hrep₂⟩ := h₂.manager hinv
  obtain ⟨hnext₁₂, hrep₁₂⟩ := h₁₂.manager hinv₁
  obtain ⟨hnext₂₁, hrep₂₁⟩ := h₂₁.manager hinv₂
  rw [hnext₁] at hnext₁₂ hrep₁₂
  rw [hnext₂] at hnext₂₁ hrep₂₁
  have hs₁ := hm₁.sender
  have hs₂ := hm₂.sender
  -- each request is answered the same, first or second
  have ho₁ : o₁ = o₁' :=
    replies_unique (by simp [hs₁]) hrep₁ ((replies_after hd.symm).mp hrep₂₁)
  have ho₂ : o₂ = o₂' :=
    replies_unique (by simp [hs₂]) ((replies_after hd).mp hrep₁₂) hrep₂
  subst ho₁
  subst ho₂
  constructor
  · intro q
    have hdisjoint := fun x hx y hy => Manager.recipients_disjoint (x := x) (y := y) hinv.manager
      (h₁.admissible.admits hinv) (h₂.admissible.admits hinv) hs₁ hs₂ hne hd hrep₁ hrep₂ hx hy
    simp only [sentTo, List.flatMap_cons, List.flatMap_nil, List.append_nil]
    by_cases hq : ∃ x ∈ o₁, x.dokad = q
    · obtain ⟨x, hx, rfl⟩ := hq
      have hnil : repliesTo x.dokad o₂ = [] :=
        repliesTo_eq_nil fun y hy h => hdisjoint x hx y hy h.symm
      simp [hnil]
    · have hnil : repliesTo q o₁ = [] := repliesTo_eq_nil fun x hx h => hq ⟨x, hx, h⟩
      simp [hnil]
  · have halike : Alike c₁₂ c₂₁ := by
      refine ⟨h₁₂.inv hinv₁, h₂₁.inv hinv₂, ?_, ?_⟩
      · rw [hnext₁₂, hnext₂₁]
        exact Manager.next_comm hd.symm
      · intro i
        rw [(h₂₁.handledAs hinv₂).sentinels i, (h₂.handledAs hinv).sentinels i,
          (h₁₂.handledAs hinv₁).sentinels i, (h₁.handledAs hinv).sentinels i]
    exact ⟨halike.imitates, halike.symm.imitates⟩

end Orders

/-- Processes 1 and 2 ask for mutexes 7 and 8. -/
theorem independent_locks_commute :
    letI := Minix.v321
    ∃ c₁₂ c₂₁, (∃ c₁, Step (Config.initial (fun _ => 0) (fun _ => 0))
        (⟨1, CS_LOCK, 7, 0⟩, [⟨OK, 1⟩]) c₁ ∧ Step c₁ (⟨2, CS_LOCK, 8, 0⟩, [⟨OK, 2⟩]) c₁₂) ∧
      (∃ c₂, Step (Config.initial (fun _ => 0) (fun _ => 0))
        (⟨2, CS_LOCK, 8, 0⟩, [⟨OK, 2⟩]) c₂ ∧ Step c₂ (⟨1, CS_LOCK, 7, 0⟩, [⟨OK, 1⟩]) c₂₁) ∧
      Indistinguishable c₁₂ c₂₁ := by
  let _ := Minix.v321
  -- one order: `p` asks for `m` on the empty tables, then `q` for `n`
  have horder : ∀ p m q n : ℤ, m ≠ n →
      ∃ c₁ c₂, Step (Config.initial (fun _ => 0) (fun _ => 0)) (⟨p, CS_LOCK, m, 0⟩, [⟨OK, p⟩]) c₁ ∧
        Step c₁ (⟨q, CS_LOCK, n, 0⟩, [⟨OK, q⟩]) c₂ := by
    intro p m q n hmn
    obtain ⟨c₁, hstep₁, h₁⟩ := shows_initial.lock_free (p := p) (m := m)
      (Manager.not_waiting_empty p) rfl (by simp [Manager.empty, MAX_MUTEX])
    obtain ⟨c₂, hstep₂, -⟩ := h₁.lock_free (p := q) (m := n)
      (by simp [Manager.empty, waiting_single_iff]) (by simp [Manager.empty, Ne.symm hmn])
      (by rw [PartialMap.count_set_fresh rfl]; simp [Manager.empty, MAX_MUTEX])
    exact ⟨c₁, c₂, hstep₁, hstep₂⟩
  obtain ⟨c₁, c₁₂, h₁, h₁₂⟩ := horder 1 7 2 8 (by decide)
  obtain ⟨c₂, c₂₁, h₂, h₂₁⟩ := horder 2 8 1 7 (by decide)
  have hcomm := independent_requests_commute shows_initial.reachable
    (by simp [Message.FromClient, CS_LOCK]) (by simp [Message.FromClient, CS_LOCK])
    (by simp) (by simp [request_lock, Manager.footprint]) h₁ h₁₂ h₂ h₂₁
  exact ⟨c₁₂, c₂₁, ⟨c₁, h₁, h₁₂⟩, ⟨c₂, h₂, h₂₁⟩, hcomm.2⟩

end MinixCv.Server

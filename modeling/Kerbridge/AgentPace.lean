import Kerbridge.TicketSchedule
import Kerbridge.TurnPieces

/-!
# The schedules of the agent

Four schedules feed one worker: the re-injection of a ticket with its backoff, the retries
of a silent sign-in, the recovery of a ticket that was lost, and the probe. Here is what
each turn of the user thread does to the first three.
-/

namespace Kerbridge.ClientAgent

/-- The schedules of the worker. -/
structure Pace where
  refreshAt : Option ℤ
  stop : ℤ
  refreshBackoff : ℤ
  retryAt : Option ℤ
  retries : ℕ
  retryBackoff : ℤ
  loss : TgtLoss

/-- The schedules of an agent. -/
def Agent.pace (a : Agent) : Pace :=
  ⟨a.refreshAt, a.stop, a.refreshBackoff, a.startupRetryAt, a.startupRetries, a.startupBackoff,
    a.loss⟩

/-- The session is forgotten. -/
def Pace.forgotten (p : Pace) : Pace := ⟨none, 0, p.refreshBackoff, none, 0, 0, .closed⟩

/-- A ticket landed. -/
def Pace.landed (os : Os) (stop : ℤ) (p : Pace) : Pace :=
  ⟨some (midpoint os os.first stop), stop, 0, none, 0, 0,
    { p.loss with absent := false, retryAt := none, suspended := false }⟩

section Verbs

variable (os : Os) (now : ℤ) (a : Agent)

@[simp] theorem pace_armProbe : (a.armProbe now).pace = a.pace := by
  unfold Agent.armProbe
  cases a.probeAt with
  | none => rfl
  | some t => rfl

@[simp] theorem pace_record (fault : Option Fault) : (a.record now fault).pace = a.pace := by
  unfold Agent.record
  dsimp only
  split
  · rw [pace_armProbe]
    split
    · rfl
    · rfl
  · rfl

@[simp] theorem pace_started (action : Action) : (a.started action).pace = a.pace := by
  unfold Agent.started
  split
  · rfl
  · rfl

@[simp] theorem pace_startedBusy (stamp : DiscoveryStamp) (action : Action) :
    (a.startedBusy stamp action).pace = a.pace := pace_started a action

@[simp] theorem pace_endProbe (generation : ℕ) : (a.endProbe now generation).1.pace = a.pace := by
  unfold Agent.endProbe
  split
  · rfl
  · rfl

@[simp] theorem pace_beginProbe : (a.beginProbe now).1.pace = a.pace := by
  unfold Agent.beginProbe
  split
  · rfl
  · change (Agent.armProbe now _).pace = _
    rw [pace_armProbe]
    rfl

@[simp] theorem pace_finishCloudSignOut (stamp : DiscoveryStamp) :
    (a.finishCloudSignOut stamp).pace = a.pace := by
  unfold Agent.finishCloudSignOut
  split
  · rfl
  · rfl

@[simp] theorem pace_startedGrantCleanup : a.startedGrantCleanup.1.pace = a.pace := pace_started _ _

@[simp] theorem pace_finishGrantCleanup (generation : ℕ) :
    (a.finishGrantCleanup generation).1.pace = a.pace := by
  unfold Agent.finishGrantCleanup
  split
  · rfl
  · rfl

@[simp] theorem pace_recordGrant (viaGrant : Option String) (principal : String) :
    (a.recordGrant os viaGrant principal).pace = a.pace := by
  cases viaGrant with
  | none => rfl
  | some grantId => rfl

@[simp] theorem pace_spendAuthorization : a.spendAuthorization.pace = a.pace := by
  unfold Agent.spendAuthorization
  split
  · rfl
  · rfl

@[simp] theorem pace_signing (trigger : Trigger) : (a.signing trigger).pace = a.pace := by
  unfold Agent.signing
  split
  · rfl
  · rfl

@[simp] theorem pace_released : (a.released now).pace = a.pace := by
  unfold Agent.released
  split
  · rfl
  · rfl

@[simp] theorem pace_expect (on : Bool) : (a.expect os on).pace = a.pace := rfl

@[simp] theorem pace_resetSession : a.resetSession.pace = a.pace.forgotten := rfl

/-- The broker that DNS names may have the pending sign-in run now. -/
theorem pace_target (url : String) : (a.target os url).pace = a.pace ∨
    (a.target os url).pace = { a.pace with retryAt := some os.third } := by
  unfold Agent.target
  dsimp only
  split
  · exact Or.inr rfl
  · exact Or.inl rfl

/-- A broker that is back has the pending sign-in run now. -/
theorem pace_landedDocument (back : Bool) : (a.landedDocument os back).pace = a.pace ∨
    back = true ∧ (a.landedDocument os back).pace = { a.pace with retryAt := some os.second } := by
  unfold Agent.landedDocument
  dsimp only
  split
  · rename_i hback
    exact Or.inr ⟨hback.1, rfl⟩
  · exact Or.inl rfl

/-- A repair may close the loss episode. -/
theorem pace_elevated (action : Action) (outcome : Outcome) (recheck : Bool) :
    (a.elevated os action outcome recheck).pace = a.pace ∨
      (a.elevated os action outcome recheck).pace = { a.pace with loss := .closed } := by
  have hrepaired : ∀ b : Agent, b.pace = a.pace → (b.repaired action outcome).pace = a.pace ∨
      (b.repaired action outcome).pace = { a.pace with loss := .closed } := by
    intro b hb
    unfold Agent.repaired
    split
    · right
      rw [← hb]
      rfl
    · exact Or.inl hb
  unfold Agent.elevated
  dsimp only
  split
  · rw [pace_record]
    exact hrepaired _ rfl
  · exact hrepaired _ rfl

/-- A document that is current forgets the session when it names another realm. -/
theorem pace_replaceBrokerSnapshot (stamp : DiscoveryStamp) (snapshot : BrokerSnapshot) :
    (a.replaceBrokerSnapshot os stamp snapshot).1.pace = a.pace ∨
      a.changesRealm snapshot = true ∧
        (a.replaceBrokerSnapshot os stamp snapshot).1.pace = a.pace.forgotten := by
  have hfault : ∀ b : Agent,
      (if b.fault = some .network then b.record os.first none else b).pace = b.pace := by
    intro b
    split
    · exact pace_record _ _ _
    · rfl
  unfold Agent.replaceBrokerSnapshot
  split
  · dsimp only
    change Agent.pace (if _ then _ else _) = _ ∨ _ ∧ Agent.pace (if _ then _ else _) = _
    rw [hfault]
    split
    · rename_i hrealm
      exact Or.inr ⟨hrealm, rfl⟩
    · exact Or.inl rfl
  · exact Or.inl rfl

end Verbs

section Ticking

/-- A re-injection that is laid at a reading of the clock leaves it the least delay, or the grace
before the end of a ticket that is live. -/
def Laid (now stop refresh : ℤ) : Prop :=
  now + minRefreshDelay ≤ refresh ∨ stop - expiryGrace ≤ refresh ∧ now < stop

/-- What a tick does to the schedules, of which it starts one at most. -/
structure TickPace (now : ℤ) (p p' : Pace) (start : Option Trigger) : Prop where
  /-- The schedule of a ticket is laid anew when it starts a re-injection, and kept otherwise. -/
  refresh : (start = some .renewal ∧ (∃ t, p.refreshAt = some t ∧ t ≤ now) ∧
      ∃ t, p'.refreshAt = some t ∧ Laid now p.stop t) ∨
    ¬(start = some .renewal ∧ ∃ t, p.refreshAt = some t ∧ t ≤ now) ∧ p'.refreshAt = p.refreshAt
  stop : p'.stop = p.stop
  refreshBackoff : p'.refreshBackoff = p.refreshBackoff
  /-- A retry that is due is started, or dropped. -/
  retryAt : p'.retryAt = p.retryAt ∧ start ≠ some .startup ∨
    (∃ t, p.retryAt = some t ∧ t ≤ now) ∧ p'.retryAt = none
  retries : p'.retries = p.retries
  retryBackoff : p'.retryBackoff = p.retryBackoff
  /-- The episode of a lost ticket goes on, or is closed. -/
  loss : p.loss.streak ≤ p'.loss.streak ∨ p'.loss = .closed

variable {os : Os} {now : ℤ} {busy : Bool}

/-- The midpoint leaves the least delay, or the grace before the end. -/
theorem le_midpoint (os : Os) (now stop : ℤ) :
    now + minRefreshDelay ≤ midpoint os now stop ∨ stop - expiryGrace ≤ midpoint os now stop := by
  unfold midpoint
  dsimp only
  rcases min_choice (now + max ((stop - now).tdiv 2 -
      os.jitter (((stop - now).tdiv 2).tdiv 10)) minRefreshDelay) (stop - expiryGrace) with h | h
  · rw [h]
    refine Or.inl (le_trans ?_ (le_max_left _ _))
    exact add_le_add (le_refl now) (le_max_right _ _)
  · rw [h]
    exact Or.inr (le_max_left _ _)

@[simp] theorem pace_probing (a : Agent) : (Due.probing now busy a).agent.pace = a.pace := by
  unfold Due.probing
  split
  · split
    · rfl
    · rfl
  · rfl

@[simp] theorem start_probing (a : Agent) : (Due.probing now busy a).start = none := by
  unfold Due.probing
  split
  · split
    · rfl
    · rfl
  · rfl

variable {d : Due}

/-- A ticket that runs out ends the recovery of one that was lost. -/
theorem pace_expiring : (d.expiring now).start = d.start ∧ ∃ loss,
    (d.expiring now).agent.pace = { d.agent.pace with loss := loss } ∧
      loss.streak = d.agent.loss.streak := by
  unfold Due.expiring
  split
  · exact ⟨rfl, _, rfl, rfl⟩
  · exact ⟨rfl, _, rfl, rfl⟩

/-- A ticket that works has not run out. -/
theorem live_expiring (h : (d.expiring now).agent.phase = .connected) :
    now < (d.expiring now).agent.stop := by
  unfold Due.expiring at h ⊢
  split
  · rename_i hended
    rw [if_pos hended] at h
    cases h
  · rename_i hended
    rw [if_neg hended] at h
    by_contra hle
    exact hended ⟨h, not_lt.mp hle⟩

/-- Looking for the ticket may open an episode, or notice that it goes on. -/
theorem pace_looking (refreshToken : Option String) :
    (d.looking os now busy refreshToken).1.start = d.start ∧ ∃ loss,
      (d.looking os now busy refreshToken).1.agent.pace = { d.agent.pace with loss := loss } ∧
        d.agent.loss.streak ≤ loss.streak := by
  have hobserved : ∀ (a : Agent) supply, ∃ loss,
      (a.lossObserved os now supply).pace = { a.pace with loss := loss } ∧
        a.loss.streak ≤ loss.streak := by
    intro a supply
    unfold Agent.lossObserved
    dsimp only
    split
    · exact ⟨_, rfl, Nat.le_succ _⟩
    · split
      · exact ⟨_, rfl, Nat.le_succ _⟩
      · exact ⟨_, rfl, Nat.le_succ _⟩
  unfold Due.looking
  dsimp only
  split
  · refine ⟨rfl, ?_⟩
    dsimp only
    split
    · exact hobserved _ _
    · split
      · exact ⟨_, rfl, le_refl _⟩
      · exact ⟨_, rfl, le_refl _⟩
  · exact ⟨rfl, _, rfl, le_refl _⟩

/-- A recovery that is due starts a re-injection, when the slot is free. -/
theorem pace_recovering (seen : Option (Option Bool)) :
    ((d.recovering os now busy seen).start = d.start ∨
      busy = false ∧ (d.recovering os now busy seen).start = some .renewal) ∧ ∃ loss,
      (d.recovering os now busy seen).agent.pace = { d.agent.pace with loss := loss } ∧
        loss.streak = d.agent.loss.streak := by
  unfold Due.recovering
  split
  · split
    · rename_i hdue
      split
      · exact ⟨Or.inl rfl, _, rfl, rfl⟩
      · exact ⟨Or.inl rfl, _, rfl, rfl⟩
      · exact ⟨Or.inr ⟨hdue.2.2, rfl⟩, _, rfl, rfl⟩
    · exact ⟨Or.inl rfl, _, rfl, rfl⟩
  · exact ⟨Or.inl rfl, _, rfl, rfl⟩

/-- A re-injection that is due is started when the slot is free, and laid anew. -/
theorem pace_refreshing :
    (busy = false ∧ (∃ t, d.agent.refreshAt = some t ∧ t ≤ now) ∧
      (d.refreshing os now busy).start = some .renewal ∧ ∃ loss,
        (d.refreshing os now busy).agent.pace = { d.agent.pace with
          refreshAt := some (midpoint os now d.agent.stop)
          loss := loss } ∧ (d.agent.loss.streak ≤ loss.streak ∨ loss = .closed)) ∨
    ¬(busy = false ∧ ∃ t, d.agent.refreshAt = some t ∧ t ≤ now) ∧
      (d.refreshing os now busy).start = d.start ∧
      (d.refreshing os now busy).agent.pace = d.agent.pace := by
  unfold Due.refreshing
  cases hat : d.agent.refreshAt with
  | none => exact Or.inr ⟨by simp, rfl, rfl⟩
  | some t =>
    dsimp only
    split
    · rename_i hdue
      refine Or.inl ⟨hdue.2, ⟨t, rfl, hdue.1⟩, rfl, ?_⟩
      dsimp only
      split
      · exact ⟨_, rfl, Or.inr rfl⟩
      · exact ⟨_, rfl, Or.inl (le_refl _)⟩
    · rename_i hnot
      refine Or.inr ⟨?_, rfl, rfl⟩
      rintro ⟨hbusy, t', ht', hle⟩
      cases ht'
      exact hnot ⟨hle, hbusy⟩

/-- The episode of a lost ticket is all that a tick changed so far. -/
theorem TickPace.of_loss {p p' : Pace} {start : Option Trigger} {loss : TgtLoss}
    (hp : p' = { p with loss := loss }) (hloss : p.loss.streak ≤ loss.streak ∨ loss = .closed)
    (hstart : start ≠ some .startup)
    (hdue : ¬(start = some .renewal ∧ ∃ t, p.refreshAt = some t ∧ t ≤ now)) :
    TickPace now p p' start := by
  subst hp
  exact ⟨Or.inr ⟨hdue, rfl⟩, rfl, rfl, Or.inl ⟨rfl, hstart⟩, rfl, rfl, hloss⟩

/-- A tick after the end of a ticket. -/
theorem tickPace_overdue {p : Pace} {loss : TgtLoss}
    (hp : d.agent.pace = { p with loss := loss }) (hloss : p.loss.streak ≤ loss.streak)
    (hstart : d.start = none) :
    TickPace now p (d.overdue now busy).agent.pace (d.overdue now busy).start := by
  have hat : d.agent.refreshAt = p.refreshAt := congrArg Pace.refreshAt hp
  have hkept : TickPace now p d.agent.pace d.start :=
    .of_loss hp (Or.inl hloss) (by rw [hstart]; nofun) (by rw [hstart]; nofun)
  unfold Due.overdue
  cases hdue : d.agent.refreshAt with
  | none => exact hkept
  | some t =>
    dsimp only
    split
    · rename_i hnow
      have hpace : ({ d with
          agent := d.agent.schedule now (now + minRefreshDelay)
          start := some .renewal } : Due).agent.pace =
            { p with refreshAt := some (now + minRefreshDelay), loss := loss } := by
        change { d.agent.pace with refreshAt := some (now + minRefreshDelay) } = _
        rw [hp]
      rw [hpace]
      refine ⟨Or.inl ⟨rfl, ⟨t, by rw [← hat, hdue], hnow.1⟩, _, rfl, Or.inl (le_refl _)⟩, rfl, rfl,
        Or.inl ⟨rfl, nofun⟩, rfl, rfl, Or.inl hloss⟩
    · exact hkept

/-- A tick without a ticket. -/
theorem tickPace_retrying {p : Pace} {loss : TgtLoss}
    (hp : d.agent.pace = { p with loss := loss }) (hloss : p.loss.streak ≤ loss.streak)
    (hstart : d.start = none) :
    TickPace now p (d.retrying now busy).agent.pace (d.retrying now busy).start := by
  have hat : d.agent.startupRetryAt = p.retryAt := congrArg Pace.retryAt hp
  have hkept : TickPace now p d.agent.pace d.start :=
    .of_loss hp (Or.inl hloss) (by rw [hstart]; nofun) (by rw [hstart]; nofun)
  unfold Due.retrying
  cases hdue : d.agent.startupRetryAt with
  | none => exact hkept
  | some t =>
    dsimp only
    split
    · rename_i hnow
      have hpace : ({ d.agent with startupRetryAt := none } : Agent).pace =
          { p with retryAt := none, loss := loss } := by
        change { d.agent.pace with retryAt := none } = _
        rw [hp]
      have hrenewal : (if d.agent.phase = .signedOut ∨ d.agent.phase = .error then some .startup
          else d.start) ≠ some Trigger.renewal := by
        rw [hstart]
        split
        · nofun
        · nofun
      rw [hpace]
      exact ⟨Or.inr ⟨fun h => hrenewal h.1, rfl⟩, rfl, rfl,
        Or.inr ⟨⟨t, by rw [← hat, hdue], hnow.1⟩, rfl⟩, rfl, rfl, Or.inl hloss⟩
    · exact hkept

/-- A tick with a ticket that works. -/
theorem tickPace_connected {p : Pace} {loss : TgtLoss} {seen : Option (Option Bool)}
    (hp : d.agent.pace = { p with loss := loss }) (hloss : p.loss.streak ≤ loss.streak)
    (hstart : d.start = none) (hlive : now < p.stop) :
    TickPace now p
      (((d.recovering os now busy seen).refreshing os now busy).escalating now).agent.pace
      (((d.recovering os now busy seen).refreshing os now busy).escalating now).start := by
  obtain ⟨hrecover, loss₂, hrecovered, hstreak⟩ := @pace_recovering os now busy d seen
  rw [hp] at hrecovered
  have hloss₂ : p.loss.streak ≤ loss₂.streak := by
    rw [hstreak, show d.agent.loss = loss from congrArg Pace.loss hp]
    exact hloss
  have hescalating : ∀ e : Due, (e.escalating now).agent.pace = e.agent.pace ∧
      (e.escalating now).start = e.start := by
    intro e
    unfold Due.escalating
    split
    · exact ⟨rfl, rfl⟩
    · exact ⟨rfl, rfl⟩
  rw [(hescalating _).1, (hescalating _).2]
  generalize hr : d.recovering os now busy seen = r at hrecover hrecovered
  have hat : r.agent.refreshAt = p.refreshAt := congrArg Pace.refreshAt hrecovered
  have hstop : r.agent.stop = p.stop := congrArg Pace.stop hrecovered
  rcases @pace_refreshing os now busy r with
    ⟨_, hdue, hstarted, loss₃, hpace, hloss₃⟩ | ⟨hnot, hstarted, hpace⟩
  · rw [hat] at hdue
    rw [hstop, hrecovered] at hpace
    rw [hstarted, hpace]
    refine ⟨Or.inl ⟨rfl, hdue, _, rfl, ?_⟩, rfl, rfl, Or.inl ⟨rfl, nofun⟩, rfl, rfl, ?_⟩
    · exact (le_midpoint os now p.stop).imp_right fun hle => ⟨hle, hlive⟩
    · rw [show r.agent.loss = loss₂ from congrArg Pace.loss hrecovered] at hloss₃
      exact hloss₃.imp_left hloss₂.trans
  · rw [hpace, hstarted]
    rw [hat] at hnot
    refine .of_loss hrecovered (Or.inl hloss₂) ?_ ?_
    · rcases hrecover with hsame | ⟨_, hrenewal⟩
      · rw [hsame, hstart]
        nofun
      · rw [hrenewal]
        nofun
    · rintro ⟨hrenewal, hdue⟩
      rcases hrecover with hsame | ⟨hfree, _⟩
      · rw [hsame, hstart] at hrenewal
        cases hrenewal
      · exact hnot ⟨hfree, hdue⟩

/-- **What a tick does to the schedules**. -/
theorem tickPace_tickAt (refreshToken : Option String) (a : Agent) :
    TickPace now a.pace (tickAt os now busy refreshToken a).agent.pace
      (tickAt os now busy refreshToken a).start := by
  obtain ⟨hstart, loss, hpace, hstreak⟩ := @pace_expiring now (Due.probing now busy a)
  rw [start_probing] at hstart
  rw [pace_probing] at hpace
  have hloss : a.pace.loss.streak ≤ loss.streak := by
    rw [hstreak, show (Due.probing now busy a).agent.loss = a.loss from
      congrArg Pace.loss (pace_probing a)]
    exact le_refl _
  unfold tickAt
  dsimp only
  split
  · exact tickPace_overdue hpace hloss hstart
  · split
    · exact tickPace_retrying hpace hloss hstart
    · rename_i hconnected
      have hlive := live_expiring (not_not.mp hconnected)
      rw [show ((Due.probing now busy a).expiring now).agent.stop = a.pace.stop from
        congrArg Pace.stop hpace] at hlive
      obtain ⟨hlooked, loss₂, hlooking, hgrown⟩ :=
        @pace_looking os now busy ((Due.probing now busy a).expiring now) refreshToken
      rw [hpace] at hlooking
      rw [show ((Due.probing now busy a).expiring now).agent.loss = loss from
        congrArg Pace.loss hpace] at hgrown
      exact tickPace_connected hlooking (hloss.trans hgrown) (hlooked.trans hstart) hlive

end Ticking

section Failing

/-- The backoff after a failure of transport, the first of a streak or a later one. -/
def backoffAfter (fresh : Bool) (held : ℤ) : ℤ :=
  if fresh then minRefreshDelay else nextBackoff held minRefreshDelay probeMaxSecs

/-- What a failed sign-in does to the schedules. -/
inductive FailPace (os : Os) (fault : Option Fault) (trigger : Trigger) (live fresh : Bool)
    (p : Pace) : Pace → Prop
  /-- The ticket was lost: its recovery goes on. -/
  | lost {loss : TgtLoss} (hlive : live = true) (habsent : p.loss.absent = true)
      (hstreak : loss.streak = p.loss.streak + 1)
      (hretry : p.loss.suspended = false → fault = some .network →
        loss.retryAt = some (os.third + lossDelay os loss.streak)) :
      FailPace os fault trigger live fresh p { p with loss := loss }
  /-- A failure of transport is retried soon, and no later than at the midpoint. -/
  | backed (hlive : live = true) (hpresent : p.loss.absent = false)
      (hfault : fault = some .network) :
      FailPace os fault trigger live fresh p { p with
        refreshBackoff := backoffAfter fresh p.refreshBackoff
        refreshAt := some (min (os.third + backoffAfter fresh p.refreshBackoff)
          (midpoint os os.third p.stop)) }
  /-- Another failure leaves the schedule of a live ticket. -/
  | kept (hlive : live = true) (hpresent : p.loss.absent = false)
      (hfault : fault ≠ some .network) : FailPace os fault trigger live fresh p p
  /-- Without a ticket a failure of transport is retried after the next backoff. -/
  | retried (hdead : live = false) (hfault : fault = some .network) :
      FailPace os fault trigger live fresh p { p with
        refreshAt := none
        retryBackoff := nextBackoff p.retryBackoff startupRetrySecs probeMaxSecs
        retryAt :=
          some (os.third + nextBackoff p.retryBackoff startupRetrySecs probeMaxSecs) }
  /-- Another failure takes one of the retries that are left. -/
  | counted (hdead : live = false) (hfault : fault ≠ some .network) (hleft : 0 < p.retries) :
      FailPace os fault trigger live fresh p { p with
        refreshAt := none
        retries := p.retries - 1
        retryBackoff := 0
        retryAt := some (os.third + startupRetryBoundedSecs) }
  | ended (hdead : live = false) :
      FailPace os fault trigger live fresh p { p with
        refreshAt := none
        retryAt := none
        retryBackoff := 0 }

variable (os : Os) (a : Agent) (fault : Option Fault) (trigger : Trigger)

/-- A failure while the ticket is lost goes on with its episode. -/
theorem pace_lossFailed : ∃ loss, (a.lossFailed os os.third fault).pace = { a.pace with loss := loss } ∧
    loss.streak = a.loss.streak + 1 ∧ (a.loss.suspended = false → fault = some .network →
      loss.retryAt = some (os.third + lossDelay os loss.streak)) := by
  unfold Agent.lossFailed
  dsimp only
  split
  · split
    · rename_i hsuspended
      refine ⟨_, rfl, rfl, ?_⟩
      intro hfree
      rw [hfree] at hsuspended
      cases hsuspended
    · exact ⟨_, rfl, rfl, fun _ _ => rfl⟩
  · split
    · exact ⟨_, rfl, rfl, fun _ h => by cases h⟩
    · exact ⟨_, rfl, rfl, fun _ h => by cases h⟩
  · exact ⟨_, rfl, rfl, fun _ h => by cases h⟩
  · exact ⟨_, rfl, rfl, fun _ h => by cases h⟩
  · exact ⟨_, rfl, rfl, fun _ h => by cases h⟩

/-- A failure with a live ticket. -/
theorem pace_failedLive (fresh : Bool) :
    FailPace os fault trigger true fresh a.pace (a.failedLive os fault fresh).pace := by
  unfold Agent.failedLive
  dsimp only
  split
  · rename_i habsent
    obtain ⟨loss, hpace, hstreak, hretry⟩ :=
      pace_lossFailed os ({ a with phase := .connected, silentFailed := true } : Agent) fault
    rw [hpace]
    exact .lost rfl habsent hstreak hretry
  · rename_i hpresent
    split
    · rename_i hfault
      exact .backed rfl (Bool.eq_false_of_not_eq_true hpresent) hfault
    · rename_i hfault
      exact .kept rfl (Bool.eq_false_of_not_eq_true hpresent) hfault

/-- A failure without a live ticket. -/
theorem pace_failedDead (fresh : Bool) :
    FailPace os fault trigger false fresh a.pace (a.failedDead os fault trigger).pace := by
  unfold Agent.failedDead
  generalize (if trigger.quiet then Phase.signedOut else Phase.error) = phase
  unfold Agent.retryLater
  split
  · rename_i hretried
    exact .retried rfl hretried.1
  · rename_i hnot
    split
    · rename_i hleft
      refine .counted rfl ?_ hleft.2
      intro hfault
      exact hnot ⟨hfault, Or.inl hleft.1⟩
    · exact .ended rfl

/-- **What a failed sign-in does to the schedules**. -/
theorem pace_signInFailed :
    FailPace os fault trigger (a.holdsLiveTicket os.second) a.firstFailureAt.isNone a.pace
      (Agent.signInFailed os fault trigger a).pace := by
  have hrecord : (a.record os.first fault).pace = a.pace := pace_record _ _ _
  have hlive : (a.record os.first fault).holdsLiveTicket os.second =
      a.holdsLiveTicket os.second := by
    rw [Bool.eq_iff_iff, holdsLiveTicket_iff, holdsLiveTicket_iff, session_record]
    have hphase : (a.record os.first fault).phase = a.phase :=
      congrArg Session.phase (session_record os.first a fault)
    rw [hphase]
  unfold Agent.signInFailed
  dsimp only
  rw [← hlive, ← hrecord]
  split
  · rename_i hheld
    rw [hheld]
    exact pace_failedLive os _ fault trigger _
  · rename_i hnot
    rw [Bool.eq_false_of_not_eq_true hnot]
    exact pace_failedDead os _ fault trigger _

end Failing

/-- What the user thread does in one turn. -/
inductive Act where
  | command (cmd : Command)
  | apply (ev : Event)

/-- A turn of the user thread. -/
def Client.act (os : Os) (act : Act) (c : Client) : Client :=
  match act with
  | .command cmd => c.command os cmd
  | .apply ev => c.applyEvent os ev

section Kinds

/-- An exchange landed a ticket with an end. -/
def Lands (c : Client) (act : Act) (stop : ℤ) : Prop :=
  ∃ stamp injected realm effects viaGrant,
    act = .apply (.signedIn stamp injected realm effects viaGrant) ∧
      c.agent.discoveryIsCurrent stamp = true ∧ injected.stop = stop

/-- A sign-in failed. -/
def Fails (c : Client) (act : Act) (fault : Option Fault) (trigger : Trigger) : Prop :=
  ∃ stamp effects, act = .apply (.signInFailed stamp effects fault trigger) ∧
    c.agent.discoveryIsCurrent stamp = true

/-- A turn that may forget the session: the user signs off or changes the broker, or a document
names another realm. -/
def Forgets (c : Client) (act : Act) : Prop :=
  act = .command .dropTicket ∨ (∃ change, act = .command (.applySettings change) ∧
    change.brokerUrl.isSome = true) ∨ ∃ stamp snapshot accepted,
      act = .apply (.discovered stamp snapshot accepted) ∧ c.agent.changesRealm snapshot = true

/-- A turn that may have a pending sign-in run now: the broker is found, or it is back. -/
def Hastens (act : Act) : Prop :=
  (∃ generation url, act = .apply (.brokerLookup generation url)) ∨
    ∃ stamp snapshot, act = .apply (.discovered stamp snapshot false)

/-- What a turn does to the schedules. -/
inductive Shift (os : Os) (c : Client) : Act → Pace → Prop
  | kept {act : Act} (hlands : ∀ stop, ¬Lands c act stop)
      (hfails : ∀ fault trigger, ¬Fails c act fault trigger) (htick : act ≠ .command .tick) :
      Shift os c act c.agent.pace
  | cleared : Shift os c (.command .signIn) { c.agent.pace with retryAt := none }
  | filled (retryAt : Option ℤ) : Shift os c (.command .autostartSignIn)
      { c.agent.pace with retries := ClientAgent.startupRetries, retryAt := retryAt }
  | ticked {p : Pace} {retryAt : Option ℤ} (htick : TickPace os.first c.agent.pace p
        (tickAt os os.first c.busy c.refreshToken c.agent).start)
      (hretry : retryAt = p.retryAt ∨
        (tickAt os os.first c.busy c.refreshToken c.agent).start = some .startup) :
      Shift os c (.command .tick) { p with retryAt := retryAt }
  | forgot {act : Act} (h : Forgets c act) (retryAt : Option ℤ) :
      Shift os c act { c.agent.pace.forgotten with retryAt := retryAt }
  | hastened {act : Act} (h : Hastens act) (retryAt : Option ℤ) :
      Shift os c act { c.agent.pace with retryAt := retryAt }
  | repaired {action : Action} {outcome : Outcome} {recheck : Bool} :
      Shift os c (.apply (.elevatedFinished action outcome recheck))
        { c.agent.pace with loss := .closed }
  | landed {act : Act} {stop : ℤ} (h : Lands c act stop) :
      Shift os c act (c.agent.pace.landed os stop)
  | failed {act : Act} {fault : Option Fault} {trigger : Trigger} {p : Pace}
      (h : Fails c act fault trigger) (hpace : FailPace os fault trigger
        (c.agent.holdsLiveTicket os.second) c.agent.firstFailureAt.isNone c.agent.pace p) :
      Shift os c act p

end Kinds

section Handlers

variable {os : Os} {now : ℤ} {c : Client}

@[simp] theorem pace_finishBusy (stamp : DiscoveryStamp) (stale : Bool) :
    (c.finishBusy os stamp stale).agent.pace = c.agent.pace := by
  unfold Client.finishBusy
  split
  · split
    · dsimp only
      split
      · rw [pace_released]
        rfl
      · rfl
    · rfl
  · rfl

@[simp] theorem pace_applyEffects (effects : WorkerEffects) :
    (c.applyEffects os effects).agent.pace = c.agent.pace := by
  unfold Client.applyEffects
  cases effects.refreshToken with
  | none => rfl
  | some token => rfl

/-- A result that is accepted releases the slot, and changes no schedule by that. -/
theorem pace_finished (stamp : DiscoveryStamp) (effects : WorkerEffects) :
    ((c.finishBusy os stamp false).applyEffects os effects).agent.pace = c.agent.pace := by
  rw [pace_applyEffects, pace_finishBusy]

/-- A worker that cannot start for now has a pending sign-in wait. -/
theorem pace_startWorker (trigger : Trigger) :
    (c.startWorker os trigger).agent.pace = c.agent.pace ∨ trigger = .startup ∧ ∃ retryAt,
      (c.startWorker os trigger).agent.pace = { c.agent.pace with retryAt := retryAt } := by
  unfold Client.startWorker
  split
  · split
    · rename_i hstartup
      exact Or.inr ⟨hstartup, _, rfl⟩
    · exact Or.inl rfl
  · left
    split
    · rfl
    · unfold Agent.advanceDiscovery
      dsimp only
      cases c.agent.settings.brokerUrl with
      | none => rfl
      | some url =>
        change (Agent.signing trigger _).pace = _
        rw [pace_signing, pace_startedBusy]
        rfl

@[simp] theorem pace_createGrant : c.createGrant.agent.pace = c.agent.pace := by
  unfold Client.createGrant
  split
  · rfl
  · unfold Agent.advanceDiscovery
    dsimp only
    cases c.agent.settings.brokerUrl with
    | none => rfl
    | some url => exact pace_startedBusy _ _ _

@[simp] theorem pace_giveUpCapturedGrant (broker : Option String) (grant : Grant)
    (saved report : Bool) :
    (c.giveUpCapturedGrant broker grant saved report).agent.pace = c.agent.pace := by
  unfold Client.giveUpCapturedGrant
  split
  · rfl
  · exact pace_startedGrantCleanup _

@[simp] theorem pace_discoverInBackground :
    (c.discoverInBackground now).agent.pace = c.agent.pace := by
  have hbegun := pace_beginProbe now c.agent
  unfold Client.discoverInBackground
  split
  · rename_i heq
    rw [heq] at hbegun
    exact hbegun
  · rename_i heq
    rw [heq] at hbegun
    exact hbegun

@[simp] theorem pace_probeDue (due : Bool) : (c.probeDue now due).agent.pace = c.agent.pace := by
  unfold Client.probeDue
  split
  · exact pace_discoverInBackground
  · rfl

/-- A retarget forgets the session, or does nothing. -/
theorem pace_retarget (oldBroker brokerUrl : Option String) :
    (c.retarget os oldBroker brokerUrl).2 = false ∧
      (c.retarget os oldBroker brokerUrl).1.agent.pace = c.agent.pace ∨
    (c.retarget os oldBroker brokerUrl).2 = true ∧
      (c.retarget os oldBroker brokerUrl).1.agent.pace = c.agent.pace.forgotten := by
  unfold Client.retarget
  dsimp only
  split
  · exact Or.inl ⟨rfl, rfl⟩
  · right
    have hpurged := congrArg Agent.pace (@agent_purgeRealm os c
      c.agent.settings.file.cache.realm)
    split
    · refine ⟨rfl, ?_⟩
      rw [← hpurged]
      rfl
    · refine ⟨rfl, ?_⟩
      dsimp only
      rw [pace_giveUpCapturedGrant, ← hpurged]
      rfl

/-- The broker of the settings sheet forgets the session when it is another one. -/
theorem pace_applyBrokerUrl (url : Option String) :
    (c.applyBrokerUrl os url).1.agent.pace = c.agent.pace ∨ url.isSome = true ∧ ∃ retryAt,
      (c.applyBrokerUrl os url).1.agent.pace =
        { c.agent.pace.forgotten with retryAt := retryAt } := by
  unfold Client.applyBrokerUrl
  cases url with
  | none => exact Or.inl rfl
  | some url =>
    dsimp only
    split
    · exact Or.inl rfl
    · split
      · exact Or.inl rfl
      · generalize (if c.agent.settings.brokerUrl.getD "" = "" then none
          else some (c.agent.settings.brokerUrl.getD "")) = old
        have hretarget := @pace_retarget os c old (typedBrokerUrl url)
        cases hdone : c.retarget os old (typedBrokerUrl url) with
        | mk d done =>
          rw [hdone] at hretarget
          rcases hretarget with ⟨rfl, hpace⟩ | ⟨rfl, hpace⟩
          · exact Or.inl hpace
          · refine Or.inr ⟨rfl, some os.second, ?_⟩
            rw [← hpace]
            rfl

/-- A turn that lands no ticket, fails no sign-in and is no tick. -/
def Calm (act : Act) : Prop :=
  match act with
  | .command .tick => False
  | .apply (.signedIn _ _ _ _ _) => False
  | .apply (.signInFailed _ _ _ _) => False
  | _ => True

/-- A calm turn that keeps the schedules. -/
theorem Shift.calm {act : Act} {p : Pace} (hcalm : Calm act) (hp : p = c.agent.pace) :
    Shift os c act p := by
  subst hp
  refine .kept ?_ ?_ ?_
  · rintro stop ⟨stamp, injected, realm, effects, viaGrant, rfl, _, _⟩
    exact hcalm
  · rintro fault trigger ⟨stamp, effects, rfl, _⟩
    exact hcalm
  · rintro rfl
    exact hcalm

/-- The settings sheet keeps the schedules, or forgets the session. -/
theorem shift_applySettings (change : SettingsChange) :
    Shift os c (.command (.applySettings change)) (c.applySettings os change).agent.pace := by
  have hpace : (c.applySettings os change).agent.pace =
      (c.applyBrokerUrl os change.brokerUrl).1.agent.pace := rfl
  rcases @pace_applyBrokerUrl os c change.brokerUrl with hkept | ⟨hurl, retryAt, hforgot⟩
  · exact .calm trivial (hpace.trans hkept)
  · rw [hpace, hforgot]
    exact .forgot (Or.inr (Or.inl ⟨change, rfl, hurl⟩)) retryAt

/-- A tick does what its housekeeping says, and may have a pending sign-in wait. -/
theorem shift_tick : Shift os c (.command .tick) (c.tick os).agent.pace := by
  have htick := @tickPace_tickAt os os.first c.busy c.refreshToken c.agent
  have hpace : (c.tick os).agent.pace = ((c.withAgent fun _ =>
      (tickAt os os.first c.busy c.refreshToken c.agent).agent).startDue os
        (tickAt os os.first c.busy c.refreshToken c.agent).start).agent.pace := pace_probeDue _
  rw [hpace]
  cases hstart : (tickAt os os.first c.busy c.refreshToken c.agent).start with
  | none => exact .ticked htick (Or.inl rfl)
  | some trigger =>
    rcases @pace_startWorker os (c.withAgent fun _ =>
        (tickAt os os.first c.busy c.refreshToken c.agent).agent) trigger with
      hkept | ⟨rfl, retryAt, hwait⟩
    · rw [Client.startDue, hkept]
      exact .ticked htick (Or.inl rfl)
    · rw [Client.startDue, hwait]
      exact .ticked htick (Or.inr hstart)

/-- A sign-in that the user asks for takes the place of one that is pending. -/
theorem shift_signIn : Shift os c (.command .signIn) (c.signIn os).agent.pace := by
  have hcleared : (c.signIn os).agent.pace = { c.agent.pace with retryAt := none } := by
    unfold Client.signIn
    dsimp only
    split
    · rw [pace_createGrant]
      rfl
    · rcases @pace_startWorker os (c.withAgent fun a =>
        { a with startupRetryAt := none, autostartAwaitsBroker := false }) .user with
        hkept | ⟨hstartup, _⟩
      · rw [hkept]
        rfl
      · cases hstartup
  rw [hcleared]
  exact .cleared

/-- The sign-in at logon has all of its retries. -/
theorem shift_autostartSignIn :
    Shift os c (.command .autostartSignIn) (c.autostartSignIn os).agent.pace := by
  unfold Client.autostartSignIn
  dsimp only
  split
  · rcases @pace_startWorker os ((c.withAgent fun a => { a with
        autostartAwaitsBroker := Client.autostartEligible os c.agent && a.settings.brokerUrl.isNone }).withAgent
          fun a => { a with startupRetries := ClientAgent.startupRetries }) .startup with
      hkept | ⟨_, retryAt, hwait⟩
    · rw [hkept]
      exact .filled c.agent.startupRetryAt
    · rw [hwait]
      exact .filled retryAt
  · exact .calm trivial rfl

/-- What a command does to the schedules. -/
theorem shift_command (cmd : Command) :
    Shift os c (.command cmd) (c.command os cmd).agent.pace := by
  cases cmd with
  | tick => exact shift_tick
  | signIn => exact shift_signIn
  | renewNow =>
    rcases @pace_startWorker os c .renewal with hkept | ⟨hstartup, _⟩
    · exact .calm trivial hkept
    · cases hstartup
  | autostartSignIn => exact shift_autostartSignIn
  | cancelSignIn => exact .calm trivial rfl
  | dropTicket =>
    have hpace : (c.dropTicket os).agent.pace = c.agent.pace.forgotten := by
      have hpurged := congrArg Agent.pace (@agent_purgeRealm os c
        c.agent.kerberos.realm)
      unfold Client.dropTicket Client.withAgent
      dsimp only
      rw [← hpurged]
      split
      · rfl
      · rw [pace_record]
        rfl
    change Shift os c _ (c.dropTicket os).agent.pace
    rw [hpace]
    exact .forgot (Or.inl rfl) none
  | signOutIdp =>
    refine .calm trivial ?_
    change c.beginCloudSignOut.agent.pace = _
    unfold Client.beginCloudSignOut Agent.advanceDiscovery
    split
    · rfl
    · dsimp only
      cases c.agent.settings.brokerUrl with
      | none => rfl
      | some url =>
        change (Agent.started .signOutIdp _).pace = _
        rw [pace_started]
        rfl
  | giveUpGrantNow =>
    refine .calm trivial ?_
    change (c.giveUpGrant os c.agent.settings.brokerUrl).agent.pace = _
    unfold Client.giveUpGrant
    split
    · rfl
    · dsimp only
      split
      · rfl
      · rw [pace_giveUpCapturedGrant]
        rfl
  | createGrant => exact .calm trivial pace_createGrant
  | statusClosed => exact .calm trivial rfl
  | applySettings change => exact shift_applySettings change
  | elevate action =>
    refine .calm trivial ?_
    have hspawned : ∀ recheck, (c.spawnElevated recheck action).agent.pace = c.agent.pace := by
      intro recheck
      unfold Client.spawnElevated
      split
      · rfl
      · exact pace_started _ _
    change (if _ then c.spawnElevated _ action else c).agent.pace = _
    split
    · exact hspawned _
    · rfl

/-- A document keeps the schedules, hastens a pending sign-in, or forgets the session. -/
theorem shift_discovered (stamp : DiscoveryStamp) (snapshot : BrokerSnapshot) (accepted : Bool) :
    Shift os c (.apply (.discovered stamp snapshot accepted))
      (c.discovered os stamp snapshot accepted).agent.pace := by
  have hagent : ∀ (a : Agent) back, a.pace = c.agent.pace →
      a.changesRealm snapshot = c.agent.changesRealm snapshot → (back = true → accepted = false) →
      Shift os c (.apply (.discovered stamp snapshot accepted))
        (a.received os stamp snapshot back).pace := by
    intro a back ha hrealm hback
    have hreplaced := pace_replaceBrokerSnapshot os a stamp snapshot
    rw [ha, hrealm] at hreplaced
    have hforgets : c.agent.changesRealm snapshot = true →
        Forgets c (.apply (.discovered stamp snapshot accepted)) := fun h =>
      Or.inr (Or.inr ⟨stamp, snapshot, accepted, rfl, h⟩)
    unfold Agent.received
    split
    · rcases pace_landedDocument os (a.replaceBrokerSnapshot os stamp snapshot).1 back with
        hlanded | ⟨hyes, hlanded⟩
      · rw [hlanded]
        rcases hreplaced with hkept | ⟨hother, hforgot⟩
        · exact .calm trivial hkept
        · rw [hforgot]
          exact .forgot (hforgets hother) none
      · rw [hlanded]
        rcases hreplaced with hkept | ⟨hother, hforgot⟩
        · rw [hkept]
          refine .hastened (Or.inr ⟨stamp, snapshot, ?_⟩) (some os.second)
          rw [hback hyes]
        · rw [hforgot]
          exact .forgot (hforgets hother) (some os.second)
    · rcases hreplaced with hkept | ⟨hother, hforgot⟩
      · exact .calm trivial hkept
      · rw [hforgot]
        exact .forgot (hforgets hother) none
  unfold Client.discovered
  cases accepted with
  | true => exact hagent c.agent _ rfl rfl (by simp)
  | false =>
    have hcore := core_endProbe os.first c.agent stamp.generation
    have hphase : (c.agent.endProbe os.first stamp.generation).1.phase = c.agent.phase :=
      congrArg (fun k => k.session.phase) hcore
    have hrealm : (c.agent.endProbe os.first stamp.generation).1.kerberos = c.agent.kerberos :=
      congrArg (fun k => k.ledger.published.kerberos) hcore
    have hsame : (c.agent.endProbe os.first stamp.generation).1.changesRealm snapshot =
        c.agent.changesRealm snapshot := by
      unfold Agent.changesRealm
      rw [hphase, hrealm]
    exact hagent _ _ (pace_endProbe _ _ _) hsame fun _ => rfl

/-- A sign-in that landed sets every schedule. -/
theorem pace_signedIn (stamp : DiscoveryStamp) (injected : Injected) (effects : WorkerEffects)
    (viaGrant : Option String) :
    (c.signedIn os stamp injected effects viaGrant).agent.pace =
      c.agent.pace.landed os injected.stop := by
  have hland : ∀ a : Agent, (a.land os injected).pace =
      ⟨some (midpoint os os.first injected.stop), injected.stop, 0, none, 0, 0, a.loss⟩ :=
    fun _ => rfl
  unfold Client.signedIn Client.withAgent
  dsimp only
  rw [pace_expect, pace_spendAuthorization, hland, show ∀ a : Agent, (a.recordGrant os viaGrant
    injected.principal).loss = a.loss from fun a => congrArg Pace.loss (pace_recordGrant os a _ _)]
  have hloss : ((c.finishBusy os stamp false).applyEffects os effects).agent.loss = c.agent.loss :=
    congrArg Pace.loss (pace_finished stamp effects)
  unfold Agent.lossLanded
  rw [hloss]
  rfl

/-- A sign-in that failed. -/
theorem failPace_signInFailed (stamp : DiscoveryStamp) (effects : WorkerEffects)
    (fault : Option Fault) (trigger : Trigger) :
    FailPace os fault trigger (c.agent.holdsLiveTicket os.second) c.agent.firstFailureAt.isNone
      c.agent.pace (c.signInFailed os stamp effects fault trigger).agent.pace := by
  have hsession : ((c.finishBusy os stamp false).applyEffects os effects).agent.session =
      c.agent.session := by
    rw [session_applyEffects]
    unfold Client.finishBusy
    split
    · split
      · rfl
      · rfl
    · rfl
  have hfresh : ((c.finishBusy os stamp false).applyEffects os effects).agent.firstFailureAt =
      c.agent.firstFailureAt := by
    unfold Client.finishBusy Client.applyEffects
    cases effects.refreshToken with
    | none =>
      dsimp only
      split
      · split
        · rfl
        · rfl
      · rfl
    | some token =>
      dsimp only
      split
      · split
        · rfl
        · rfl
      · rfl
  have hphase : ((c.finishBusy os stamp false).applyEffects os effects).agent.phase =
      c.agent.phase := congrArg Session.phase hsession
  have hlive : ((c.finishBusy os stamp false).applyEffects os effects).agent.holdsLiveTicket
      os.second = c.agent.holdsLiveTicket os.second := by
    rw [Bool.eq_iff_iff, holdsLiveTicket_iff, holdsLiveTicket_iff, hsession, hphase]
  have hpace := pace_signInFailed os
    ((c.finishBusy os stamp false).applyEffects os effects).agent fault trigger
  rw [hlive, hfresh, pace_finished] at hpace
  exact hpace

/-- A result that is refused as stale changes no schedule. -/
theorem pace_rejectStaleTerminal (ev : Event) :
    (c.rejectStaleTerminal os ev).agent.pace = c.agent.pace := by
  cases ev with
  | signedIn stamp injected realm effects viaGrant =>
    change (Client.finishBusy os stamp true _).agent.pace = _
    rw [pace_finishBusy, agent_purgeRealm]
  | signInFailed stamp effects fault trigger =>
    change (Client.finishBusy os stamp true _).agent.pace = _
    rw [pace_finishBusy]
    cases effects.injectionRealm with
    | none => rfl
    | some realm => exact congrArg Agent.pace (agent_purgeRealm realm)
  | cancelled stamp effects => exact pace_finishBusy stamp true
  | grantFailed stamp effects fault => exact pace_finishBusy stamp true
  | cloudSignedOut stamp asked => exact pace_finishCloudSignOut _ stamp
  | _ => rfl

/-- The lookup of a broker may have a pending sign-in run now. -/
theorem shift_brokerLookup (generation : ℕ) (url : Option String) :
    Shift os c (.apply (.brokerLookup generation url))
      (c.brokerLookup os generation url).agent.pace := by
  have hended := pace_endProbe os.first c.agent generation
  unfold Client.brokerLookup Client.withAgent
  dsimp only
  split
  · rename_i found _
    have hfound := pace_target os ({ (c.agent.endProbe os.first generation).1 with
      discoveryEnded := (c.agent.endProbe os.first generation).1.discoveryEnded ||
        ((c.agent.endProbe os.first generation).2 && (some found).isNone) } : Agent) found
    change _ = Agent.pace (c.agent.endProbe os.first generation).1 ∨ _ = { Agent.pace
      (c.agent.endProbe os.first generation).1 with retryAt := some os.third } at hfound
    rw [hended] at hfound
    rcases hfound with hkept | hnow
    · exact .calm trivial hkept
    · rw [hnow]
      exact .hastened (Or.inl ⟨generation, some found, rfl⟩) (some os.third)
  · exact .calm trivial hended

/-- A grant that is given up changes no schedule. -/
theorem pace_grantGivenUp (generation : ℕ) :
    (c.grantGivenUp generation).agent.pace = c.agent.pace := by
  have hfinished := pace_finishGrantCleanup c.agent generation
  unfold Client.grantGivenUp
  split
  · rename_i heq
    rw [heq] at hfinished
    exact hfinished
  · rfl

/-- A worker that was accepted changes no schedule, when it lands no ticket and fails no sign-in. -/
theorem pace_sharedEvent {ev : Event} {stamp : DiscoveryStamp}
    (hterminal : ev.terminalStamp = some stamp) (hcalm : Calm (.apply ev)) :
    (c.sharedEvent os ev).agent.pace = c.agent.pace := by
  cases ev with
  | signedIn stamp injected realm effects viaGrant => exact absurd hcalm id
  | signInFailed stamp effects fault trigger => exact absurd hcalm id
  | cancelled stamp effects =>
    change (Agent.released os.first _).pace = _
    rw [pace_released]
    exact pace_finished stamp effects
  | grantCreated stamp grant brokerUrl effects =>
    have hfinished := @pace_finished os c stamp effects
    change (c.grantCreated os stamp grant effects).agent.pace = _
    unfold Client.grantCreated
    dsimp only
    split
    · rcases @pace_startWorker os _ .granted with hkept | ⟨hstartup, _⟩
      · rw [hkept]
        exact hfinished
      · cases hstartup
    · exact hfinished
  | grantFailed stamp effects fault =>
    change (Agent.record os.first fault _).pace = _
    rw [pace_record]
    exact pace_finished stamp effects
  | cloudSignedOut stamp asked =>
    have hfinished := pace_finishCloudSignOut c.agent stamp
    change (c.cloudSignedOut os stamp asked).agent.pace = _
    unfold Client.cloudSignedOut Client.withAgent
    dsimp only
    split
    · exact hfinished
    · exact hfinished
  | _ => cases hterminal

/-- A result that is not current leaves the schedules. -/
theorem Shift.stale {ev : Event} {stamp : DiscoveryStamp} (hterminal : ev.terminalStamp = some stamp)
    (hstale : c.agent.discoveryIsCurrent stamp = false) :
    Shift os c (.apply ev) (c.rejectStaleTerminal os ev).agent.pace := by
  rw [pace_rejectStaleTerminal]
  refine .kept ?_ ?_ nofun
  · rintro stop ⟨stamp', injected, realm, effects, viaGrant, hact, hcurrent, _⟩
    cases hact
    cases hterminal
    rw [hstale] at hcurrent
    cases hcurrent
  · rintro fault trigger ⟨stamp', effects, hact, hcurrent⟩
    cases hact
    cases hterminal
    rw [hstale] at hcurrent
    cases hcurrent

/-- What an event does to the schedules. -/
theorem shift_applyEvent (ev : Event) : Shift os c (.apply ev) (c.applyEvent os ev).agent.pace := by
  have hterminal : ∀ stamp, ev.terminalStamp = some stamp →
      (c.agent.discoveryIsCurrent stamp = true → Shift os c (.apply ev)
        ((c.withAgent fun a => { a with discoveryEnded := true }).sharedEvent os ev).agent.pace) →
      Shift os c (.apply ev) (if c.agent.discoveryIsCurrent stamp then
        (c.withAgent fun a => { a with discoveryEnded := true }).sharedEvent os ev
        else c.rejectStaleTerminal os ev).agent.pace := by
    intro stamp hstamp hcurrent
    split
    · rename_i hyes
      exact hcurrent hyes
    · rename_i hno
      exact .stale hstamp (Bool.eq_false_of_not_eq_true hno)
  have hshared : ∀ stamp, ev.terminalStamp = some stamp → Calm (.apply ev) →
      Shift os c (.apply ev) (if c.agent.discoveryIsCurrent stamp then
        (c.withAgent fun a => { a with discoveryEnded := true }).sharedEvent os ev
        else c.rejectStaleTerminal os ev).agent.pace := by
    intro stamp hstamp hcalm
    exact hterminal stamp hstamp fun _ => .calm hcalm (pace_sharedEvent hstamp hcalm)
  cases ev with
  | current stamp => exact .calm trivial rfl
  | discovered stamp snapshot accepted => exact shift_discovered stamp snapshot accepted
  | discoveryFailed stamp =>
    refine .calm trivial ?_
    have hended := pace_endProbe os.first c.agent stamp.generation
    change (c.discoveryFailed os stamp).agent.pace = _
    unfold Client.discoveryFailed Client.withAgent
    dsimp only
    split
    · exact hended
    · exact hended
  | staleGrantCompensated stamp => exact .calm trivial (pace_finishBusy stamp true)
  | signedIn stamp injected realm effects viaGrant =>
    refine hterminal stamp rfl ?_
    intro hcurrent
    change Shift os c _ (Client.signedIn os stamp injected effects viaGrant _).agent.pace
    rw [pace_signedIn]
    exact .landed ⟨stamp, injected, realm, effects, viaGrant, rfl, hcurrent, rfl⟩
  | signInFailed stamp effects fault trigger =>
    refine hterminal stamp rfl ?_
    intro hcurrent
    exact .failed ⟨stamp, effects, rfl, hcurrent⟩ (failPace_signInFailed
      (c := c.withAgent fun a => { a with discoveryEnded := true }) stamp effects fault trigger)
  | cancelled stamp effects => exact hshared stamp rfl trivial
  | grantCreated stamp grant brokerUrl effects => exact hshared stamp rfl trivial
  | grantFailed stamp effects fault => exact hshared stamp rfl trivial
  | cloudSignedOut stamp asked => exact hshared stamp rfl trivial
  | elevatedFinished action outcome recheck =>
    change Shift os c _ (c.agent.elevated os action outcome recheck).pace
    rcases pace_elevated os c.agent action outcome recheck with hkept | hclosed
    · exact .calm trivial hkept
    · rw [hclosed]
      exact .repaired
  | brokerLookup generation url => exact shift_brokerLookup generation url
  | grantGivenUp generation broker revoked saved report =>
    exact .calm trivial (pace_grantGivenUp generation)
  | elevationGranted action => exact .calm trivial rfl

/-- **What a turn of the user thread does to the schedules**. -/
theorem shift_act (act : Act) : Shift os c act (c.act os act).agent.pace := by
  cases act with
  | command cmd => exact shift_command cmd
  | apply ev => exact shift_applyEvent ev

end Handlers

end Kerbridge.ClientAgent

import Kerbridge.AgentFrames

/-!
# The schedule of the ticket

A ticket that works has a re-injection pending before it ends, whatever becomes of the
attempts: what each verb of the agent does to the session, and from it an invariant of
every turn.
-/

namespace Kerbridge.ClientAgent

section Session

/-- What a schedule was laid from: the reading of the clock when it was set, or the start of
the adopted ticket when that is later. -/
def Session.base (s : Session) : ℤ :=
  if s.refreshAdopted then max s.refreshSetAt s.start else s.refreshSetAt

/-- A re-injection is pending, in time for the end of the ticket. -/
def Session.Due (s : Session) : Prop :=
  ∃ t, s.refreshAt = some t ∧ t ≤ max (s.stop - expiryGrace) (s.base + 1)

/-- A ticket is known that has not ended. -/
def Session.Live (now : ℤ) (s : Session) : Prop := now < s.stop ∧ s.principal ≠ ""

/-- The schedule covers the ticket. -/
structure Session.Covered (now : ℤ) (s : Session) : Prop where
  working : s.phase = .connected → s.Due
  signing : s.phase = .signingIn → s.Live now → s.Due
  expired : s.phase = .expired → s.refreshAt.isSome = true
  rest : s.phase ≠ .connected → s.phase ≠ .signingIn → ¬ s.Live now

variable {s : Session} {now : ℤ}

/-- A live ticket has a re-injection pending. -/
theorem Session.Covered.due (h : s.Covered now) (hlive : s.Live now) : s.Due := by
  by_cases hconnected : s.phase = .connected
  · exact h.working hconnected
  · by_cases hsigning : s.phase = .signingIn
    · exact h.signing hsigning hlive
    · exact absurd hlive (h.rest hconnected hsigning)

/-- Time goes by. -/
theorem Session.Covered.later {t : ℤ} (h : s.Covered now) (hle : now ≤ t) : s.Covered t where
  working := h.working
  signing hphase hlive := h.signing hphase ⟨lt_of_le_of_lt hle hlive.1, hlive.2⟩
  expired := h.expired
  rest hconnected hsigning hlive :=
    h.rest hconnected hsigning ⟨lt_of_le_of_lt hle hlive.1, hlive.2⟩

/-- A user's sign-in starts. The schedule stays. -/
theorem Session.Covered.signIn (h : s.Covered now) :
    ({ s with phase := .signingIn } : Session).Covered now where
  working hphase := by cases hphase
  signing _ hlive := h.due hlive
  expired hphase := by cases hphase
  rest _ hsigning := absurd rfl hsigning

/-- A session without a live ticket, in a phase that needs no schedule. -/
theorem Session.covered_dead (hconnected : s.phase ≠ .connected) (hexpired : s.phase ≠ .expired)
    (hdead : ¬ s.Live now) : s.Covered now where
  working hphase := absurd hphase hconnected
  signing _ hlive := absurd hlive hdead
  expired hphase := absurd hphase hexpired
  rest _ _ := hdead

/-- A session with a schedule that is in time. -/
theorem Session.covered_connected (hphase : s.phase = .connected) (hdue : s.Due) :
    s.Covered now where
  working _ := hdue
  signing _ _ := hdue
  expired hexpired := by rw [hphase] at hexpired; cases hexpired
  rest hconnected := absurd hphase hconnected

/-- A sign-in ends without a ticket of its own. -/
theorem Session.Covered.release (h : s.Covered now) {live : Bool}
    (hlive : live = true ↔ s.Live now) :
    ({ s with phase := if live then .connected else .signedOut } : Session).Covered now := by
  cases live with
  | true => exact Session.covered_connected rfl (h.due (hlive.mp rfl))
  | false =>
    refine Session.covered_dead ?_ ?_ fun hl => Bool.false_ne_true (hlive.mpr hl)
    · intro hphase
      cases hphase
    · intro hphase
      cases hphase

/-- The midpoint is in time. -/
theorem midpoint_le (os : Os) (now stop : ℤ) :
    midpoint os now stop ≤ max (stop - expiryGrace) (now + 1) :=
  max_le_max (min_le_right _ _) (le_refl _)

end Session

section Verbs

variable (os : Os) (now : ℤ) (a : Agent)

@[simp] theorem session_armProbe : (a.armProbe now).session = a.session :=
  congrArg Core.session (core_armProbe now a)

@[simp] theorem session_record (fault : Option Fault) :
    (a.record now fault).session = a.session :=
  congrArg Core.session (core_record now a fault)

@[simp] theorem session_started (action : Action) : (a.started action).session = a.session :=
  congrArg Core.session (core_started a action)

@[simp] theorem session_startedBusy (stamp : DiscoveryStamp) (action : Action) :
    (a.startedBusy stamp action).session = a.session := session_started a action

@[simp] theorem session_endProbe (generation : ℕ) :
    (a.endProbe now generation).1.session = a.session :=
  congrArg Core.session (core_endProbe now a generation)

@[simp] theorem session_beginProbe : (a.beginProbe now).1.session = a.session := by
  unfold Agent.beginProbe
  split
  · rfl
  · exact session_armProbe _ _

@[simp] theorem session_finishCloudSignOut (stamp : DiscoveryStamp) :
    (a.finishCloudSignOut stamp).session = a.session :=
  congrArg Core.session (core_finishCloudSignOut a stamp)

@[simp] theorem session_startedGrantCleanup :
    a.startedGrantCleanup.1.session = a.session :=
  congrArg Core.session (core_startedGrantCleanup a)

@[simp] theorem session_finishGrantCleanup (generation : ℕ) :
    (a.finishGrantCleanup generation).1.session = a.session :=
  congrArg Core.session (core_finishGrantCleanup a generation)

@[simp] theorem session_lossFailed (fault : Option Fault) :
    (a.lossFailed os now fault).session = a.session :=
  congrArg Core.session (core_lossFailed os now a fault)

@[simp] theorem session_lossObserved (supply : Bool) :
    (a.lossObserved os now supply).session = a.session :=
  congrArg Core.session (core_lossObserved os now a supply)

/-- Whether a ticket is held is whether it is live, in the two phases that hold one. -/
theorem holdsLiveTicket_iff :
    a.holdsLiveTicket now = true ↔
      (a.phase = .connected ∨ a.phase = .signingIn) ∧ a.session.Live now := by
  unfold Agent.holdsLiveTicket Session.Live Agent.session
  simp [and_assoc]

/-- A session that is reset is covered. -/
theorem covered_resetSession : a.resetSession.session.Covered now := by
  refine Session.covered_dead ?_ ?_ ?_
  · intro h
    cases h
  · intro h
    cases h
  · intro h
    exact h.2 rfl

/-- A document that is accepted keeps the session, or resets it. -/
theorem covered_replaceBrokerSnapshot {a : Agent} (stamp : DiscoveryStamp)
    (snapshot : BrokerSnapshot) (h : a.session.Covered now) :
    (a.replaceBrokerSnapshot os stamp snapshot).1.session.Covered now := by
  have hpublish : ∀ b : Agent, (b.publish os snapshot).session = b.session := fun _ => rfl
  have hfault : ∀ b : Agent,
      (if b.fault = some .network then b.record os.first none else b).session = b.session := by
    intro b
    split
    · exact session_record _ _ _
    · rfl
  unfold Agent.replaceBrokerSnapshot
  split
  · dsimp only
    change (Agent.session (if _ then _ else _)).Covered now
    rw [hfault, hpublish]
    split
    · exact covered_resetSession now _
    · exact h
  · exact h

/-- A ticket that is adopted is covered from its start on. -/
theorem covered_adoptExistingTicket {a : Agent} (h : a.session.Covered now)
    (hle : now ≤ os.second) :
    (a.adoptExistingTicket os).1.session.Covered os.second := by
  have hlater := h.later hle
  unfold Agent.adoptExistingTicket
  split
  · exact hlater
  · split
    · split
      · exact hlater
      · unfold Agent.adoptCachedTicket
        split
        · rename_i ticket _ _ _
          refine Session.covered_connected rfl ⟨_, rfl, ?_⟩
          have hmid := midpoint_le os (max ticket.start os.second) ticket.stop
          rw [max_comm ticket.start os.second] at hmid ⊢
          exact hmid
        · exact hlater
    · exact hlater

@[simp] theorem session_recordGrant (viaGrant : Option String) (principal : String) :
    (a.recordGrant os viaGrant principal).session = a.session :=
  congrArg Core.session (core_recordGrant os a viaGrant principal)

@[simp] theorem session_spendAuthorization : a.spendAuthorization.session = a.session :=
  congrArg Core.session (core_spendAuthorization a)

@[simp] theorem session_target (url : String) : (a.target os url).session = a.session :=
  congrArg Core.session (core_target os a url)

@[simp] theorem session_landedDocument (back : Bool) :
    (a.landedDocument os back).session = a.session :=
  congrArg Core.session (core_landedDocument os a back)

@[simp] theorem session_repaired (action : Action) (outcome : Outcome) :
    (a.repaired action outcome).session = a.session :=
  congrArg Core.session (core_repaired a action outcome)

@[simp] theorem session_elevated (action : Action) (outcome : Outcome) (recheck : Bool) :
    (a.elevated os action outcome recheck).session = a.session :=
  congrArg Core.session (core_elevated os a action outcome recheck)

@[simp] theorem session_retryLater (fault : Option Fault) (trigger : Trigger) :
    (a.retryLater os fault trigger).session = a.session :=
  congrArg Core.session (core_retryLater os a fault trigger)

/-- A sign-in that lands is covered. -/
theorem covered_land (injected : Injected) : (a.land os injected).session.Covered os.first :=
  Session.covered_connected rfl ⟨_, rfl, midpoint_le os os.first injected.stop⟩

variable {a}

/-- A sign-in that shows is covered. -/
theorem covered_signing (trigger : Trigger) (h : a.session.Covered now) :
    (a.signing trigger).session.Covered now := by
  unfold Agent.signing
  split
  · exact h
  · exact h.signIn

/-- A sign-in that is over leaves the schedule. -/
theorem covered_released (h : a.session.Covered now) : (a.released now).session.Covered now := by
  unfold Agent.released
  split
  · rename_i hphase
    refine Session.Covered.release h ?_
    rw [holdsLiveTicket_iff]
    constructor
    · exact fun hheld => hheld.2
    · exact fun hlive => ⟨Or.inr hphase, hlive⟩
  · exact h

/-- A failed sign-in leaves the schedule of a live ticket, or sets it earlier. -/
theorem covered_failedLive (fault : Option Fault) (fresh : Bool) (hdue : a.session.Due) :
    (a.failedLive os fault fresh).session.Covered os.third := by
  have hkept : Session.Covered os.third
      ({ a with phase := .connected, silentFailed := true } : Agent).session :=
    Session.covered_connected rfl hdue
  unfold Agent.failedLive
  dsimp only
  split
  · rw [session_lossFailed]
    exact hkept
  · split
    · refine Session.covered_connected rfl ⟨_, rfl, ?_⟩
      exact le_trans (min_le_right _ _) (midpoint_le os os.third a.stop)
    · exact hkept

/-- A failed sign-in without a live ticket needs no schedule. -/
theorem covered_failedDead (fault : Option Fault) (trigger : Trigger)
    (hdead : ¬ a.session.Live now) : (a.failedDead os fault trigger).session.Covered now := by
  unfold Agent.failedDead
  rw [session_retryLater]
  cases trigger.quiet with
  | true => exact Session.covered_dead (by simp [Agent.session]) (by simp [Agent.session]) hdead
  | false => exact Session.covered_dead (by simp [Agent.session]) (by simp [Agent.session]) hdead

/-- A failed sign-in keeps the schedule of a ticket that works. -/
theorem covered_signInFailed (fault : Option Fault) (trigger : Trigger)
    (h : a.session.Covered os.first) :
    (Agent.signInFailed os fault trigger a).session.Covered os.third := by
  have hrecord : (a.record os.first fault).session = a.session := session_record _ _ _
  unfold Agent.signInFailed
  dsimp only
  split
  · rename_i hlive
    rw [holdsLiveTicket_iff, hrecord] at hlive
    refine covered_failedLive os fault _ ?_
    rw [hrecord]
    exact (h.later os.ordered.1).due hlive.2
  · rename_i hdead
    rw [holdsLiveTicket_iff, hrecord] at hdead
    have hgone : ¬ (a.record os.first fault).session.Live os.second → Session.Covered os.second
        ((a.record os.first fault).failedDead os fault trigger).session :=
      covered_failedDead os os.second fault trigger
    refine (hgone ?_).later os.ordered.2
    rw [hrecord]
    intro hlive
    refine hdead ⟨?_, hlive⟩
    by_contra hphase
    rw [not_or] at hphase
    have hphases : a.phase ≠ .connected ∧ a.phase ≠ .signingIn := by
      have hsame : (a.record os.first fault).phase = a.phase := congrArg Session.phase hrecord
      rwa [hsame] at hphase
    exact (h.later os.ordered.1).rest hphases.1 hphases.2 hlive

end Verbs

section Ticking

variable {os : Os} {now : ℤ} {busy : Bool}

@[simp] theorem session_probing (a : Agent) :
    (Due.probing now busy a).agent.session = a.session :=
  congrArg Core.session (core_probing a)

variable {d : Due}

/-- A ticket that runs out leaves its schedule. -/
theorem covered_expiring (h : d.agent.session.Covered now) :
    (d.expiring now).agent.session.Covered now := by
  unfold Due.expiring
  split
  · rename_i hover
    obtain ⟨t, ht, _⟩ := h.working hover.1
    refine ⟨fun hphase => ?_, fun hphase => ?_, fun _ => ?_, fun _ _ hlive => ?_⟩
    · cases hphase
    · cases hphase
    · change d.agent.refreshAt.isSome = true
      change d.agent.refreshAt = some t at ht
      rw [ht]
      rfl
    · exact absurd hlive.1 (not_lt.mpr hover.2)
  · exact h

/-- An overdue re-injection is set again. -/
theorem covered_overdue (hexpired : d.agent.phase = .expired) (h : d.agent.session.Covered now) :
    (d.overdue now busy).agent.session.Covered now := by
  unfold Due.overdue
  split
  · split
    · refine ⟨fun hphase => ?_, fun hphase => ?_, fun _ => rfl, fun hconnected hsigning => ?_⟩
      · exact absurd (hexpired.symm.trans hphase) (by decide)
      · exact absurd (hexpired.symm.trans hphase) (by decide)
      · exact h.rest hconnected hsigning
    · exact h
  · exact h

@[simp] theorem session_retrying : (d.retrying now busy).agent.session = d.agent.session :=
  congrArg Core.session (core_retrying)

@[simp] theorem session_looking (refreshToken : Option String) :
    (d.looking os now busy refreshToken).1.agent.session = d.agent.session :=
  congrArg Core.session (core_looking refreshToken)

@[simp] theorem session_recovering (seen : Option (Option Bool)) :
    (d.recovering os now busy seen).agent.session = d.agent.session :=
  congrArg Core.session (core_recovering seen)

/-- A re-injection that is due is set again before the attempt. -/
theorem covered_refreshing (hconnected : d.agent.phase = .connected)
    (h : d.agent.session.Covered now) :
    (d.refreshing os now busy).agent.session.Covered now := by
  unfold Due.refreshing
  split
  · split
    · dsimp only
      split
      · exact Session.covered_connected hconnected ⟨_, rfl, midpoint_le os now d.agent.stop⟩
      · exact Session.covered_connected hconnected ⟨_, rfl, midpoint_le os now d.agent.stop⟩
    · exact h
  · exact h

@[simp] theorem session_escalating : (d.escalating now).agent.session = d.agent.session :=
  congrArg Core.session (core_escalating)

/-- A tick keeps the schedule. -/
theorem covered_tickAt {a : Agent} (refreshToken : Option String) (h : a.session.Covered now) :
    (tickAt os now busy refreshToken a).agent.session.Covered now := by
  have hexpiring : ((Due.probing now busy a).expiring now).agent.session.Covered now := by
    refine covered_expiring ?_
    rw [session_probing]
    exact h
  unfold tickAt
  dsimp only
  split
  · rename_i hexpired
    exact covered_overdue hexpired hexpiring
  · split
    · rw [session_retrying]
      exact hexpiring
    · rename_i hconnected
      rw [not_not] at hconnected
      rw [session_escalating]
      have hsame : ((((Due.probing now busy a).expiring now).looking os now busy
          refreshToken).1.recovering os now busy (((Due.probing now busy a).expiring now).looking os
            now busy refreshToken).2).agent.session =
          ((Due.probing now busy a).expiring now).agent.session := by
        rw [session_recovering, session_looking]
      refine covered_refreshing ?_ ?_
      · exact (congrArg Session.phase hsame).trans hconnected
      · rw [hsame]
        exact hexpiring

end Ticking

section Handlers

variable {os : Os} {now : ℤ} {c : Client}

/-- Releasing the slot keeps the schedule. -/
theorem covered_finishBusy (stamp : DiscoveryStamp) (stale : Bool)
    (h : c.agent.session.Covered os.first) :
    (c.finishBusy os stamp stale).agent.session.Covered os.first := by
  unfold Client.finishBusy
  split
  · split
    · dsimp only
      split
      · exact covered_released os.first h
      · exact h
    · exact h
  · exact h

@[simp] theorem session_applyEffects (effects : WorkerEffects) :
    (c.applyEffects os effects).agent.session = c.agent.session :=
  congrArg Core.session (core_applyEffects effects)

/-- Starting a worker keeps the schedule. -/
theorem covered_startWorker (trigger : Trigger) (h : c.agent.session.Covered now) :
    (c.startWorker os trigger).agent.session.Covered now := by
  unfold Client.startWorker
  split
  · split
    · exact h
    · exact h
  · split
    · exact h
    · unfold Agent.advanceDiscovery
      dsimp only
      cases c.agent.settings.brokerUrl with
      | none => exact h
      | some url =>
        refine covered_signing now trigger ?_
        rw [session_startedBusy]
        exact h

@[simp] theorem session_createGrant : c.createGrant.agent.session = c.agent.session := by
  unfold Client.createGrant
  split
  · rfl
  · unfold Agent.advanceDiscovery
    dsimp only
    cases c.agent.settings.brokerUrl with
    | none => rfl
    | some url => exact session_startedBusy _ _ _

@[simp] theorem session_giveUpCapturedGrant (broker : Option String) (grant : Grant)
    (saved report : Bool) :
    (c.giveUpCapturedGrant broker grant saved report).agent.session = c.agent.session :=
  congrArg Core.session (core_giveUpCapturedGrant broker grant saved report)

/-- A document keeps the schedule, or ends the session. -/
theorem covered_discovered (stamp : DiscoveryStamp) (snapshot : BrokerSnapshot)
    (accepted : Bool) (h : c.agent.session.Covered now) :
    (c.discovered os stamp snapshot accepted).agent.session.Covered now := by
  have hagent : ∀ a : Agent, a.session = c.agent.session →
      ∀ back, (if (a.replaceBrokerSnapshot os stamp snapshot).2 then
        (a.replaceBrokerSnapshot os stamp snapshot).1.landedDocument os back
        else (a.replaceBrokerSnapshot os stamp snapshot).1).session.Covered now := by
    intro a ha back
    have hreplaced := covered_replaceBrokerSnapshot os now stamp snapshot
      (show a.session.Covered now by rw [ha]; exact h)
    split
    · rw [session_landedDocument]
      exact hreplaced
    · exact hreplaced
  unfold Client.discovered
  cases accepted with
  | true => exact hagent c.agent rfl _
  | false => exact hagent _ (session_endProbe _ _ _) _

@[simp] theorem session_discoveryFailed (stamp : DiscoveryStamp) :
    (c.discoveryFailed os stamp).agent.session = c.agent.session :=
  congrArg Core.session (core_discoveryFailed stamp)

@[simp] theorem session_brokerLookup (generation : ℕ) (url : Option String) :
    (c.brokerLookup os generation url).agent.session = c.agent.session :=
  congrArg Core.session (core_brokerLookup generation url)

/-- A grant that was created keeps the schedule. -/
theorem covered_grantCreated (stamp : DiscoveryStamp) (grant : Grant) (effects : WorkerEffects)
    (h : c.agent.session.Covered os.first) :
    (c.grantCreated os stamp grant effects).agent.session.Covered os.first := by
  have hfinished := covered_finishBusy stamp false h
  have hsame : ((c.finishBusy os stamp false).applyEffects os effects).agent.session =
      (c.finishBusy os stamp false).agent.session := session_applyEffects effects
  rw [← hsame] at hfinished
  unfold Client.grantCreated
  dsimp only
  split
  · exact covered_startWorker .granted hfinished
  · exact hfinished

/-- A result that is refused as stale keeps the schedule. -/
theorem covered_rejectStaleTerminal (ev : Event) (h : c.agent.session.Covered os.first) :
    (c.rejectStaleTerminal os ev).agent.session.Covered os.first := by
  have hpurged : ∀ realm, (c.purgeRealm os realm).agent.session.Covered os.first := by
    intro realm
    rw [agent_purgeRealm]
    exact h
  cases ev with
  | signedIn stamp injected realm effects viaGrant =>
    exact covered_finishBusy stamp true (hpurged realm)
  | signInFailed stamp effects fault trigger =>
    change (Client.finishBusy os stamp true _).agent.session.Covered os.first
    refine covered_finishBusy stamp true ?_
    cases effects.injectionRealm with
    | none => exact h
    | some realm => exact hpurged realm
  | cancelled stamp effects => exact covered_finishBusy stamp true h
  | grantFailed stamp effects fault => exact covered_finishBusy stamp true h
  | cloudSignedOut stamp asked =>
    change (c.agent.finishCloudSignOut stamp).session.Covered os.first
    rw [session_finishCloudSignOut]
    exact h
  | _ => exact h

/-- A result that is accepted keeps the schedule, or lays one. -/
theorem covered_sharedEvent (ev : Event) (h : c.agent.session.Covered os.first) :
    (c.sharedEvent os ev).agent.session.Covered os.third := by
  have hthird := os.ordered.1.trans os.ordered.2
  have hreleased : ∀ stamp (effects : WorkerEffects),
      ((c.finishBusy os stamp false).applyEffects os effects).agent.session.Covered os.first := by
    intro stamp effects
    rw [session_applyEffects]
    exact covered_finishBusy stamp false h
  cases ev with
  | signedIn stamp injected realm effects viaGrant =>
    refine Session.Covered.later ?_ hthird
    change (Agent.expect os true _).session.Covered os.first
    rw [session_expect, session_spendAuthorization]
    exact covered_land os _ injected
  | signInFailed stamp effects fault trigger =>
    exact covered_signInFailed os fault trigger (hreleased stamp effects)
  | cancelled stamp effects =>
    exact (covered_released os.first (hreleased stamp effects)).later hthird
  | brokerLookup generation url =>
    change (c.brokerLookup os generation url).agent.session.Covered os.third
    rw [session_brokerLookup]
    exact h.later hthird
  | grantCreated stamp grant brokerUrl effects =>
    exact (covered_grantCreated stamp grant effects h).later hthird
  | grantFailed stamp effects fault =>
    change (Agent.record os.first fault _).session.Covered os.third
    rw [session_record]
    exact (hreleased stamp effects).later hthird
  | cloudSignedOut stamp asked =>
    have hfinished : (c.cloudSignedOut os stamp asked).agent.session = c.agent.session := by
      unfold Client.cloudSignedOut Client.withAgent
      dsimp only
      split
      · exact session_finishCloudSignOut _ _
      · exact session_finishCloudSignOut _ _
    change (c.cloudSignedOut os stamp asked).agent.session.Covered os.third
    rw [hfinished]
    exact h.later hthird
  | grantGivenUp generation broker revoked saved report =>
    have hfinished : (c.grantGivenUp generation).agent.session = c.agent.session := by
      unfold Client.grantGivenUp Agent.finishGrantCleanup
      split
      · rename_i heq
        split at heq
        · cases heq
          rfl
        · cases heq
      · rfl
    change (c.grantGivenUp generation).agent.session.Covered os.third
    rw [hfinished]
    exact h.later hthird
  | elevatedFinished action outcome recheck =>
    change (c.agent.elevated os action outcome recheck).session.Covered os.third
    rw [session_elevated]
    exact h.later hthird
  | _ => exact h.later hthird

/-- An event of any kind keeps the schedule. -/
theorem covered_applyEvent (ev : Event) (h : c.agent.session.Covered os.first) :
    (c.applyEvent os ev).agent.session.Covered os.third := by
  have hthird := os.ordered.1.trans os.ordered.2
  have hterminal : ∀ stamp, (if c.agent.discoveryIsCurrent stamp then
      (c.withAgent fun a => { a with discoveryEnded := true }).sharedEvent os ev
      else c.rejectStaleTerminal os ev).agent.session.Covered os.third := by
    intro stamp
    split
    · exact covered_sharedEvent ev h
    · exact (covered_rejectStaleTerminal ev h).later hthird
  cases ev with
  | current stamp => exact h.later hthird
  | discovered stamp snapshot accepted =>
    exact (covered_discovered stamp snapshot accepted h).later hthird
  | discoveryFailed stamp =>
    change (c.discoveryFailed os stamp).agent.session.Covered os.third
    rw [session_discoveryFailed]
    exact h.later hthird
  | staleGrantCompensated stamp => exact (covered_finishBusy stamp true h).later hthird
  | signedIn stamp injected realm effects viaGrant => exact hterminal stamp
  | signInFailed stamp effects fault trigger => exact hterminal stamp
  | cancelled stamp effects => exact hterminal stamp
  | grantCreated stamp grant brokerUrl effects => exact hterminal stamp
  | grantFailed stamp effects fault => exact hterminal stamp
  | cloudSignedOut stamp asked => exact hterminal stamp
  | elevatedFinished action outcome recheck =>
    exact covered_sharedEvent (.elevatedFinished action outcome recheck) h
  | brokerLookup generation url => exact covered_sharedEvent (.brokerLookup generation url) h
  | grantGivenUp generation broker revoked saved report =>
    exact covered_sharedEvent (.grantGivenUp generation broker revoked saved report) h
  | elevationGranted action => exact h.later hthird

@[simp] theorem session_discoverInBackground :
    (c.discoverInBackground now).agent.session = c.agent.session := by
  have hbegun := session_beginProbe now c.agent
  unfold Client.discoverInBackground
  split
  · rename_i heq
    rw [heq] at hbegun
    exact hbegun
  · rename_i heq
    rw [heq] at hbegun
    exact hbegun

/-- Starting what is due keeps the schedule. -/
theorem covered_startDue (start : Option Trigger) (h : c.agent.session.Covered now) :
    (c.startDue os start).agent.session.Covered now := by
  cases start with
  | none => exact h
  | some trigger => exact covered_startWorker trigger h

@[simp] theorem session_probeDue (due : Bool) :
    (c.probeDue now due).agent.session = c.agent.session := by
  unfold Client.probeDue
  split
  · exact session_discoverInBackground
  · rfl

/-- A tick keeps the schedule. -/
theorem covered_tick (h : c.agent.session.Covered os.first) :
    (c.tick os).agent.session.Covered os.first := by
  unfold Client.tick
  dsimp only
  rw [session_probeDue]
  exact covered_startDue _ (covered_tickAt c.refreshToken h)

/-- A retarget ends the session, or does nothing. -/
theorem covered_retarget (oldBroker brokerUrl : Option String)
    (h : c.agent.session.Covered now) :
    (c.retarget os oldBroker brokerUrl).1.agent.session.Covered now := by
  unfold Client.retarget
  dsimp only
  split
  · exact h
  · split
    · exact covered_resetSession now _
    · dsimp only
      rw [session_giveUpCapturedGrant]
      exact covered_resetSession now _

/-- The settings sheet keeps the schedule, or ends the session. -/
theorem covered_applySettings (change : SettingsChange) (h : c.agent.session.Covered now) :
    (c.applySettings os change).agent.session.Covered now := by
  have hbroker : (c.applyBrokerUrl os change.brokerUrl).1.agent.session.Covered now := by
    unfold Client.applyBrokerUrl
    split
    · exact h
    · split
      · exact h
      · dsimp only
        split
        · exact h
        · rename_i url _ _ _
          have hretarget : ∀ old, Session.Covered now
              (c.retarget os old (typedBrokerUrl url)).1.agent.session :=
            fun old => covered_retarget old (typedBrokerUrl url) h
          have hdone : ∀ old d done, c.retarget os old (typedBrokerUrl url) = (d, done) →
              Session.Covered now d.agent.session := by
            intro old d done heq
            have hd := hretarget old
            rw [heq] at hd
            exact hd
          split
          · rename_i heq
            have hd := hdone _ _ _ heq
            exact hd
          · rename_i heq
            have hd := hdone _ _ _ heq
            exact hd
  exact hbroker

/-- A command keeps the schedule. -/
theorem covered_command (cmd : Command) (h : c.agent.session.Covered os.first) :
    (c.command os cmd).agent.session.Covered os.first := by
  cases cmd with
  | tick => exact covered_tick h
  | signIn =>
    change (Client.signIn os c).agent.session.Covered os.first
    unfold Client.signIn
    dsimp only
    split
    · rw [session_createGrant]
      exact h
    · exact covered_startWorker .user h
  | renewNow => exact covered_startWorker .renewal h
  | autostartSignIn =>
    change (Client.autostartSignIn os c).agent.session.Covered os.first
    unfold Client.autostartSignIn
    dsimp only
    split
    · exact covered_startWorker .startup h
    · exact h
  | cancelSignIn => exact h
  | dropTicket =>
    have hreset := covered_resetSession os.first (c.purgeRealm os c.agent.kerberos.realm).agent
    change (Client.dropTicket os c).agent.session.Covered os.first
    unfold Client.dropTicket Client.withAgent
    dsimp only
    split
    · exact hreset
    · rw [session_record]
      exact hreset
  | signOutIdp =>
    change c.beginCloudSignOut.agent.session.Covered os.first
    unfold Client.beginCloudSignOut Agent.advanceDiscovery
    split
    · exact h
    · dsimp only
      cases c.agent.settings.brokerUrl with
      | none => exact h
      | some url =>
        change (Agent.started .signOutIdp _).session.Covered os.first
        rw [session_started]
        exact h
  | giveUpGrantNow =>
    change (c.giveUpGrant os c.agent.settings.brokerUrl).agent.session.Covered os.first
    unfold Client.giveUpGrant
    split
    · exact h
    · dsimp only
      split
      · exact h
      · rw [session_giveUpCapturedGrant]
        exact h
  | createGrant =>
    change c.createGrant.agent.session.Covered os.first
    rw [session_createGrant]
    exact h
  | statusClosed => exact h
  | applySettings change => exact covered_applySettings change h
  | elevate action =>
    have hspawned : ∀ recheck, (c.spawnElevated recheck action).agent.session.Covered os.first := by
      intro recheck
      unfold Client.spawnElevated
      split
      · exact h
      · rw [show ({ c with
          agent := c.agent.started action
          busy := true
          threads := c.threads ++ [.elevated action recheck]
          slot := .took (.elevated action) :: c.slot } : Client).agent =
            c.agent.started action from rfl, session_started]
        exact h
    change (if _ then c.spawnElevated _ action else c).agent.session.Covered os.first
    split
    · exact hspawned _
    · exact h

/-- A live ticket that is adopted at the start is covered. -/
theorem covered_init (settings : Settings) :
    (Client.init os settings).agent.session.Covered os.third := by
  have hnew : (Agent.new os
      (settings.enforceAutostart os.autostart os.written)).session.Covered os.second := by
    refine Session.covered_dead ?_ ?_ ?_
    · intro hphase
      cases hphase
    · intro hphase
      cases hphase
    · exact fun hlive => hlive.2 rfl
  have hadopted := (covered_adoptExistingTicket os os.second hnew (le_refl _)).later os.ordered.2
  change (Client.probeDue os.third true _).agent.session.Covered os.third
  rw [session_probeDue]
  exact covered_startDue _ hadopted

end Handlers

section Turns

/-- The states that turns of the user thread reach, whatever events are applied in whatever
order, and whatever the other threads and other processes do meanwhile. -/
inductive Turned : Client → Prop
  | start (os : Os) (settings : Settings) : Turned (Client.init os settings)
  | command {c : Client} (h : Turned c) (os : Os) (hclock : c.clock ≤ os.first)
      (cmd : Command) : Turned ((c.command os cmd).settle os)
  | apply {c : Client} (h : Turned c) (os : Os) (hclock : c.clock ≤ os.first) (ev : Event) :
      Turned ((c.applyEvent os ev).settle os)
  | beside {c : Client} (h : Turned c) (disk : Disk) (cache : List Ticket)
      (threads : List Thread) (events : List Event)
      (revocations : List (Option String × Grant)) :
      Turned { c with
        agent := { c.agent with settings := { c.agent.settings with disk := disk } }
        cache := cache
        threads := threads
        events := events
        revocations := revocations }

/-- The steps of the agent with its threads are such turns. -/
theorem Reachable.turned {c : Client} (h : Reachable c) : Turned c := by
  induction h with
  | start os settings => exact .start os settings
  | step hc hstep ih =>
    cases hstep with
    | command os hclock cmd => exact ih.command os hclock cmd
    | deliver os hclock hev =>
      rename_i c before after ev
      exact (ih.beside c.agent.settings.disk c.cache c.threads (before ++ after)
        c.revocations).apply os hclock ev
    | thread ht hmoves =>
      rename_i c before after t t' ev cache given
      exact ih.beside c.agent.settings.disk cache (before ++ t'.toList ++ after)
        (c.events ++ ev.toList) (given.toList ++ c.revocations)
    | rewrite disk =>
      rename_i c
      exact ih.beside disk c.cache c.threads c.events c.revocations

/-- In every state that is reached the schedule covers the ticket. -/
theorem Turned.covered {c : Client} (h : Turned c) : c.agent.session.Covered c.clock := by
  induction h with
  | start os settings => exact covered_init settings
  | command hc os hclock cmd ih =>
    exact (covered_command cmd (ih.later hclock)).later (os.ordered.1.trans os.ordered.2)
  | apply hc os hclock ev ih => exact covered_applyEvent ev (ih.later hclock)
  | beside hc disk cache threads events revocations ih => exact ih

end Turns

section Attempts

/-- A ticket is held that has not ended. -/
def Session.Held (t : ℤ) (s : Session) : Prop :=
  (s.phase = .connected ∨ s.phase = .signingIn) ∧ s.Live t

variable {os : Os} {now t : ℤ} {a : Agent} {c : Client}

/-- A ticket that is live later is live now. -/
theorem Session.Live.earlier {s : Session} (h : s.Live t) (hle : now ≤ t) : s.Live now :=
  ⟨lt_of_le_of_lt hle h.1, h.2⟩

/-- A sign-in that is over leaves a live ticket. -/
theorem held_released (h : a.session.Held t) (hle : now ≤ t) :
    (a.released now).session.Held t := by
  unfold Agent.released
  split
  · rename_i hphase
    have hheld : a.holdsLiveTicket now = true :=
      (holdsLiveTicket_iff now a).mpr ⟨Or.inr hphase, h.2.earlier hle⟩
    rw [hheld]
    exact ⟨Or.inl rfl, h.2⟩
  · exact h

/-- Releasing the slot leaves a live ticket. -/
theorem held_finishBusy (stamp : DiscoveryStamp) (stale : Bool)
    (h : c.agent.session.Held t) (hle : os.first ≤ t) :
    (c.finishBusy os stamp stale).agent.session.Held t := by
  unfold Client.finishBusy
  split
  · split
    · dsimp only
      split
      · exact held_released h hle
      · exact h
    · exact h
  · exact h

/-- A failed sign-in leaves a live ticket. -/
theorem held_signInFailed (fault : Option Fault) (trigger : Trigger)
    (h : a.session.Held os.third) :
    (Agent.signInFailed os fault trigger a).session.Held os.third := by
  have hrecord : (a.record os.first fault).session = a.session := session_record _ _ _
  have hheld : (a.record os.first fault).holdsLiveTicket os.second = true := by
    rw [holdsLiveTicket_iff, hrecord]
    have hphase := congrArg Session.phase hrecord
    change (a.record os.first fault).phase = a.phase at hphase
    rw [hphase]
    exact ⟨h.1, h.2.earlier os.ordered.2⟩
  have hlive : (a.record os.first fault).session.Live os.third := by
    rw [hrecord]
    exact h.2
  unfold Agent.signInFailed Agent.failedLive
  dsimp only
  rw [if_pos hheld]
  split
  · rw [session_lossFailed]
    exact ⟨Or.inl rfl, hlive⟩
  · split
    · exact ⟨Or.inl rfl, hlive⟩
    · exact ⟨Or.inl rfl, hlive⟩

/-- An attempt that brings no ticket: it failed, it was cancelled, or it is stale. -/
def Event.Fruitless (ev : Event) (a : Agent) : Prop :=
  match ev with
  | .signInFailed _ _ _ _ => True
  | .cancelled _ _ => True
  | .grantFailed _ _ _ => True
  | _ => ∃ stamp, ev.terminalStamp = some stamp ∧ a.discoveryIsCurrent stamp = false

/-- A result that is refused as stale leaves a live ticket. -/
theorem held_rejectStaleTerminal (ev : Event) (h : c.agent.session.Held t)
    (hle : os.first ≤ t) : (c.rejectStaleTerminal os ev).agent.session.Held t := by
  have hpurged : ∀ realm, (c.purgeRealm os realm).agent.session.Held t := by
    intro realm
    rw [agent_purgeRealm]
    exact h
  cases ev with
  | signedIn stamp injected realm effects viaGrant =>
    exact held_finishBusy stamp true (hpurged realm) hle
  | signInFailed stamp effects fault trigger =>
    change (Client.finishBusy os stamp true _).agent.session.Held t
    refine held_finishBusy stamp true ?_ hle
    cases effects.injectionRealm with
    | none => exact h
    | some realm => exact hpurged realm
  | cancelled stamp effects => exact held_finishBusy stamp true h hle
  | grantFailed stamp effects fault => exact held_finishBusy stamp true h hle
  | cloudSignedOut stamp asked =>
    change (c.agent.finishCloudSignOut stamp).session.Held t
    rw [session_finishCloudSignOut]
    exact h
  | _ => exact h

/-- An attempt that brings no ticket leaves a live one. -/
theorem held_fruitless {ev : Event} (hfruitless : ev.Fruitless c.agent)
    (h : c.agent.session.Held os.third) :
    (c.applyEvent os ev).agent.session.Held os.third := by
  have hfirst := os.ordered.1.trans os.ordered.2
  have hreleased : ∀ stamp (effects : WorkerEffects),
      (((c.withAgent fun a => { a with discoveryEnded := true }).finishBusy os stamp
        false).applyEffects os effects).agent.session.Held os.third := by
    intro stamp effects
    rw [session_applyEffects]
    exact held_finishBusy stamp false h hfirst
  have hterminal : ∀ stamp,
      (c.agent.discoveryIsCurrent stamp = true → ((c.withAgent fun a =>
        { a with discoveryEnded := true }).sharedEvent os ev).agent.session.Held os.third) →
      (if c.agent.discoveryIsCurrent stamp then
        (c.withAgent fun a => { a with discoveryEnded := true }).sharedEvent os ev
        else c.rejectStaleTerminal os ev).agent.session.Held os.third := by
    intro stamp hcurrent
    split
    · rename_i hyes
      exact hcurrent hyes
    · exact held_rejectStaleTerminal ev h hfirst
  have hstale : ∀ stamp, c.agent.discoveryIsCurrent stamp = false →
      (if c.agent.discoveryIsCurrent stamp then
        (c.withAgent fun a => { a with discoveryEnded := true }).sharedEvent os ev
        else c.rejectStaleTerminal os ev).agent.session.Held os.third := by
    intro stamp hno
    refine hterminal stamp fun hyes => ?_
    rw [hno] at hyes
    cases hyes
  cases ev with
  | signInFailed stamp effects fault trigger =>
    exact hterminal stamp fun _ => held_signInFailed fault trigger (hreleased stamp effects)
  | cancelled stamp effects =>
    exact hterminal stamp fun _ => held_released (hreleased stamp effects) hfirst
  | grantFailed stamp effects fault =>
    refine hterminal stamp fun _ => ?_
    change (Agent.record os.first fault _).session.Held os.third
    rw [session_record]
    exact hreleased stamp effects
  | signedIn stamp injected realm effects viaGrant =>
    obtain ⟨_, hsome, hno⟩ := hfruitless
    cases hsome
    exact hstale stamp hno
  | grantCreated stamp grant brokerUrl effects =>
    obtain ⟨_, hsome, hno⟩ := hfruitless
    cases hsome
    exact hstale stamp hno
  | cloudSignedOut stamp asked =>
    obtain ⟨_, hsome, hno⟩ := hfruitless
    cases hsome
    exact hstale stamp hno
  | elevatedFinished action outcome recheck =>
    obtain ⟨_, hnone, _⟩ := hfruitless
    cases hnone
  | brokerLookup generation url =>
    obtain ⟨_, hnone, _⟩ := hfruitless
    cases hnone
  | discovered stamp snapshot accepted =>
    obtain ⟨_, hnone, _⟩ := hfruitless
    cases hnone
  | discoveryFailed stamp =>
    obtain ⟨_, hnone, _⟩ := hfruitless
    cases hnone
  | current stamp =>
    obtain ⟨_, hnone, _⟩ := hfruitless
    cases hnone
  | staleGrantCompensated stamp =>
    obtain ⟨_, hnone, _⟩ := hfruitless
    cases hnone
  | grantGivenUp generation broker revoked saved report =>
    obtain ⟨_, hnone, _⟩ := hfruitless
    cases hnone
  | elevationGranted action =>
    obtain ⟨_, hnone, _⟩ := hfruitless
    cases hnone

end Attempts

/-- In every state that turns reach, whatever events they apply: a connected agent has a
re-injection pending in time, counted from the reading of the clock that set it, or from the
start of an adopted ticket; an expired one has one pending; otherwise no ticket is live. An
attempt that brings no ticket leaves a live one, with its re-injection. -/
theorem schedule_covers {c : Client} (h : Turned c) :
    (c.agent.phase = .connected → ∃ t, c.agent.refreshAt = some t ∧
      t ≤ max (c.agent.stop - expiryGrace) (c.agent.session.base + 1)) ∧
    (c.agent.phase = .expired → c.agent.refreshAt.isSome = true) ∧
    (c.agent.phase ≠ .connected → c.agent.phase ≠ .signingIn →
      ¬ (c.clock < c.agent.stop ∧ c.agent.principal ≠ "")) ∧
    ∀ (os : Os) (ev : Event), c.clock ≤ os.first → ev.Fruitless c.agent →
      c.agent.holdsLiveTicket os.third = true →
      (c.applyEvent os ev).agent.holdsLiveTicket os.third = true ∧
        (c.applyEvent os ev).agent.session.Due := by
  have hcovered := h.covered
  refine ⟨hcovered.working, hcovered.expired, hcovered.rest, ?_⟩
  intro os ev hclock hfruitless hlive
  rw [holdsLiveTicket_iff] at hlive ⊢
  have hheld := held_fruitless hfruitless hlive
  exact ⟨hheld, (h.apply os hclock ev).covered.due hheld.2⟩

section Sample

/-- The rule at the start of an agent that finds a ticket. -/
theorem schedule_covers_adopted :
    ∃ t, (Client.init (sampleOs 0 (some ⟨"anna@EXAMPLE.SITE", 0, 1000, 0⟩))
      sampleSettings).agent.refreshAt = some t ∧ t ≤ 970 :=
  (schedule_covers (Turned.start (sampleOs 0 (some ⟨"anna@EXAMPLE.SITE", 0, 1000, 0⟩))
    sampleSettings)).1 (by decide)

/-- A ticket that starts after it is adopted is scheduled from its start: later than one
second after the adoption, and closer to its end than the grace. -/
theorem adopted_ahead :
    let c := Client.init (sampleOs 0 (some ⟨"anna@EXAMPLE.SITE", 100, 120, 0⟩)) sampleSettings
    Reachable c ∧ c.agent.phase = .connected ∧
      ¬ ∃ t, c.agent.refreshAt = some t ∧
        t ≤ max (c.agent.stop - expiryGrace) (c.agent.refreshSetAt + 1) := by
  refine ⟨Reachable.start _ _, by decide, ?_⟩
  rintro ⟨t, ht, hle⟩
  have hsome : (Client.init (sampleOs 0 (some ⟨"anna@EXAMPLE.SITE", 100, 120, 0⟩))
      sampleSettings).agent.refreshAt = some 101 := by decide
  rw [hsome] at ht
  cases ht
  revert hle
  decide

end Sample

end Kerbridge.ClientAgent

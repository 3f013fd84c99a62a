import Kerbridge.AgentThreads

/-!
# What the agent's verbs leave alone

The state of an agent in two parts: the session with its schedule, and the ledger with
the slot, the newest request and what the broker published. Most verbs touch neither,
and the others only one of them.
-/

namespace Kerbridge.ClientAgent

/-- The ticket, and its schedule. -/
structure Session where
  phase : Phase
  principal : String
  start : ℤ
  stop : ℤ
  refreshAt : Option ℤ
  refreshSetAt : ℤ
  refreshAdopted : Bool

/-- What a broker published. -/
structure Published where
  kerberos : Kerberos
  deviceGrant : DeviceGrantConfig
  defaults : Option Defaults
  helpUrl : Option String
  idpName : String
  source : String
  deriving DecidableEq

/-- Who holds the slot, the newest request, what the broker published, and what the agent
recorded as expected. -/
structure Ledger where
  operation : Option BusyOperation
  generation : ℕ
  published : Published
  expectations : List String

/-- Both parts. -/
structure Core where
  session : Session
  ledger : Ledger

/-- The session of an agent. -/
def Agent.session (a : Agent) : Session :=
  ⟨a.phase, a.principal, a.start, a.stop, a.refreshAt, a.refreshSetAt, a.refreshAdopted⟩

/-- What an agent has of the broker. -/
def Agent.published (a : Agent) : Published :=
  ⟨a.kerberos, a.deviceGrant, a.settings.defaults, a.helpUrl, a.idpName, a.source⟩

/-- The ledger of an agent. -/
def Agent.ledger (a : Agent) : Ledger :=
  ⟨a.busyOperation, a.discoveryGeneration, a.published, a.expectations⟩

/-- Both parts of an agent. -/
def Agent.core (a : Agent) : Core := ⟨a.session, a.ledger⟩

/-- What a document publishes. -/
def BrokerSnapshot.published (s : BrokerSnapshot) : Published :=
  ⟨s.kerberos, s.deviceGrant, some s.defaults, s.helpUrl, s.idpName, s.source⟩

/-- Nothing is published. -/
def Published.nothing : Published := ⟨.unknown, .off, none, none, "", ""⟩

section Settings

variable {written : FileConfig → Bool} {change : FileConfig → FileConfig}

/-- An update leaves what a document supplied. -/
@[simp] theorem Settings.update_defaults (s : Settings) :
    (s.update written change).1.defaults = s.defaults := (Settings.update_layers s).2.2

/-- Making the autostart entry agree leaves it too. -/
@[simp] theorem Settings.enforceAutostart_defaults (entry : AutostartEntry) (s : Settings) :
    (s.enforceAutostart entry written).defaults = s.defaults := by
  unfold Settings.enforceAutostart
  split
  · rfl
  · rfl
  · split
    · rfl
    · split
      · rfl
      · split
        · rfl
        · exact Settings.update_defaults s

end Settings

section Verbs

variable (os : Os) (now : ℤ) (a : Agent)

/-- Settings with the same defaults leave both parts. -/
theorem core_settings {a : Agent} {settings : Settings}
    (h : settings.defaults = a.settings.defaults) :
    ({ a with settings := settings } : Agent).core = a.core := by
  unfold Agent.core Agent.ledger Agent.published
  rw [h]
  rfl

/-- What is remembered is entered. -/
theorem core_expect (on : Bool) :
    (a.expect os on).core = { a.core with ledger := { a.ledger with
      expectations := (if on then a.scope else none).toList ++ a.expectations } } := by
  unfold Agent.expect Agent.core Agent.ledger Agent.published
  dsimp only
  rw [Settings.update_defaults]
  rfl

@[simp] theorem session_expect (on : Bool) : (a.expect os on).session = a.session := rfl

@[simp] theorem core_armProbe : (a.armProbe now).core = a.core := by
  unfold Agent.armProbe
  cases a.probeAt with
  | none => rfl
  | some t => rfl

@[simp] theorem core_record (fault : Option Fault) : (a.record now fault).core = a.core := by
  unfold Agent.record
  dsimp only
  split
  · rw [core_armProbe]
    split
    · rfl
    · rfl
  · rfl

@[simp] theorem core_started (action : Action) : (a.started action).core = a.core := by
  unfold Agent.started
  split
  · rfl
  · rfl

/-- An operation is entered under its stamp. -/
theorem core_startedBusy (stamp : DiscoveryStamp) (action : Action) :
    (a.startedBusy stamp action).core =
      { a.core with ledger := { a.ledger with operation := some ⟨stamp, action⟩ } } := by
  have hstarted := core_started a action
  have hsession : (a.started action).session = a.session := congrArg Core.session hstarted
  have hledger : (a.started action).ledger = a.ledger := congrArg Core.ledger hstarted
  change Core.mk (a.started action).session
    { (a.started action).ledger with operation := some ⟨stamp, action⟩ } = _
  rw [hsession, hledger]
  rfl

@[simp] theorem core_endProbe (generation : ℕ) :
    (a.endProbe now generation).1.core = a.core := by
  unfold Agent.endProbe
  split
  · rfl
  · rfl

/-- A probe takes the newest request, unless there is none to start. -/
theorem core_beginProbe :
    (a.beginProbe now).1.core = a.core ∨ (a.beginProbe now).1.core =
      { a.core with ledger := { a.ledger with generation := a.discoveryGeneration + 1 } } := by
  unfold Agent.beginProbe
  split
  · exact Or.inl rfl
  · right
    change (Agent.armProbe now _).core = _
    rw [core_armProbe]
    rfl

@[simp] theorem core_finishCloudSignOut (stamp : DiscoveryStamp) :
    (a.finishCloudSignOut stamp).core = a.core := by
  unfold Agent.finishCloudSignOut
  split
  · rfl
  · rfl

@[simp] theorem core_startedGrantCleanup : a.startedGrantCleanup.1.core = a.core :=
  core_started _ _

@[simp] theorem core_finishGrantCleanup (generation : ℕ) :
    (a.finishGrantCleanup generation).1.core = a.core := by
  unfold Agent.finishGrantCleanup
  split
  · rfl
  · rfl

@[simp] theorem core_lossFailed (fault : Option Fault) :
    (a.lossFailed os now fault).core = a.core := by
  unfold Agent.lossFailed
  dsimp only
  split
  · split
    · rfl
    · rfl
  · split
    · rfl
    · rfl
  · rfl
  · rfl
  · rfl

@[simp] theorem core_lossObserved (supply : Bool) :
    (a.lossObserved os now supply).core = a.core := by
  unfold Agent.lossObserved
  dsimp only
  split
  · rfl
  · split
    · rfl
    · rfl

@[simp] theorem core_recordGrant (viaGrant : Option String) (principal : String) :
    (a.recordGrant os viaGrant principal).core = a.core := by
  cases viaGrant with
  | none => rfl
  | some grantId => exact core_settings (Settings.update_defaults _)

@[simp] theorem core_spendAuthorization : a.spendAuthorization.core = a.core := by
  unfold Agent.spendAuthorization
  split
  · rfl
  · rfl

@[simp] theorem core_target (url : String) : (a.target os url).core = a.core := by
  unfold Agent.target
  dsimp only
  split
  · rfl
  · rfl

@[simp] theorem core_landedDocument (back : Bool) :
    (a.landedDocument os back).core = a.core := by
  have hsettings : ({ a with
      settings := a.settings.enforceAutostart os.autostart os.written } : Agent).core = a.core :=
    core_settings (Settings.enforceAutostart_defaults _ _)
  unfold Agent.landedDocument
  dsimp only
  split
  · exact hsettings
  · exact hsettings

@[simp] theorem core_repaired (action : Action) (outcome : Outcome) :
    (a.repaired action outcome).core = a.core := by
  unfold Agent.repaired
  split
  · rfl
  · rfl

@[simp] theorem core_elevated (action : Action) (outcome : Outcome) (recheck : Bool) :
    (a.elevated os action outcome recheck).core = a.core := by
  unfold Agent.elevated
  dsimp only
  split
  · rw [core_record, core_repaired]
    rfl
  · rw [core_repaired]
    rfl

@[simp] theorem core_retryLater (fault : Option Fault) (trigger : Trigger) :
    (a.retryLater os fault trigger).core = a.core := by
  unfold Agent.retryLater
  split
  · rfl
  · split
    · rfl
    · rfl

@[simp] theorem ledger_signing (trigger : Trigger) : (a.signing trigger).ledger = a.ledger := by
  unfold Agent.signing
  split
  · rfl
  · rfl

@[simp] theorem ledger_released : (a.released now).ledger = a.ledger := by
  unfold Agent.released
  split
  · rfl
  · rfl

@[simp] theorem ledger_land (injected : Injected) : (a.land os injected).ledger = a.ledger := rfl

@[simp] theorem ledger_signInFailed (fault : Option Fault) (trigger : Trigger) :
    (Agent.signInFailed os fault trigger a).ledger = a.ledger := by
  have hrecord : (a.record os.first fault).ledger = a.ledger :=
    congrArg Core.ledger (core_record os.first a fault)
  have hlive : ∀ (b : Agent) fresh, (b.failedLive os fault fresh).ledger = b.ledger := by
    intro b fresh
    unfold Agent.failedLive
    dsimp only
    split
    · exact congrArg Core.ledger (core_lossFailed os os.third _ fault)
    · split
      · rfl
      · rfl
  have hdead : ∀ b : Agent, (b.failedDead os fault trigger).ledger = b.ledger :=
    fun b => congrArg Core.ledger (core_retryLater os _ fault trigger)
  unfold Agent.signInFailed
  dsimp only
  split
  · rw [hlive, hrecord]
  · rw [hdead, hrecord]

end Verbs

section Ticking

variable {os : Os} {now : ℤ} {busy : Bool}

@[simp] theorem core_probing (a : Agent) : (Due.probing now busy a).agent.core = a.core := by
  unfold Due.probing
  split
  · split
    · rfl
    · rfl
  · rfl

variable {d : Due}

@[simp] theorem ledger_expiring : (d.expiring now).agent.ledger = d.agent.ledger := by
  unfold Due.expiring
  split
  · rfl
  · rfl

@[simp] theorem ledger_overdue : (d.overdue now busy).agent.ledger = d.agent.ledger := by
  unfold Due.overdue
  split
  · split
    · rfl
    · rfl
  · rfl

@[simp] theorem core_retrying : (d.retrying now busy).agent.core = d.agent.core := by
  unfold Due.retrying
  split
  · split
    · rfl
    · rfl
  · rfl

@[simp] theorem core_looking (refreshToken : Option String) :
    (d.looking os now busy refreshToken).1.agent.core = d.agent.core := by
  unfold Due.looking
  dsimp only
  split
  · dsimp only
    split
    · rw [core_lossObserved]
      rfl
    · split
      · rfl
      · rfl
  · rfl

@[simp] theorem core_recovering (seen : Option (Option Bool)) :
    (d.recovering os now busy seen).agent.core = d.agent.core := by
  unfold Due.recovering
  split
  · split
    · split
      · rfl
      · rfl
      · rfl
    · rfl
  · rfl

@[simp] theorem ledger_refreshing : (d.refreshing os now busy).agent.ledger = d.agent.ledger := by
  unfold Due.refreshing
  split
  · split
    · dsimp only
      split
      · rfl
      · rfl
    · rfl
  · rfl

@[simp] theorem core_escalating : (d.escalating now).agent.core = d.agent.core := by
  unfold Due.escalating
  split
  · rfl
  · rfl

/-- A tick leaves the ledger. -/
theorem ledger_tickAt (refreshToken : Option String) (a : Agent) :
    (tickAt os now busy refreshToken a).agent.ledger = a.ledger := by
  have hexpiring : ((Due.probing now busy a).expiring now).agent.ledger = a.ledger :=
    ledger_expiring.trans (congrArg Core.ledger (core_probing a))
  unfold tickAt
  dsimp only
  split
  · exact ledger_overdue.trans hexpiring
  · split
    · exact (congrArg Core.ledger core_retrying).trans hexpiring
    · refine (congrArg Core.ledger core_escalating).trans (ledger_refreshing.trans ?_)
      refine (congrArg Core.ledger (core_recovering _)).trans ?_
      exact (congrArg Core.ledger (core_looking refreshToken)).trans hexpiring

end Ticking

section Handlers

variable {os : Os} {now : ℤ} {c : Client}

@[simp] theorem core_applyEffects (effects : WorkerEffects) :
    (c.applyEffects os effects).agent.core = c.agent.core := by
  unfold Client.applyEffects
  cases effects.refreshToken with
  | none => exact core_settings (Settings.update_defaults _)
  | some token => exact core_settings (Settings.update_defaults _)

@[simp] theorem agent_purgeRealm (realm : String) :
    (c.purgeRealm os realm).agent = c.agent := by
  unfold Client.purgeRealm
  split
  · rfl
  · rfl

@[simp] theorem core_giveUpCapturedGrant (broker : Option String) (grant : Grant)
    (saved report : Bool) :
    (c.giveUpCapturedGrant broker grant saved report).agent.core = c.agent.core := by
  unfold Client.giveUpCapturedGrant
  split
  · rfl
  · exact core_startedGrantCleanup _

@[simp] theorem core_discoveryFailed (stamp : DiscoveryStamp) :
    (c.discoveryFailed os stamp).agent.core = c.agent.core := by
  unfold Client.discoveryFailed Client.withAgent
  dsimp only
  split
  · exact core_endProbe _ _ _
  · exact core_endProbe _ _ _

@[simp] theorem core_brokerLookup (generation : ℕ) (url : Option String) :
    (c.brokerLookup os generation url).agent.core = c.agent.core := by
  have hended := core_endProbe os.first c.agent generation
  unfold Client.brokerLookup Client.withAgent
  dsimp only
  split
  · rw [core_target]
    exact hended
  · exact hended

@[simp] theorem core_cloudSignedOut (stamp : DiscoveryStamp) (asked : Bool) :
    (c.cloudSignedOut os stamp asked).agent.core = c.agent.core := by
  have hfinished := core_finishCloudSignOut c.agent stamp
  unfold Client.cloudSignedOut Client.withAgent
  dsimp only
  split
  · exact (core_settings (Settings.update_defaults _)).trans hfinished
  · exact hfinished

@[simp] theorem core_grantGivenUp (generation : ℕ) :
    (c.grantGivenUp generation).agent.core = c.agent.core := by
  unfold Client.grantGivenUp Agent.finishGrantCleanup
  split
  · rename_i heq
    split at heq
    · cases heq
      rfl
    · cases heq
  · rfl

end Handlers

end Kerbridge.ClientAgent

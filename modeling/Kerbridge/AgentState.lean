import Kerbridge.AgentSettings
import Mathlib.Tactic.Linarith

/-!
# The state of the client's agent

What the agent knows of its ticket, its broker and its running work, and the verbs
on that state that its handlers are made of.
-/

namespace Kerbridge.ClientAgent

/-- Escalate this close to the end of the ticket. -/
def escalateSecs : ℤ := 20 * 60

/-- Floor on the delay of a re-injection. -/
def minRefreshDelay : ℤ := 60

/-- A re-injection is not scheduled closer than this to the end of the ticket. -/
def expiryGrace : ℤ := 30

/-- The first step of the startup backoff. -/
def startupRetrySecs : ℤ := 5

/-- The wait after a startup failure that is not one of transport. -/
def startupRetryBoundedSecs : ℤ := 20

/-- How many times such a failure is retried. -/
def startupRetries : ℕ := 3

/-- The first step of the probe's backoff, and its ceiling. -/
def probeFirstSecs : ℤ := 30

/-- The ceiling of the probe's backoff. -/
def probeMaxSecs : ℤ := 10 * 60

/-- How often to look for a ticket that has gone before its end. -/
def lossPollSecs : ℤ := 30

/-- The delay before the second recovery attempt. -/
def lossFirstSecs : ℤ := 60

/-- The ceiling it doubles to. -/
def lossMaxSecs : ℤ := 3600

/-- What the agent is doing. -/
inductive Phase where
  | signedOut
  | signingIn
  | connected
  /-- The ticket reached its end without a renewal landing. -/
  | expired
  | error
  deriving DecidableEq

/-- The class of a failure. -/
inductive Fault where
  | network
  | refused
  | grantRefused
  | other
  deriving DecidableEq

/-- Why a sign-in worker is running. -/
inductive Trigger where
  | user
  | renewal
  | startup
  | granted
  deriving DecidableEq

/-- Nothing may open a window. -/
def Trigger.silent (t : Trigger) : Bool := t ≠ .user

/-- Nobody asked for the attempt. -/
def Trigger.quiet (t : Trigger) : Bool := t = .startup ∨ t = .granted

/-- What may be started. -/
inductive Action where
  | signIn
  | createGrant
  | reinjectTicket
  | cancel
  | dropKrbTicket
  | signOutIdp
  | giveUpGrant
  | enroll
  | reenroll
  | unenroll
  | restartWorkstation
  | openSettings
  deriving DecidableEq

/-- The two operations that do not take the busy slot. -/
def Action.outsideBusySlot (a : Action) : Bool := a = .signOutIdp ∨ a = .giveUpGrant

/-- The identity of one request for the broker's document. -/
structure DiscoveryStamp where
  requestedBrokerUrl : String
  generation : ℕ
  deriving DecidableEq

/-- One request for the broker's document, or for the broker itself. -/
inductive Probe where
  | srv (generation : ℕ)
  | config (stamp : DiscoveryStamp)
  deriving DecidableEq

/-- Every broker-owned value that one document publishes. -/
structure BrokerSnapshot where
  kerberos : Kerberos
  deviceGrant : DeviceGrantConfig
  defaults : Defaults
  helpUrl : Option String
  idpName : String
  source : String
  deriving DecidableEq

/-- The operation that holds the busy slot under a stamp. -/
structure BusyOperation where
  stamp : DiscoveryStamp
  action : Action
  deriving DecidableEq

/-- Recovery from a ticket seen absent before its end. -/
structure TgtLoss where
  streak : ℕ
  absent : Bool
  retryAt : Option ℤ
  suspended : Bool
  deriving DecidableEq

/-- No episode is open. -/
def TgtLoss.closed : TgtLoss := ⟨0, false, none, false⟩

/-- A ticket that the cache holds. -/
structure CachedTgt where
  principal : String
  start : ℤ
  stop : ℤ
  renewTill : ℤ
  deriving DecidableEq

/-- What the operating system answers within one turn of the user thread: three readings
of the clock, random delays, and what becomes of each thing that is asked of it. -/
structure Os where
  first : ℤ
  second : ℤ
  third : ℤ
  jitter : ℤ → ℤ
  /-- Whether a configuration can be written. -/
  written : FileConfig → Bool
  /-- Whether a realm's tickets can be purged. -/
  purged : String → Bool
  /-- The ticket the cache holds for a realm, unless it cannot be asked. -/
  realmTgt : String → Option (Option CachedTgt)
  /-- Whether a realm is registered with the system. -/
  enrolled : Kerberos → Bool
  autostart : AutostartEntry
  /-- Whether the agent starts at logon. -/
  autostartActive : Bool
  /-- The clock does not run backwards. -/
  ordered : first ≤ second ∧ second ≤ third
  /-- A random delay is between nothing and its span. -/
  bounded : ∀ span, 0 ≤ jitter span ∧ jitter span ≤ max span 0

/-- Halfway between now and the end, a little earlier at random, floored, and clamped to
before the end. -/
def midpoint (os : Os) (now stop : ℤ) : ℤ :=
  let half := (stop - now).tdiv 2
  let delay := max (half - os.jitter (half.tdiv 10)) minRefreshDelay
  max (min (now + delay) (stop - expiryGrace)) (now + 1)

/-- Twice the last interval, within its bounds. -/
def nextBackoff (held first ceiling : ℤ) : ℤ := min (max (held * 2) first) ceiling

/-- The wait before a recovery attempt. -/
def lossDelay (os : Os) (streak : ℕ) : ℤ :=
  if streak ≤ 1 then 0
  else
    let base := min (lossFirstSecs * 2 ^ min (streak - 2) 16) lossMaxSecs
    base - os.jitter (base.tdiv 10)

/-- The agent. Its notifications and the texts it shows are left out. -/
structure Agent where
  settings : Settings
  /-- The newest request for a document, or invalidation. -/
  discoveryGeneration : ℕ
  discoveryTarget : Option String
  discoveryEnded : Bool
  kerberos : Kerberos
  enrolled : Bool
  phase : Phase
  principal : String
  start : ℤ
  stop : ℤ
  renewTill : ℤ
  /-- When to silently re-inject. -/
  refreshAt : Option ℤ
  fault : Option Fault
  firstFailureAt : Option ℤ
  probeAt : Option ℤ
  probeBackoff : ℤ
  probeInFlight : Option ℕ
  refreshBackoff : ℤ
  inFlight : List Action
  busyOperation : Option BusyOperation
  cloudSignOut : Option DiscoveryStamp
  grantCleanupGeneration : ℕ
  grantCleanup : Option ℕ
  justAuthorized : Bool
  grantedExchangePending : Bool
  silentFailed : Bool
  startupRetryAt : Option ℤ
  startupRetries : ℕ
  startupBackoff : ℤ
  autostartAwaitsBroker : Bool
  escalated : Bool
  deviceGrant : DeviceGrantConfig
  helpUrl : Option String
  idpName : String
  source : String
  loss : TgtLoss
  lossCheckAt : ℤ
  /-- When the schedule was last set, and whether by adopting a ticket. Nothing reads it:
  it is what statements about the schedule refer to. -/
  refreshSetAt : ℤ
  refreshAdopted : Bool
  /-- The scopes this agent recorded as expected, the newest first. Nothing reads it. -/
  expectations : List String

/-- An agent that has just started. -/
def Agent.new (os : Os) (settings : Settings) : Agent where
  settings := settings
  discoveryGeneration := 0
  discoveryTarget := settings.brokerUrl
  discoveryEnded := false
  kerberos := settings.file.cache
  enrolled := os.enrolled settings.file.cache
  phase := .signedOut
  principal := ""
  start := 0
  stop := 0
  renewTill := 0
  refreshAt := none
  fault := none
  firstFailureAt := none
  probeAt := none
  probeBackoff := 0
  probeInFlight := none
  refreshBackoff := 0
  inFlight := []
  busyOperation := none
  cloudSignOut := none
  grantCleanupGeneration := 0
  grantCleanup := none
  justAuthorized := false
  grantedExchangePending := false
  silentFailed := false
  startupRetryAt := none
  startupRetries := 0
  startupBackoff := 0
  autostartAwaitsBroker := false
  escalated := false
  deviceGrant := .off
  helpUrl := none
  idpName := ""
  source := ""
  loss := .closed
  lossCheckAt := 0
  refreshSetAt := 0
  refreshAdopted := false
  expectations := []

namespace Agent

/-- Advance the request identity, and bind it to the effective broker URL. -/
def advanceDiscovery (a : Agent) : Agent × Option DiscoveryStamp :=
  let a := { a with
    discoveryGeneration := a.discoveryGeneration + 1
    discoveryTarget := a.settings.brokerUrl }
  (a, a.discoveryTarget.map fun url => ⟨url, a.discoveryGeneration⟩)

/-- Whether a request is the newest, and at the effective broker URL. -/
def discoveryIsCurrent (a : Agent) (stamp : DiscoveryStamp) : Bool :=
  stamp.generation = a.discoveryGeneration && a.discoveryTarget = some stamp.requestedBrokerUrl &&
    a.settings.brokerUrl = some stamp.requestedBrokerUrl

/-- What this machine would be working as: the realm, and the account it gets tickets for. -/
def scope (a : Agent) : Option String :=
  if a.kerberos.realm = "" then none
  else some (a.kerberos.realm ++ "|" ++ (a.settings.grantFor).getD "")

/-- Whether this machine is supposed to be working here. -/
def expected (a : Agent) : Bool :=
  match a.scope with
  | some s => a.settings.file.expectedWorkingAs = some s
  | none => false

/-- Remember, or forget, that expectation. -/
def expect (os : Os) (on : Bool) (a : Agent) : Agent :=
  let scope := if on then a.scope else none
  { a with
    settings := (a.settings.update os.written fun f => { f with expectedWorkingAs := scope }).1
    expectations := scope.toList ++ a.expectations }

/-- Whether the injected ticket is still usable. -/
def holdsLiveTicket (now : ℤ) (a : Agent) : Bool :=
  (a.phase = .connected || a.phase = .signingIn) && now < a.stop && a.principal ≠ ""

/-- Arm the probe at its first step, unless it is armed. -/
def armProbe (now : ℤ) (a : Agent) : Agent :=
  match a.probeAt with
  | some _ => a
  | none => { a with probeBackoff := probeFirstSecs, probeAt := some (now + probeFirstSecs) }

/-- The probe is not needed. -/
def resetProbe (a : Agent) : Agent := { a with probeAt := none, probeBackoff := 0 }

/-- Probe a new target at the next tick. The running probe is forgotten. -/
def restartProbe (now : ℤ) (a : Agent) : Agent :=
  { a with probeInFlight := none, probeBackoff := 0, probeAt := some now }

/-- Record what class a failure was of, and open or close the window of transport failures. -/
def record (now : ℤ) (fault : Option Fault) (a : Agent) : Agent :=
  let a := { a with fault := fault }
  if fault = some .network then
    let a := match a.firstFailureAt with
      | some _ => a
      | none => { a with firstFailureAt := some now, probeAt := none }
    a.armProbe now
  else { a with firstFailureAt := none }

/-- Say something with nothing wrong behind it. -/
def note (a : Agent) : Agent := { a with fault := none }

/-- Forget everything about the current session, the schedule with it. -/
def resetSession (a : Agent) : Agent := { a with
  phase := .signedOut
  startupRetryAt := none
  startupRetries := 0
  startupBackoff := 0
  autostartAwaitsBroker := false
  principal := ""
  start := 0
  stop := 0
  renewTill := 0
  refreshAt := none
  silentFailed := false
  escalated := false
  fault := none
  firstFailureAt := none
  loss := .closed
  lossCheckAt := 0 }

/-- The broker-owned fields, as one document publishes them. -/
def publish (os : Os) (snapshot : BrokerSnapshot) (a : Agent) : Agent :=
  let settings := (a.settings.update os.written (FileConfig.setCache snapshot.kerberos)).1
  { a with
    settings := { settings with defaults := some snapshot.defaults }
    kerberos := snapshot.kerberos
    enrolled := os.enrolled snapshot.kerberos
    deviceGrant := snapshot.deviceGrant
    helpUrl := snapshot.helpUrl
    idpName := snapshot.idpName
    source := snapshot.source }

/-- Whether a document ends the session: it names another realm than the session's. -/
def changesRealm (snapshot : BrokerSnapshot) (a : Agent) : Bool :=
  a.phase ≠ .signedOut && a.kerberos.realm ≠ "" && a.kerberos.realm ≠ snapshot.kerberos.realm

/-- Replace what one accepted document publishes. A document that is not current is refused. -/
def replaceBrokerSnapshot (os : Os) (stamp : DiscoveryStamp) (snapshot : BrokerSnapshot)
    (a : Agent) : Agent × Bool :=
  if a.discoveryIsCurrent stamp then
    let a := if a.changesRealm snapshot then (a.expect os false).resetSession else a
    let a := a.publish os snapshot
    let a := if a.fault = some .network then a.record os.first none else a
    (a.resetProbe, true)
  else (a, false)

/-- Start one probe, unless one runs or the cloud sign-out owns the newest request. -/
def beginProbe (now : ℤ) (a : Agent) : Agent × Option Probe :=
  if a.probeInFlight.isSome || a.cloudSignOut.isSome then (a, none)
  else
    let (a, stamp) := a.advanceDiscovery
    let probe := match stamp with
      | some stamp => Probe.config stamp
      | none => Probe.srv a.discoveryGeneration
    (({ a with probeInFlight := some a.discoveryGeneration } : Agent).armProbe now, some probe)

/-- A probe finished. False when it is not the one that runs. -/
def endProbe (now : ℤ) (generation : ℕ) (a : Agent) : Agent × Bool :=
  if a.probeInFlight = some generation then
    ({ a with
      probeInFlight := none
      probeAt := a.probeAt.map fun _ => now + a.probeBackoff }, true)
  else (a, false)

/-- Clear what the broker owned. -/
def clearBrokerSnapshot (a : Agent) : Agent := { a with
  discoveryEnded := false
  kerberos := .unknown
  enrolled := false
  deviceGrant := .off
  helpUrl := none
  idpName := ""
  source := ""
  settings := { a.settings with defaults := none } }

/-- Set the schedule. -/
def schedule (now : ℤ) (refresh : ℤ) (a : Agent) : Agent :=
  { a with refreshAt := some refresh, refreshSetAt := now, refreshAdopted := false }

/-- Whether the ticket in the cache is one this machine's own grant produced. -/
def isTheGrants (grant : Option Grant) (pinned : Bool) (principal : String) : Bool :=
  match grant with
  | none => true
  | some g =>
    match g.principal with
    | none => !pinned
    | some p => p = principal

/-- Adopt a ticket of the cache, or say that it must be replaced. -/
def adoptCachedTicket (os : Os) (ticket : CachedTgt) (a : Agent) : Agent × Bool :=
  if isTheGrants a.settings.file.grant a.settings.grantFor.isSome ticket.principal then
    (({ a with
      principal := ticket.principal
      start := ticket.start
      stop := ticket.stop
      renewTill := ticket.renewTill
      phase := .connected
      refreshAt := some (midpoint os (max ticket.start os.second) ticket.stop)
      refreshSetAt := os.second
      refreshAdopted := true } : Agent).expect os true, false)
  else ({ a with startupRetries := Kerbridge.ClientAgent.startupRetries }, true)

/-- Adopt a live ticket after startup. True when the ticket there belongs to somebody else
than the stored grant, and must be replaced. -/
def adoptExistingTicket (os : Os) (a : Agent) : Agent × Bool :=
  if a.phase ≠ .signedOut ∨ a.kerberos.realm = "" then (a, false)
  else
    match os.realmTgt a.kerberos.realm with
    | some (some ticket) =>
      if ticket.stop ≤ os.first then (a, false) else a.adoptCachedTicket os ticket
    | _ => (a, false)

/-- An operation is running. -/
def started (action : Action) (a : Agent) : Agent :=
  if action ∈ a.inFlight then a else { a with inFlight := a.inFlight ++ [action] }

/-- An operation holds the busy slot under its stamp. -/
def startedBusy (stamp : DiscoveryStamp) (action : Action) (a : Agent) : Agent :=
  { a.started action with busyOperation := some ⟨stamp, action⟩ }

/-- An operation is not running any more. -/
def ended (action : Action) (a : Agent) : Agent :=
  { a with inFlight := a.inFlight.filter (· ≠ action) }

/-- The cloud sign-out of a stamp is done. -/
def finishCloudSignOut (stamp : DiscoveryStamp) (a : Agent) : Agent :=
  if a.cloudSignOut = some stamp then { a with cloudSignOut := none }.ended .signOutIdp else a

/-- A grant is being given up. -/
def startedGrantCleanup (a : Agent) : Agent × ℕ :=
  let generation := a.grantCleanupGeneration + 1
  (({ a with
    grantCleanupGeneration := generation
    grantCleanup := some generation } : Agent).started .giveUpGrant, generation)

/-- The giving up of a generation is done. False when it is not the one that runs. -/
def finishGrantCleanup (generation : ℕ) (a : Agent) : Agent × Bool :=
  if a.grantCleanup = some generation then
    (({ a with grantCleanup := none } : Agent).ended .giveUpGrant, true)
  else (a, false)

/-- No recovery attempt until an exchange lands. -/
def lossSuspend (a : Agent) : Agent := { a with
  loss := { a.loss with suspended := true, retryAt := none }
  silentFailed := true }

/-- The ticket was seen absent. -/
def lossObserved (os : Os) (now : ℤ) (supply : Bool) (a : Agent) : Agent :=
  let a := { a with loss := { a.loss with absent := true, streak := a.loss.streak + 1 } }
  if ¬ supply then a.lossSuspend
  else if ¬ a.loss.suspended then
    { a with loss := { a.loss with retryAt := some (now + lossDelay os a.loss.streak) } }
  else a

/-- The ticket is back without an exchange of ours. -/
def lossPresent (a : Agent) : Agent :=
  { a with loss := { a.loss with absent := false, retryAt := none } }

/-- An exchange landed. -/
def lossLanded (a : Agent) : Agent :=
  { a with loss := { a.loss with absent := false, retryAt := none, suspended := false } }

/-- An exchange failed while the ticket was absent. -/
def lossFailed (os : Os) (now : ℤ) (fault : Option Fault) (a : Agent) : Agent :=
  let a := { a with loss := { a.loss with streak := a.loss.streak + 1 } }
  match fault with
  | some .network | some .other =>
    if a.loss.suspended then a
    else { a with loss := { a.loss with retryAt := some (now + lossDelay os a.loss.streak) } }
  | none | some .refused | some .grantRefused => a.lossSuspend

/-- Whether a silent exchange has something to run on. -/
def silentSupply (refreshToken : Option String) (now : ℤ) (a : Agent) : Bool :=
  let grantValid := match a.settings.file.grant with
    | some g => now < g.signInRequiredBy
    | none => false
  grantValid ||
    (a.settings.grantFor.isNone && (a.settings.windowsSignIn || refreshToken.isSome))

end Agent

end Kerbridge.ClientAgent

import Kerbridge.AgentState

/-!
# The turns of the agent's user thread

Workers run on threads of their own and share a queue of events with the user thread.
Here are the state that is shared, what each event does when it is applied, what a tick
does, and the commands.
-/

namespace Kerbridge.ClientAgent

/-- A ticket landed in the cache. -/
structure Injected where
  principal : String
  start : ℤ
  stop : ℤ
  renewTill : ℤ
  deriving DecidableEq

/-- What a worker changes once its result is accepted. -/
structure WorkerEffects where
  /-- The refresh token to keep instead of the old one. -/
  refreshToken : Option (Option String)
  browserSessionStarted : Bool
  /-- The grant that the broker refused as invalid proof. -/
  staleGrant : Option Grant
  injectionRealm : Option String
  deriving DecidableEq

/-- Nothing is changed. -/
def WorkerEffects.none : WorkerEffects := ⟨Option.none, false, Option.none, Option.none⟩

/-- What an elevated operation came to. -/
inductive Outcome where
  | declined
  | done
  | failed
  deriving DecidableEq

/-- What a worker reports back. -/
inductive Event where
  | signedIn (stamp : DiscoveryStamp) (injected : Injected) (realm : String)
      (effects : WorkerEffects) (viaGrant : Option String)
  | signInFailed (stamp : DiscoveryStamp) (effects : WorkerEffects) (fault : Option Fault)
      (trigger : Trigger)
  | cancelled (stamp : DiscoveryStamp) (effects : WorkerEffects)
  | elevatedFinished (action : Action) (outcome : Outcome) (recheckEnrollment : Bool)
  | brokerLookup (generation : ℕ) (url : Option String)
  /-- A document. `accepted` says that a worker waits for the answer. -/
  | discovered (stamp : DiscoveryStamp) (snapshot : BrokerSnapshot) (accepted : Bool)
  | discoveryFailed (stamp : DiscoveryStamp)
  /-- A worker asks whether its request is still current. -/
  | current (stamp : DiscoveryStamp)
  | grantCreated (stamp : DiscoveryStamp) (grant : Grant) (brokerUrl : String)
      (effects : WorkerEffects)
  | grantFailed (stamp : DiscoveryStamp) (effects : WorkerEffects) (fault : Option Fault)
  | cloudSignedOut (stamp : DiscoveryStamp) (asked : Bool)
  | staleGrantCompensated (stamp : DiscoveryStamp)
  | grantGivenUp (generation : ℕ) (broker : Option String) (revoked saved report : Bool)
  | elevationGranted (action : Action)
  deriving DecidableEq

/-- A broker's document, with the base its requests go to. -/
structure Document where
  snapshot : BrokerSnapshot
  baseUrl : String
  deriving DecidableEq

/-- What a worker does once it has been told that its request is current. -/
inductive Errand where
  | proveGrant
  | acquireToken
  | injectToken
  | register
  | logOut
  deriving DecidableEq

/-- Where a worker is. An answer is there once the user thread has given it. -/
inductive Leg where
  | fetch
  | publish (document : Document) (answer : Option Bool)
  | discoverOidc (document : Document)
  | ask (document : Document) (errand : Errand) (answer : Option Bool)
  | act (document : Document) (errand : Errand)
  deriving DecidableEq

/-- What a worker is for, with what it took along when it was started. -/
inductive Work where
  | signIn (trigger : Trigger) (useNative : Bool) (grant : Option Grant) (pin : Option String)
  | createGrant (useNative : Bool) (target : Option String)
  | cloudSignOut
  deriving DecidableEq

/-- A worker that fetches the broker's document first. -/
structure Worker where
  work : Work
  stamp : DiscoveryStamp
  effects : WorkerEffects
  leg : Leg
  deriving DecidableEq

/-- A thread beside the user thread. -/
inductive Thread where
  | worker (w : Worker)
  | probe (p : Probe)
  | elevated (action : Action) (recheckEnrollment : Bool)
  | giveUp (generation : ℕ) (broker : Option String) (grant : Grant) (saved report : Bool)
  | compensate (stamp : DiscoveryStamp) (broker : String) (grant : Grant)
  deriving DecidableEq

/-- Who holds the busy slot: a worker under its stamp, or an elevated operation. -/
inductive Holder where
  | stamped (stamp : DiscoveryStamp)
  | elevated (action : Action)
  deriving DecidableEq

/-- The slot was taken, or given back. -/
inductive SlotEntry where
  | took (holder : Holder)
  | gave (holder : Holder)
  deriving DecidableEq

/-- A ticket that a worker put into the cache, with the worker's stamp. -/
structure Ticket where
  realm : String
  stamp : DiscoveryStamp
  deriving DecidableEq

/-- The agent with what its threads share. -/
structure Client where
  agent : Agent
  busy : Bool
  cancel : Bool
  /-- The giving up of a grant is unfinished. -/
  grantCleanup : Bool
  refreshToken : Option String
  /-- The last reading of the clock. -/
  clock : ℤ
  /-- The tickets in the cache that this agent's workers put there. -/
  cache : List Ticket
  threads : List Thread
  events : List Event
  /-- How the busy slot went from hand to hand, the newest first. Nothing reads it. -/
  slot : List SlotEntry
  /-- The grants that a thread gave back, the newest first. Nothing reads it. -/
  revocations : List (Option String × Grant)

namespace Agent

/-- A user's sign-in shows. -/
def signing (trigger : Trigger) (a : Agent) : Agent :=
  if trigger.silent then a else { a with phase := .signingIn, fault := none }

/-- A sign-in that shows is over, without a ticket of its own. -/
def released (now : ℤ) (a : Agent) : Agent :=
  if a.phase = .signingIn then
    { a with phase := if a.holdsLiveTicket now then .connected else .signedOut }
  else a

/-- The broker that DNS names is asked, by the sign-in that waited for it or by the probe. -/
def target (os : Os) (url : String) (a : Agent) : Agent :=
  let a := { a with settings := { a.settings with discovered := some url } }.restartProbe os.second
  if a.autostartAwaitsBroker then
    { a with autostartAwaitsBroker := false, startupRetryAt := some os.third }
  else a

/-- A document was accepted. A pending silent attempt runs now when the broker is back. -/
def landedDocument (os : Os) (back : Bool) (a : Agent) : Agent :=
  let a := { a with settings := a.settings.enforceAutostart os.autostart os.written }
  if back ∧ a.startupRetryAt.isSome ∧ (a.phase = .signedOut ∨ a.phase = .error) ∧ a.expected then
    { a with startupRetryAt := some os.second }
  else a

/-- A repair that succeeded ends the loss episode. -/
def repaired (action : Action) (outcome : Outcome) (a : Agent) : Agent :=
  if action = .restartWorkstation ∧ outcome = .done then
    { a with loss := .closed, lossCheckAt := 0 }
  else a

/-- An elevated operation is over. -/
def elevated (os : Os) (action : Action) (outcome : Outcome) (recheckEnrollment : Bool)
    (a : Agent) : Agent :=
  let enrolled :=
    if recheckEnrollment ∧ a.kerberos.realm ≠ "" then os.enrolled a.kerberos else a.enrolled
  let a := ({ a with
    inFlight := a.inFlight.filter Action.outsideBusySlot
    enrolled := enrolled } : Agent).repaired action outcome
  if outcome = .failed then a.record os.first (some .other) else a

/-- What the grant of an exchange worked as is recorded. -/
def recordGrant (os : Os) (viaGrant : Option String) (principal : String) (a : Agent) : Agent :=
  match viaGrant with
  | some grantId =>
    { a with settings :=
      (a.settings.update os.written (FileConfig.setGrantPrincipal grantId principal)).1 }
  | none => a

/-- The ticket that an exchange landed is held, with a schedule of its own. -/
def land (os : Os) (injected : Injected) (a : Agent) : Agent :=
  ({ a with
    principal := injected.principal
    start := injected.start
    stop := injected.stop
    renewTill := injected.renewTill
    phase := .connected
    fault := none
    firstFailureAt := none
    silentFailed := false
    escalated := false
    refreshBackoff := 0
    startupRetryAt := none
    startupRetries := 0
    startupBackoff := 0
    lossCheckAt := os.second + lossPollSecs } : Agent).schedule os.first
      (midpoint os os.first injected.stop)

/-- A fresh grant's own exchange is the second half of the authorization; any other spends
what the grant promotes. -/
def spendAuthorization (a : Agent) : Agent :=
  if a.grantedExchangePending then { a with grantedExchangePending := false }
  else { a with justAuthorized := false }

/-- A sign-in failed while the ticket in the cache still works. -/
def failedLive (os : Os) (fault : Option Fault) (fresh : Bool) (a : Agent) : Agent :=
  let a := { a with phase := .connected, silentFailed := true }
  if a.loss.absent then a.lossFailed os os.third fault
  else if fault = some .network then
    let backoff :=
      if fresh then minRefreshDelay
      else nextBackoff a.refreshBackoff minRefreshDelay probeMaxSecs
    { a with refreshBackoff := backoff }.schedule os.third
      (min (os.third + backoff) (midpoint os os.third a.stop))
  else a

/-- Whether a silent attempt is made again: soon and for ever after a failure of transport,
a few times after another. -/
def retryLater (os : Os) (fault : Option Fault) (trigger : Trigger) (a : Agent) : Agent :=
  if fault = some .network ∧ (trigger.quiet ∨ (trigger.silent ∧ a.expected)) then
    let backoff := nextBackoff a.startupBackoff startupRetrySecs probeMaxSecs
    { a with startupBackoff := backoff, startupRetryAt := some (os.third + backoff) }
  else if trigger.quiet ∧ 0 < a.startupRetries then
    { a with
      startupRetries := a.startupRetries - 1
      startupBackoff := 0
      startupRetryAt := some (os.third + startupRetryBoundedSecs) }
  else { a with startupRetryAt := none, startupBackoff := 0 }

/-- A sign-in failed with no working ticket. -/
def failedDead (os : Os) (fault : Option Fault) (trigger : Trigger) (a : Agent) : Agent :=
  ({ a with
    refreshAt := none
    phase := if trigger.quiet then .signedOut else .error } : Agent).retryLater os fault trigger

/-- A sign-in failed. A ticket that still works stays, with its schedule. -/
def signInFailed (os : Os) (fault : Option Fault) (trigger : Trigger) (a : Agent) : Agent :=
  let b := a.record os.first fault
  if b.holdsLiveTicket os.second then b.failedLive os fault a.firstFailureAt.isNone
  else b.failedDead os fault trigger

end Agent

namespace Client

/-- Apply a change to the agent. -/
def withAgent (f : Agent → Agent) (c : Client) : Client := { c with agent := f c.agent }

/-- Purge a realm's tickets, when the cache lets it. -/
def purgeRealm (os : Os) (realm : String) (c : Client) : Client :=
  if realm ≠ "" ∧ os.purged realm then
    { c with cache := c.cache.filter fun t => t.realm ≠ realm }
  else c

/-- Release the slot that an operation holds under its stamp. -/
def finishBusy (os : Os) (stamp : DiscoveryStamp) (stale : Bool) (c : Client) : Client :=
  match c.agent.busyOperation with
  | some operation =>
    if operation.stamp = stamp then
      let a := { c.agent with busyOperation := none }.ended operation.action
      { c with
        agent := if stale then a.released os.first else a
        busy := false
        slot := .gave (.stamped stamp) :: c.slot }
    else c
  | none => c

/-- Apply what a worker changes. Only the grant that was refused is forgotten: one created or
renewed since has another name or deadline. -/
def applyEffects (os : Os) (effects : WorkerEffects) (c : Client) : Client :=
  let c := match effects.refreshToken with
    | some token => { c with refreshToken := token }
    | none => c
  c.withAgent fun a =>
    { a with settings := (a.settings.update os.written fun f =>
        let f := { f with browserSession := f.browserSession || effects.browserSessionStarted }
        match effects.staleGrant, f.grant with
        | some stale, some g =>
          if g.grantId = stale.grantId ∧ g.signInRequiredBy = stale.signInRequiredBy then
            { f with grant := none }
          else f
        | _, _ => f).1 }

/-- Start the sign-in worker, unless other work is in the way. -/
def startWorker (os : Os) (trigger : Trigger) (c : Client) : Client :=
  if c.grantCleanup ∨ c.agent.cloudSignOut.isSome then
    if trigger = .startup then
      c.withAgent fun a => { a with startupRetryAt := some (os.second + 1) }
    else c
  else if c.busy then c
  else
    match c.agent.advanceDiscovery with
    | (a, none) => { c with agent := a, cancel := false }
    | (a, some stamp) =>
      let action := if trigger = .user then Action.signIn else Action.reinjectTicket
      let work := Work.signIn trigger a.settings.windowsSignIn a.settings.file.grant
        a.settings.grantFor
      { c with
        agent := (a.startedBusy stamp action).signing trigger
        busy := true
        cancel := false
        threads := c.threads ++ [.worker ⟨work, stamp, .none, .fetch⟩]
        slot := .took (.stamped stamp) :: c.slot }

/-- Authorize this machine to obtain tickets without a browser. -/
def createGrant (c : Client) : Client :=
  if c.grantCleanup ∨ c.agent.cloudSignOut.isSome ∨ c.busy then c
  else
    match c.agent.advanceDiscovery with
    | (a, none) => { c with agent := a, cancel := false }
    | (a, some stamp) =>
      let work := Work.createGrant a.settings.windowsSignIn a.settings.grantFor
      { c with
        agent := a.startedBusy stamp .createGrant
        busy := true
        cancel := false
        threads := c.threads ++ [.worker ⟨work, stamp, .none, .fetch⟩]
        slot := .took (.stamped stamp) :: c.slot }

/-- Run one privileged step in a second process. -/
def spawnElevated (recheckEnrollment : Bool) (action : Action) (c : Client) : Client :=
  if c.busy then c
  else { c with
    agent := c.agent.started action
    busy := true
    threads := c.threads ++ [.elevated action recheckEnrollment]
    slot := .took (.elevated action) :: c.slot }

/-- Run the probe. -/
def discoverInBackground (now : ℤ) (c : Client) : Client :=
  match c.agent.beginProbe now with
  | (a, some probe) => { c with agent := a, threads := c.threads ++ [.probe probe] }
  | (a, none) => { c with agent := a }

/-- End the browser session at the authority, unless other work holds the slot. -/
def beginCloudSignOut (c : Client) : Client :=
  if c.busy ∨ c.agent.settings.file.browserSession = false ∨ c.agent.cloudSignOut.isSome then c
  else
    match c.agent.advanceDiscovery with
    | (a, none) => { c with agent := a }
    | (a, some stamp) => { c with
      agent := { a.started .signOutIdp with cloudSignOut := some stamp }
      refreshToken := none
      threads := c.threads ++ [.worker ⟨.cloudSignOut, stamp, .none, .fetch⟩] }

/-- Give up a grant that has been taken out of the file. -/
def giveUpCapturedGrant (broker : Option String) (grant : Grant) (saved report : Bool)
    (c : Client) : Client :=
  if c.grantCleanup then c
  else
    let (a, generation) := c.agent.startedGrantCleanup
    { c with
      agent := a
      grantCleanup := true
      threads := c.threads ++ [.giveUp generation broker grant saved report] }

/-- The grant of the file as it is on disk now. -/
def grantTaken (s : Settings) : Option Grant :=
  match s.disk with
  | .holds file => file.grant
  | _ => s.file.grant

/-- Give up this machine's grant: forget it here, and destroy it on a thread. -/
def giveUpGrant (os : Os) (broker : Option String) (c : Client) : Client :=
  if c.busy ∨ c.grantCleanup then c
  else
    let (settings, saved) := c.agent.settings.update os.written fun f =>
      if f.grant.isSome then { f with grant := none, expectedWorkingAs := none } else f
    let taken := grantTaken c.agent.settings
    let c := c.withAgent fun a => { a with settings := settings }
    match taken with
    | none => c
    | some grant => c.giveUpCapturedGrant broker grant saved true

/-- Remove everything tied to the old broker, and point the file at the new one. False when
the old realm's tickets cannot be purged. -/
def retarget (os : Os) (oldBroker brokerUrl : Option String) (c : Client) : Client × Bool :=
  let oldRealm := c.agent.settings.file.cache.realm
  if oldRealm ≠ "" ∧ os.purged oldRealm = false then (c, false)
  else
    let c := c.purgeRealm os oldRealm
    let (settings, saved) := c.agent.settings.update os.written (FileConfig.retarget brokerUrl)
    let taken := grantTaken c.agent.settings
    let a := { c.agent with settings := settings }.advanceDiscovery.1.clearBrokerSnapshot
    let a := { a.restartProbe os.first with cloudSignOut := none }.ended .signOutIdp
    let c := { c with agent := a.resetSession, cancel := true, refreshToken := none }
    match taken with
    | none => (c, true)
    | some grant => (c.giveUpCapturedGrant oldBroker grant saved false, true)

/-- A sign-in landed. -/
def signedIn (os : Os) (stamp : DiscoveryStamp) (injected : Injected) (effects : WorkerEffects)
    (viaGrant : Option String) (c : Client) : Client :=
  ((c.finishBusy os stamp false).applyEffects os effects).withAgent fun a =>
    (((a.lossLanded.recordGrant os viaGrant injected.principal).land os
      injected).spendAuthorization).expect os true

/-- A sign-in failed. -/
def signInFailed (os : Os) (stamp : DiscoveryStamp) (effects : WorkerEffects)
    (fault : Option Fault) (trigger : Trigger) (c : Client) : Client :=
  ((c.finishBusy os stamp false).applyEffects os effects).withAgent
    (Agent.signInFailed os fault trigger)

/-- A sign-in was cancelled. -/
def cancelled (os : Os) (stamp : DiscoveryStamp) (effects : WorkerEffects) (c : Client) : Client :=
  ((c.finishBusy os stamp false).applyEffects os effects).withAgent (Agent.released os.first)

/-- The lookup of a broker ended. -/
def brokerLookup (os : Os) (generation : ℕ) (url : Option String) (c : Client) : Client :=
  c.withAgent fun a =>
    let probe := a.endProbe os.first generation
    let a := { probe.1 with
      discoveryEnded := probe.1.discoveryEnded || (probe.2 && url.isNone) }
    match url, probe.2 with
    | some url, true => a.target os url
    | _, _ => a

/-- A grant was created. A machine without a ticket of its own gets one at once. -/
def grantCreated (os : Os) (stamp : DiscoveryStamp) (grant : Grant) (effects : WorkerEffects)
    (c : Client) : Client :=
  let c := ((c.finishBusy os stamp false).applyEffects os effects).withAgent fun a =>
    { a with settings :=
      (a.settings.update os.written fun f => { f with grant := some grant }).1 }
  let signIn := !Agent.isTheGrants c.agent.settings.file.grant c.agent.settings.grantFor.isSome
      c.agent.principal || c.agent.phase ≠ .connected
  let c := c.withAgent fun a =>
    { a with justAuthorized := true, grantedExchangePending := signIn }.note
  if signIn then c.startWorker os .granted else c

/-- A grant was not created. -/
def grantFailed (os : Os) (stamp : DiscoveryStamp) (effects : WorkerEffects)
    (fault : Option Fault) (c : Client) : Client :=
  ((c.finishBusy os stamp false).applyEffects os effects).withAgent fun a =>
    a.record os.first fault

/-- The cloud sign-out ended. -/
def cloudSignedOut (os : Os) (stamp : DiscoveryStamp) (asked : Bool) (c : Client) : Client :=
  c.withAgent fun a =>
    let a := a.finishCloudSignOut stamp
    if asked then
      { a with settings :=
        (a.settings.update os.written fun f => { f with browserSession := false }).1 }
    else a

/-- A grant was given up. -/
def grantGivenUp (generation : ℕ) (c : Client) : Client :=
  match c.agent.finishGrantCleanup generation with
  | (a, true) => { c with agent := a, grantCleanup := false }
  | (_, false) => c

/-- An elevated operation ended. -/
def elevatedFinished (os : Os) (action : Action) (outcome : Outcome) (recheckEnrollment : Bool)
    (c : Client) : Client :=
  { c with
    agent := c.agent.elevated os action outcome recheckEnrollment
    busy := false
    slot := .gave (.elevated action) :: c.slot }

end Client

/-- A worker that waits for an answer has it. -/
def Leg.told (ok : Bool) : Leg → Leg
  | .publish document none => .publish document (some ok)
  | .ask document errand none => .ask document errand (some ok)
  | leg => leg

/-- The worker of a stamp has its answer. -/
def Thread.told (stamp : DiscoveryStamp) (ok : Bool) : Thread → Thread
  | .worker w => if w.stamp = stamp then .worker { w with leg := w.leg.told ok } else .worker w
  | t => t

namespace Client

/-- Answer the worker of a stamp. -/
def answer (stamp : DiscoveryStamp) (ok : Bool) (c : Client) : Client :=
  { c with threads := c.threads.map (Thread.told stamp ok) }

/-- A document arrived. Once a broker that had been away is back, the pending silent attempt
runs now. -/
def discovered (os : Os) (stamp : DiscoveryStamp) (snapshot : BrokerSnapshot) (accepted : Bool)
    (c : Client) : Client :=
  let a := if accepted then c.agent else (c.agent.endProbe os.first stamp.generation).1
  let brokerWasAway := a.fault = some .network ∧ 2 * probeFirstSecs < a.probeBackoff
  let replaced := a.replaceBrokerSnapshot os stamp snapshot
  let c := c.withAgent fun _ =>
    if replaced.2 then
      replaced.1.landedDocument os (accepted = false ∧ brokerWasAway ∧ c.busy = false)
    else replaced.1
  if accepted then c.answer stamp replaced.2 else c

/-- The request of a probe failed. -/
def discoveryFailed (os : Os) (stamp : DiscoveryStamp) (c : Client) : Client :=
  c.withAgent fun a =>
    let probe := a.endProbe os.first stamp.generation
    if probe.2 ∧ probe.1.discoveryIsCurrent stamp then { probe.1 with discoveryEnded := true }
    else probe.1

end Client

/-- The stamp of an event that ends a worker. -/
def Event.terminalStamp : Event → Option DiscoveryStamp
  | .signedIn stamp _ _ _ _ => some stamp
  | .signInFailed stamp _ _ _ => some stamp
  | .cancelled stamp _ => some stamp
  | .grantCreated stamp _ _ _ => some stamp
  | .grantFailed stamp _ _ => some stamp
  | .cloudSignedOut stamp _ => some stamp
  | _ => none

namespace Client

/-- A result whose request is not current any more: a ticket is purged, a grant is given
back, and nothing else of it is applied. -/
def rejectStaleTerminal (os : Os) (ev : Event) (c : Client) : Client :=
  match ev with
  | .signedIn stamp _ realm _ _ => (c.purgeRealm os realm).finishBusy os stamp true
  | .signInFailed stamp effects _ _ =>
    let c := match effects.injectionRealm with
      | some realm => c.purgeRealm os realm
      | none => c
    c.finishBusy os stamp true
  | .cancelled stamp _ => c.finishBusy os stamp true
  | .grantFailed stamp _ _ => c.finishBusy os stamp true
  | .grantCreated stamp grant brokerUrl _ =>
    { c with threads := c.threads ++ [.compensate stamp brokerUrl grant] }
  | .cloudSignedOut stamp _ => c.withAgent fun a => a.finishCloudSignOut stamp
  | _ => c

/-- What an event does that is not refused as stale. -/
def sharedEvent (os : Os) (ev : Event) (c : Client) : Client :=
  match ev with
  | .signedIn stamp injected _ effects viaGrant => c.signedIn os stamp injected effects viaGrant
  | .signInFailed stamp effects fault trigger => c.signInFailed os stamp effects fault trigger
  | .cancelled stamp effects => c.cancelled os stamp effects
  | .brokerLookup generation url => c.brokerLookup os generation url
  | .grantCreated stamp grant _ effects => c.grantCreated os stamp grant effects
  | .grantFailed stamp effects fault => c.grantFailed os stamp effects fault
  | .cloudSignedOut stamp asked => c.cloudSignedOut os stamp asked
  | .grantGivenUp generation _ _ _ _ => c.grantGivenUp generation
  | .elevatedFinished action outcome recheck => c.elevatedFinished os action outcome recheck
  | _ => c

/-- Apply an event. -/
def applyEvent (os : Os) (ev : Event) (c : Client) : Client :=
  match ev with
  | .current stamp => c.answer stamp (c.agent.discoveryIsCurrent stamp)
  | .discovered stamp snapshot accepted => c.discovered os stamp snapshot accepted
  | .discoveryFailed stamp => c.discoveryFailed os stamp
  | .staleGrantCompensated stamp => c.finishBusy os stamp true
  | _ =>
    match ev.terminalStamp with
    | some stamp =>
      if c.agent.discoveryIsCurrent stamp then
        (c.withAgent fun a => { a with discoveryEnded := true }).sharedEvent os ev
      else c.rejectStaleTerminal os ev
    | none => c.sharedEvent os ev

end Client

/-- What one tick decided, for it to carry out. -/
structure Due where
  agent : Agent
  probe : Bool
  start : Option Trigger

namespace Due

/-- The probe is due. -/
def probing (now : ℤ) (busy : Bool) (a : Agent) : Due :=
  match a.probeAt with
  | some t =>
    if t ≤ now ∧ busy = false ∧ a.probeInFlight = none then
      let backoff := nextBackoff a.probeBackoff probeFirstSecs probeMaxSecs
      ⟨{ a with probeBackoff := backoff, probeAt := some (now + backoff) }, true, none⟩
    else ⟨a, false, none⟩
  | none => ⟨a, false, none⟩

/-- The ticket ran out. -/
def expiring (now : ℤ) (d : Due) : Due :=
  if d.agent.phase = .connected ∧ d.agent.stop ≤ now then
    { d with agent := { d.agent with
      phase := .expired
      loss := { d.agent.loss with absent := false, retryAt := none } } }
  else d

/-- A re-injection that was due before the end of the ticket runs after it. -/
def overdue (now : ℤ) (busy : Bool) (d : Due) : Due :=
  match d.agent.refreshAt with
  | some t =>
    if t ≤ now ∧ busy = false then
      { d with
        agent := d.agent.schedule now (now + minRefreshDelay)
        start := some .renewal }
    else d
  | none => d

/-- A silent sign-in is tried again. -/
def retrying (now : ℤ) (busy : Bool) (d : Due) : Due :=
  match d.agent.startupRetryAt with
  | some t =>
    if t ≤ now ∧ busy = false then
      { d with
        agent := { d.agent with startupRetryAt := none }
        start := if d.agent.phase = .signedOut ∨ d.agent.phase = .error then some .startup
          else d.start }
    else d
  | none => d

/-- Look for the ticket. Returns what was seen, if it was looked for. -/
def looking (os : Os) (now : ℤ) (busy : Bool) (refreshToken : Option String) (d : Due) :
    Due × Option (Option Bool) :=
  if d.agent.lossCheckAt ≤ now ∧ d.agent.kerberos.realm ≠ "" ∧ busy = false then
    let a := { d.agent with lossCheckAt := now + lossPollSecs }
    let seen := (os.realmTgt a.kerberos.realm).map Option.isSome
    let a :=
      if seen = some false ∧ a.loss.absent = false then
        a.lossObserved os now (a.silentSupply refreshToken now)
      else if seen = some true ∧ a.loss.absent then a.lossPresent
      else a
    ({ d with agent := a }, some seen)
  else (d, none)

/-- Recover a ticket that is still absent. -/
def recovering (os : Os) (now : ℤ) (busy : Bool) (seen : Option (Option Bool)) (d : Due) : Due :=
  match d.agent.loss.retryAt with
  | some t =>
    if d.agent.loss.absent ∧ t ≤ now ∧ busy = false then
      match seen.getD ((os.realmTgt d.agent.kerberos.realm).map Option.isSome) with
      | none =>
        { d with agent := { d.agent with
          loss := { d.agent.loss with retryAt := some (now + lossPollSecs) } } }
      | some true => { d with agent := d.agent.lossPresent }
      | some false =>
        { d with
          agent := { d.agent with loss := { d.agent.loss with
            retryAt := some (now + lossDelay os (d.agent.loss.streak + 1)) } }
          start := some .renewal }
    else d
  | none => d

/-- The re-injection is due. It is set anew before the attempt. -/
def refreshing (os : Os) (now : ℤ) (busy : Bool) (d : Due) : Due :=
  match d.agent.refreshAt with
  | some t =>
    if t ≤ now ∧ busy = false then
      let a :=
        if 0 < d.agent.loss.streak ∧ d.agent.loss.absent = false then
          { d.agent with loss := .closed }
        else d.agent
      { d with
        agent := a.schedule now (midpoint os now a.stop)
        start := some .renewal }
    else d
  | none => d

/-- The ticket is about to run out after a failure. -/
def escalating (now : ℤ) (d : Due) : Due :=
  if d.agent.escalated = false ∧ d.agent.silentFailed ∧ d.agent.stop - now ≤ escalateSecs then
    { d with agent := { d.agent with escalated := true } }
  else d

end Due

/-- A tick against one reading of the clock and of the busy slot. -/
def tickAt (os : Os) (now : ℤ) (busy : Bool) (refreshToken : Option String) (a : Agent) : Due :=
  let d := (Due.probing now busy a).expiring now
  if d.agent.phase = .expired then d.overdue now busy
  else if d.agent.phase ≠ .connected then d.retrying now busy
  else
    let looked := d.looking os now busy refreshToken
    ((looked.1.recovering os now busy looked.2).refreshing os now busy).escalating now

/-- What the user changes in the settings sheet. A field that was not touched is `none`. -/
structure SettingsChange where
  brokerUrl : Option String
  autostart : Option Bool
  windowsSignIn : Option Bool
  grantFor : Option String

/-- A broker URL as it is stored. -/
def typedBrokerUrl (text : String) : Option String :=
  (trimmed text).map fun url =>
    if (UnicodeText.splitOnceOn "://" url).isSome then url else "https://" ++ url

/-- What the user or the system asks of the agent. -/
inductive Command where
  | tick
  | signIn
  | renewNow
  | autostartSignIn
  | cancelSignIn
  | dropTicket
  | signOutIdp
  | giveUpGrantNow
  | createGrant
  | statusClosed
  | applySettings (change : SettingsChange)
  | elevate (action : Action)

namespace Client

/-- Start the worker that is due. -/
def startDue (os : Os) (start : Option Trigger) (c : Client) : Client :=
  match start with
  | some trigger => c.startWorker os trigger
  | none => c

/-- Run the probe that is due, unless a worker asks the same question. -/
def probeDue (now : ℤ) (due : Bool) (c : Client) : Client :=
  if due ∧ c.busy = false then c.discoverInBackground now else c

/-- One second of housekeeping. -/
def tick (os : Os) (c : Client) : Client :=
  let due := tickAt os os.first c.busy c.refreshToken c.agent
  ((c.withAgent fun _ => due.agent).startDue os due.start).probeDue os.third due.probe

/-- A sign-in the user asked for. On a pinned machine without a grant it is an
authorization. -/
def signIn (os : Os) (c : Client) : Client :=
  let c := c.withAgent fun a => { a with startupRetryAt := none, autostartAwaitsBroker := false }
  if c.agent.settings.grantFor.isSome ∧ c.agent.settings.file.grant = none then c.createGrant
  else c.startWorker os .user

/-- The autostart conditions that do not depend on the broker. -/
def autostartEligible (os : Os) (a : Agent) : Bool :=
  a.phase = .signedOut && (a.settings.windowsSignIn || a.settings.file.grant.isSome) &&
    os.autostartActive

/-- Sign in at logon. -/
def autostartSignIn (os : Os) (c : Client) : Client :=
  let eligible := autostartEligible os c.agent
  let c := c.withAgent fun a =>
    { a with autostartAwaitsBroker := eligible && a.settings.brokerUrl.isNone }
  if eligible ∧ c.agent.settings.brokerUrl.isSome ∧ c.agent.enrolled then
    (c.withAgent fun a => { a with startupRetries := ClientAgent.startupRetries }).startWorker os
      .startup
  else c

/-- Sign off: purge the realm's tickets, and stop expecting this machine to be working. -/
def dropTicket (os : Os) (c : Client) : Client :=
  let realm := c.agent.kerberos.realm
  (c.purgeRealm os realm).withAgent fun a =>
    let a := a.resetSession.expect os false
    if realm = "" ∨ os.purged realm then a.note else a.record os.first (some .other)

/-- The broker URL of the settings sheet. Returns what the file is to hold instead, when the
effective broker stays. -/
def applyBrokerUrl (os : Os) (url : Option String) (c : Client) :
    Client × Option (Option String) :=
  match url with
  | none => (c, none)
  | some url =>
    if c.busy ∨ c.grantCleanup ∨ c.agent.cloudSignOut.isSome ∨
        c.agent.settings.brokerUrlLocked then (c, none)
    else
      let before := c.agent.settings.brokerUrl.getD ""
      let next := typedBrokerUrl url
      if (c.agent.settings.brokerUrlWith next).getD "" = before then (c, some next)
      else
        let oldBroker := if before = "" then none else some before
        match c.retarget os oldBroker next with
        | (c, true) =>
          (c.withAgent fun a => { a with
            startupRetryAt := some os.second
            autostartAwaitsBroker := a.settings.brokerUrl.isNone && autostartEligible os a }, none)
        | (c, false) => (c, none)

/-- Apply the settings sheet. -/
def applySettings (os : Os) (change : SettingsChange) (c : Client) : Client :=
  let (c, brokerUrl) := c.applyBrokerUrl os change.brokerUrl
  let s := c.agent.settings
  let grantFor := if s.grantForLocked then none else change.grantFor
  let windowsSignIn := if s.windowsSignInLocked then none else change.windowsSignIn
  let autostart :=
    if os.autostart.machineWide ∨ s.policy.autostart.isSome then none else change.autostart
  let settings := (s.update os.written fun f =>
    let f := match brokerUrl with
      | some url => { f with brokerUrl := url }
      | none => f
    let f := match grantFor with
      | some target => f.setGrantFor target
      | none => f
    { f with
      windowsSignIn := windowsSignIn.or f.windowsSignIn
      autostart := autostart.or f.autostart }).1
  c.withAgent fun a => { a with settings := settings }

/-- Carry out a command. -/
def command (os : Os) (cmd : Command) (c : Client) : Client :=
  match cmd with
  | .tick => c.tick os
  | .signIn => c.signIn os
  | .renewNow => c.startWorker os .renewal
  | .autostartSignIn => c.autostartSignIn os
  | .cancelSignIn => { c with cancel := true }
  | .dropTicket => c.dropTicket os
  | .signOutIdp => c.beginCloudSignOut
  | .giveUpGrantNow => c.giveUpGrant os c.agent.settings.brokerUrl
  | .createGrant => c.createGrant
  | .statusClosed => c.withAgent fun a => { a with justAuthorized := false }
  | .applySettings change => c.applySettings os change
  | .elevate action =>
    if action = .restartWorkstation ∨ c.agent.settings.brokerUrl.isSome then
      c.spawnElevated (action ≠ .restartWorkstation) action
    else c

/-- A turn of the user thread ends at its last reading of the clock. -/
def settle (os : Os) (c : Client) : Client := { c with clock := os.third }

/-- Nothing runs yet. -/
def idle (os : Os) (a : Agent) : Client where
  agent := a
  busy := false
  cancel := false
  grantCleanup := false
  refreshToken := none
  clock := os.first
  cache := []
  threads := []
  events := []
  slot := []
  revocations := []

/-- The agent as it starts: a live ticket is adopted, or replaced. -/
def init (os : Os) (settings : Settings) : Client :=
  let settings := settings.enforceAutostart os.autostart os.written
  let adopted := (Agent.new os settings).adoptExistingTicket os
  (((idle os adopted.1).startDue os (if adopted.2 then some .startup else none)).probeDue os.third
    true).settle os

end Client

end Kerbridge.ClientAgent

import Kerbridge.AgentTurns

/-!
# The agent's threads, and its runs

What a worker does on its thread, one leg after the other, and the steps of the whole
agent: turns of the user thread, the delivery of any event that waits, a step of any
thread, and a rewrite of the configuration by another process.
-/

namespace Kerbridge.ClientAgent

/-- The tickets of a realm are gone. -/
def purged (realm : String) (cache : List Ticket) : List Ticket :=
  cache.filter fun t => t.realm ≠ realm

/-- What an exchange does to the cache when it lands a ticket: the realm is purged first,
when the cache lets it. -/
def Landed (stamp : DiscoveryStamp) (cache cache' : List Ticket) : Prop :=
  ∃ realm, cache' = ⟨realm, stamp⟩ :: cache ∨ cache' = ⟨realm, stamp⟩ :: purged realm cache

/-- What an exchange that fails may leave: the cache as it was, or purged, or with the
ticket all the same. -/
def Failed (stamp : DiscoveryStamp) (cache cache' : List Ticket) : Prop :=
  cache' = cache ∨ (∃ realm, cache' = purged realm cache) ∨ Landed stamp cache cache'

namespace Worker

/-- The worker's event when it failed. -/
def failed (fault : Option Fault) (w : Worker) : Event :=
  match w.work with
  | .signIn trigger _ _ _ => .signInFailed w.stamp w.effects fault trigger
  | .createGrant _ _ => .grantFailed w.stamp w.effects fault
  | .cloudSignOut => .cloudSignedOut w.stamp false

/-- The worker's event when it stopped without a result. -/
def cancelled (w : Worker) : Event :=
  match w.work with
  | .signIn _ _ _ _ => .cancelled w.stamp w.effects
  | .createGrant _ _ => .cancelled w.stamp w.effects
  | .cloudSignOut => .cloudSignedOut w.stamp false

/-- Whether a panic of the worker is caught. -/
def guarded (w : Worker) : Bool := w.work ≠ .cloudSignOut

/-- Whether a worker waits for the user thread. -/
def waits (w : Worker) : Bool :=
  match w.leg with
  | .publish _ none => true
  | .ask _ _ none => true
  | _ => false

/-- What a worker does first once its document is accepted and the provider discovered. -/
def firstErrand (w : Worker) : Errand :=
  match w.work with
  | .signIn _ _ _ _ => .proveGrant
  | .createGrant _ _ => .acquireToken
  | .cloudSignOut => .logOut

/-- What a worker does with a token. -/
def tokenErrand (w : Worker) : Errand :=
  match w.work with
  | .createGrant _ _ => .register
  | _ => .injectToken

/-- A worker that asks whether its request is still current. -/
def asking (document : Document) (errand : Errand) (w : Worker) : Worker :=
  { w with leg := .ask document errand none }

/-- A worker that is about to put a ticket into the cache. -/
def injecting (document : Document) (w : Worker) : Worker :=
  { w with effects := { w.effects with
    injectionRealm := some document.snapshot.kerberos.realm } }

/-- Whether nothing may open a window. -/
def silent (w : Worker) : Bool :=
  match w.work with
  | .signIn trigger _ _ _ => trigger.silent
  | _ => false

/-- Whether the platform's credential store is asked first. -/
def useNative (w : Worker) : Bool :=
  match w.work with
  | .signIn _ native _ _ => native
  | .createGrant native _ => native
  | .cloudSignOut => false

/-- What a worker may get a token from, with what that changes: the platform's store, the
refresh token that is kept, or the browser. -/
inductive Acquires (w : Worker) (refreshToken : Option String) : WorkerEffects → Prop
  | native (h : w.useNative = true) : Acquires w refreshToken w.effects
  | refreshed (h : w.silent = true) (held : refreshToken.isSome = true)
      (renewed : Option String) :
      Acquires w refreshToken
        { w.effects with
          refreshToken := match renewed with
            | some token => some (some token)
            | none => w.effects.refreshToken }
  | browser (h : w.silent = false) (token : Option String) :
      Acquires w refreshToken
        { w.effects with refreshToken := some token, browserSessionStarted := true }

/-- What the agent says of a grant whose proof was refused, on a pinned machine. -/
def pinnedFault (refused : Bool) : Option Fault := if refused then some .grantRefused else none

/-- One step of a worker: what becomes of the worker, the event it posts, and the cache. -/
inductive Moves (cancel : Bool) (refreshToken : Option String) (cache : List Ticket) :
    Worker → Option Worker → Option Event → List Ticket → Prop
  | fetchFailed {w : Worker} (fault : Option Fault) (h : w.leg = .fetch) :
      Moves cancel refreshToken cache w none (some (w.failed fault)) cache
  | fetched {w : Worker} (document : Document) (h : w.leg = .fetch) :
      Moves cancel refreshToken cache w (some { w with leg := .publish document none })
        (some (.discovered w.stamp document.snapshot true)) cache
  | refused {w : Worker} {document : Document} (h : w.leg = .publish document (some false)) :
      Moves cancel refreshToken cache w none (some w.cancelled) cache
  | published {w : Worker} {document : Document} (h : w.leg = .publish document (some true)) :
      Moves cancel refreshToken cache w (some { w with leg := .discoverOidc document }) none cache
  | oidcFailed {w : Worker} {document : Document} (fault : Option Fault)
      (h : w.leg = .discoverOidc document) :
      Moves cancel refreshToken cache w none (some (w.failed fault)) cache
  | grantsOff {w : Worker} {document : Document} {native : Bool} {target : Option String}
      (h : w.leg = .discoverOidc document) (hwork : w.work = .createGrant native target)
      (hoff : document.snapshot.deviceGrant.enabled = false) :
      Moves cancel refreshToken cache w none (some (w.failed (some .grantRefused))) cache
  | discovered {w : Worker} {document : Document} (h : w.leg = .discoverOidc document)
      (hon : ∀ native target, w.work = .createGrant native target →
        document.snapshot.deviceGrant.enabled = true) :
      Moves cancel refreshToken cache w (some (w.asking document w.firstErrand))
        (some (.current w.stamp)) cache
  | superseded {w : Worker} {document : Document} {errand : Errand}
      (h : w.leg = .ask document errand (some false)) :
      Moves cancel refreshToken cache w none (some w.cancelled) cache
  | confirmed {w : Worker} {document : Document} {errand : Errand}
      (h : w.leg = .ask document errand (some true)) :
      Moves cancel refreshToken cache w (some { w with leg := .act document errand }) none cache
  | noGrant {w : Worker} {document : Document} {trigger : Trigger} {native : Bool}
      (h : w.leg = .act document .proveGrant)
      (hwork : w.work = .signIn trigger native none none) :
      Moves cancel refreshToken cache w (some (w.asking document .acquireToken))
        (some (.current w.stamp)) cache
  | noGrantPinned {w : Worker} {document : Document} {trigger : Trigger} {native : Bool}
      {pin : String} (h : w.leg = .act document .proveGrant)
      (hwork : w.work = .signIn trigger native none (some pin)) :
      Moves cancel refreshToken cache w none (some (w.failed none)) cache
  | proved {w : Worker} {document : Document} {trigger : Trigger} {native : Bool}
      {grant : Grant} {pin : Option String} {cache' : List Ticket} (injected : Injected)
      (h : w.leg = .act document .proveGrant)
      (hwork : w.work = .signIn trigger native (some grant) pin)
      (hcache : Landed w.stamp cache cache') :
      Moves cancel refreshToken cache w none
        (some (.signedIn w.stamp injected document.snapshot.kerberos.realm
          (w.injecting document).effects (some grant.grantId))) cache'
  | proofRefused {w : Worker} {document : Document} {trigger : Trigger} {native : Bool}
      {grant : Grant} (invalid : Bool) (h : w.leg = .act document .proveGrant)
      (hwork : w.work = .signIn trigger native (some grant) none) :
      Moves cancel refreshToken cache w
        (some (({ w.injecting document with effects :=
          { (w.injecting document).effects with
            staleGrant := if invalid then some grant else w.effects.staleGrant } }).asking
              document .acquireToken))
        (some (.current w.stamp)) cache
  | proofRefusedPinned {w : Worker} {document : Document} {trigger : Trigger} {native : Bool}
      {grant : Grant} {pin : String} (invalid : Bool) (h : w.leg = .act document .proveGrant)
      (hwork : w.work = .signIn trigger native (some grant) (some pin)) :
      Moves cancel refreshToken cache w none
        (some ({ w.injecting document with effects :=
          { (w.injecting document).effects with
            staleGrant := if invalid then some grant else w.effects.staleGrant } }.failed
              (pinnedFault (!invalid)))) cache
  | proofFailed {w : Worker} {document : Document} {trigger : Trigger} {native : Bool}
      {grant : Grant} {pin : Option String} {cache' : List Ticket} (fault : Option Fault)
      (h : w.leg = .act document .proveGrant)
      (hwork : w.work = .signIn trigger native (some grant) pin)
      (hcache : Failed w.stamp cache cache') :
      Moves cancel refreshToken cache w none (some ((w.injecting document).failed fault)) cache'
  | acquired {w : Worker} {document : Document} {effects : WorkerEffects}
      (h : w.leg = .act document .acquireToken) (heffects : Acquires w refreshToken effects) :
      Moves cancel refreshToken cache w
        (some ({ w with effects := effects }.asking document w.tokenErrand))
        (some (.current w.stamp)) cache
  | dismissed {w : Worker} {document : Document} (h : w.leg = .act document .acquireToken)
      (hloud : w.silent = false) (hcancel : cancel = true) :
      Moves cancel refreshToken cache w none (some w.cancelled) cache
  | acquireFailed {w : Worker} {document : Document} (fault : Option Fault)
      (h : w.leg = .act document .acquireToken) :
      Moves cancel refreshToken cache w none (some (w.failed fault)) cache
  | injected {w : Worker} {document : Document} {cache' : List Ticket} (injected : Injected)
      (h : w.leg = .act document .injectToken) (hcache : Landed w.stamp cache cache') :
      Moves cancel refreshToken cache w none
        (some (.signedIn w.stamp injected document.snapshot.kerberos.realm
          (w.injecting document).effects none)) cache'
  | injectFailed {w : Worker} {document : Document} {cache' : List Ticket}
      (fault : Option Fault) (h : w.leg = .act document .injectToken)
      (hcache : Failed w.stamp cache cache') :
      Moves cancel refreshToken cache w none (some ((w.injecting document).failed fault)) cache'
  | registered {w : Worker} {document : Document} (grant : Grant)
      (h : w.leg = .act document .register) :
      Moves cancel refreshToken cache w none
        (some (.grantCreated w.stamp grant document.baseUrl w.effects)) cache
  | registerFailed {w : Worker} {document : Document} (fault : Option Fault)
      (h : w.leg = .act document .register) :
      Moves cancel refreshToken cache w none (some (w.failed fault)) cache
  | loggedOut {w : Worker} {document : Document} (asked : Bool)
      (h : w.leg = .act document .logOut) :
      Moves cancel refreshToken cache w none (some (.cloudSignedOut w.stamp asked)) cache
  | panicked {w : Worker} (hguarded : w.guarded = true) (hruns : w.waits = false) :
      Moves cancel refreshToken cache w none (some (w.failed (some .other))) cache

end Worker

/-- One step of a thread: what becomes of it, the event it posts, the cache, and the grant
it gives back. -/
inductive Thread.Moves (cancel : Bool) (refreshToken : Option String) (cache : List Ticket) :
    Thread → Option Thread → Option Event → List Ticket → Option (Option String × Grant) → Prop
  | worker {w : Worker} {w' : Option Worker} {ev : Option Event} {cache' : List Ticket}
      (h : w.Moves cancel refreshToken cache w' ev cache') :
      Moves cancel refreshToken cache (.worker w) (w'.map Thread.worker) ev cache' none
  | lookedUp (generation : ℕ) (url : Option String) :
      Moves cancel refreshToken cache (.probe (.srv generation)) none
        (some (.brokerLookup generation url)) cache none
  | probed (stamp : DiscoveryStamp) (snapshot : BrokerSnapshot) :
      Moves cancel refreshToken cache (.probe (.config stamp)) none
        (some (.discovered stamp snapshot false)) cache none
  | probeFailed (stamp : DiscoveryStamp) :
      Moves cancel refreshToken cache (.probe (.config stamp)) none
        (some (.discoveryFailed stamp)) cache none
  | elevating (action : Action) (recheck : Bool) :
      Moves cancel refreshToken cache (.elevated action recheck) (some (.elevated action recheck))
        (some (.elevationGranted action)) cache none
  | elevated (action : Action) (recheck : Bool) (outcome : Outcome) :
      Moves cancel refreshToken cache (.elevated action recheck) none
        (some (.elevatedFinished action outcome recheck)) cache none
  | gaveUp (generation : ℕ) (broker : Option String) (grant : Grant)
      (saved report revoked : Bool) :
      Moves cancel refreshToken cache (.giveUp generation broker grant saved report) none
        (some (.grantGivenUp generation broker revoked saved report)) cache
        (some (broker, grant))
  | compensated (stamp : DiscoveryStamp) (broker : String) (grant : Grant) :
      Moves cancel refreshToken cache (.compensate stamp broker grant) none
        (some (.staleGrantCompensated stamp)) cache (some (some broker, grant))

/-- What a step is. -/
inductive Label where
  | command (cmd : Command)
  | deliver (ev : Event)
  | thread
  | rewrite

/-- The steps of the agent. Any event that waits may be the next to be delivered, any
thread may take the next step, and another process may rewrite the configuration. -/
inductive Step : Client → Label → Client → Prop
  | command {c : Client} (os : Os) (hclock : c.clock ≤ os.first) (cmd : Command) :
      Step c (.command cmd) ((c.command os cmd).settle os)
  | deliver {c : Client} (os : Os) (hclock : c.clock ≤ os.first) {before after : List Event}
      {ev : Event} (hev : c.events = before ++ ev :: after) :
      Step c (.deliver ev) (({ c with events := before ++ after }.applyEvent os ev).settle os)
  | thread {c : Client} {before after : List Thread} {t : Thread} {t' : Option Thread}
      {ev : Option Event} {cache : List Ticket} {given : Option (Option String × Grant)}
      (ht : c.threads = before ++ t :: after)
      (hmoves : t.Moves c.cancel c.refreshToken c.cache t' ev cache given) :
      Step c .thread { c with
        threads := before ++ t'.toList ++ after
        events := c.events ++ ev.toList
        cache := cache
        revocations := given.toList ++ c.revocations }
  | rewrite {c : Client} (disk : Disk) :
      Step c .rewrite (c.withAgent fun a => { a with settings := { a.settings with disk := disk } })

/-- The states an agent can reach. -/
inductive Reachable : Client → Prop
  | start (os : Os) (settings : Settings) : Reachable (Client.init os settings)
  | step {c c' : Client} {l : Label} (h : Reachable c) (hstep : Step c l c') : Reachable c'

/-- What holds of an agent at its start and is kept by each of its steps holds of it in
every state it reaches. -/
theorem Reachable.keeps {Inv : Client → Prop}
    (hstart : ∀ os settings, Inv (Client.init os settings))
    (hstep : ∀ c l c', Inv c → Step c l c' → Inv c') {c : Client} (h : Reachable c) : Inv c := by
  induction h with
  | start os settings => exact hstart os settings
  | step _ hs ih => exact hstep _ _ _ ih hs

/-- The steps from one state to another, each of which satisfies a condition. -/
inductive Run (P : Client → Label → Client → Prop) : Client → Client → Prop
  | here (c : Client) : Run P c c
  | step {c d e : Client} {l : Label} (h : Run P c d) (hstep : Step d l e) (hP : P d l e) :
      Run P c e

/-- What holds in a state and is kept by each step of a run holds after it. -/
theorem Run.keeps {P : Client → Label → Client → Prop} {Inv : Client → Prop}
    (hstep : ∀ c l c', Inv c → Step c l c' → P c l c' → Inv c') {c d : Client} (h : Run P c d)
    (hc : Inv c) : Inv d := by
  induction h with
  | here => exact hc
  | step _ hs hP ih => exact hstep _ _ _ ih hs hP

/-- A run from a reachable state stays among the reachable states. -/
theorem Run.reachable {P : Client → Label → Client → Prop} {c d : Client} (h : Run P c d)
    (hc : Reachable c) : Reachable d := by
  induction h with
  | here => exact hc
  | step _ hs _ ih => exact ih.step hs

section Sample

/-- A machine with a broker and a realm of its own. -/
def sampleSettings : Settings where
  file := { FileConfig.empty with
    brokerUrl := some "https://broker.example"
    cache := ⟨"EXAMPLE.SITE", [], []⟩ }
  policy := ⟨none, none, none, none⟩
  discovered := none
  defaults := none
  disk := .nowhere
  windows := false

/-- A system that does what it is asked, at one reading of the clock. -/
def sampleOs (now : ℤ) (ticket : Option CachedTgt) : Os where
  first := now
  second := now
  third := now
  jitter := fun _ => 0
  written := fun _ => true
  purged := fun _ => true
  realmTgt := fun _ => some ticket
  enrolled := fun _ => true
  autostart := ⟨false, true, true⟩
  autostartActive := true
  ordered := ⟨le_refl now, le_refl now⟩
  bounded := fun span => ⟨le_refl 0, le_max_right span 0⟩

end Sample

end Kerbridge.ClientAgent

import Kerbridge.AgentPieces

/-!
# Every handler, piece by piece

How each verb, event and command of the user thread is made of pieces.
-/

namespace Kerbridge.ClientAgent

section Off

variable {os : Os} {now : ℤ} {a : Agent}

/-- Nothing is held while nothing is connected. -/
theorem holdsLiveTicket_off (h : a.phase.off = true) : a.holdsLiveTicket now = false := by
  unfold Agent.holdsLiveTicket
  cases hphase : a.phase with
  | signedOut => simp
  | error => simp
  | signingIn => rw [hphase] at h; cases h
  | connected => rw [hphase] at h; cases h
  | expired => rw [hphase] at h; cases h

/-- An agent whose two parts are those of another has its phase. -/
theorem off_of_core {b : Agent} (hcore : b.core = a.core) (h : a.phase.off = true) :
    b.phase.off = true := by
  have hphase : b.phase = a.phase := congrArg (fun x => x.session.phase) hcore
  rw [hphase]
  exact h

/-- A sign-in that is over connects nothing that was not connected. -/
theorem off_released (h : a.phase.off = true) : (a.released now).phase.off = true := by
  unfold Agent.released
  split
  · rename_i hphase
    rw [hphase] at h
    cases h
  · exact h

/-- A sign-in that fails connects nothing that was not connected. -/
theorem off_signInFailed (fault : Option Fault) (trigger : Trigger) (h : a.phase.off = true) :
    (Agent.signInFailed os fault trigger a).phase.off = true := by
  have hrecord := off_of_core (core_record os.first a fault) h
  have hdead : ∀ b : Agent, (b.failedDead os fault trigger).phase.off = true := by
    intro b
    refine off_of_core (core_retryLater os _ fault trigger) ?_
    cases trigger.quiet with
    | true => simp [Phase.off]
    | false => simp [Phase.off]
  unfold Agent.signInFailed
  dsimp only
  rw [holdsLiveTicket_off hrecord]
  exact hdead _

variable {busy : Bool} {d : Due}

/-- A tick connects nothing. -/
theorem off_tickAt (refreshToken : Option String) (h : a.phase.off = true) :
    (tickAt os now busy refreshToken a).agent.phase.off = true := by
  have hprobing : (Due.probing now busy a).agent.phase.off = true :=
    off_of_core (core_probing a) h
  have hexpiring : ((Due.probing now busy a).expiring now).agent.phase.off = true := by
    unfold Due.expiring
    split
    · rename_i hover
      rw [hover.1] at hprobing
      cases hprobing
    · exact hprobing
  unfold tickAt
  dsimp only
  split
  · rename_i hexpired
    rw [hexpired] at hexpiring
    cases hexpiring
  · split
    · exact off_of_core core_retrying hexpiring
    · rename_i hconnected
      rw [not_not] at hconnected
      rw [hconnected] at hexpiring
      cases hexpiring

end Off

section Handlers

variable {os : Os} {now : ℤ} {l : Label} {i : Option Holder} {c d : Client}

/-- The clock moves on. -/
theorem quiet_settle : Quiet c (c.settle os) := Quiet.of_core rfl rfl

theorem quiet_purgeRealm (realm : String) : Quiet c (c.purgeRealm os realm) := by
  unfold Client.purgeRealm
  split
  · exact {
      busy := rfl
      slot := rfl
      threads := rfl
      events := rfl
      cache := fun t ht => (List.mem_filter.mp ht).1
      revocations := rfl
      operation := rfl
      generation := le_rfl
      published := rfl
      expectations := rfl
      off := id }
  · exact Quiet.refl c

theorem quiet_applyEffects (effects : WorkerEffects) : Quiet c (c.applyEffects os effects) := by
  refine Quiet.of_core ?_ (core_applyEffects effects)
  unfold Client.applyEffects
  cases effects.refreshToken with
  | none => rfl
  | some token => rfl

/-- An operation gives the slot back, when it holds it. -/
theorem pieces_finishBusy {stamp : DiscoveryStamp} (hl : l.inHand = some (.stamped stamp))
    (stale : Bool) :
    Pieces l (some (.stamped stamp), c) (none, c.finishBusy os stamp stale) := by
  unfold Client.finishBusy
  cases hoperation : c.agent.busyOperation with
  | none =>
    refine .single (.ignored ?_)
    rw [hoperation]
    simp
  | some operation =>
    dsimp only
    split
    · refine .single (.gave hl ?_)
      have hended : ({ c.agent with busyOperation := none }.ended
          operation.action).ledger = { c.agent.ledger with operation := none } := rfl
      cases stale with
      | true =>
        have hledger := ledger_released os.first
          ({ c.agent with busyOperation := none }.ended operation.action)
        have hoff := @off_released os.first
          ({ c.agent with busyOperation := none }.ended operation.action)
        rw [hended] at hledger
        exact {
          shared := rfl
          operation := Or.inl (congrArg Ledger.operation hledger)
          generation := (congrArg Ledger.generation hledger).ge
          published := congrArg Ledger.published hledger
          expectations := congrArg Ledger.expectations hledger
          off := hoff }
      | false =>
        exact {
          shared := rfl
          operation := Or.inl rfl
          generation := le_rfl
          published := rfl
          expectations := rfl
          off := id }
    · rename_i hother
      refine .single (.ignored ?_)
      rw [hoperation]
      simpa using hother

/-- An elevated operation gives the slot back. -/
theorem pieces_elevatedFinished {action : Action} (hl : l.inHand = some (.elevated action))
    (outcome : Outcome) (recheck : Bool) :
    Pieces l (some (.elevated action), c)
      (none, c.elevatedFinished os action outcome recheck) := by
  have hcore := core_elevated os c.agent action outcome recheck
  refine .single (.gave hl ?_)
  exact {
    shared := rfl
    operation := Or.inr ⟨action, rfl, congrArg (fun x => x.ledger.operation) hcore⟩
    generation := (congrArg (fun x => x.ledger.generation) hcore).ge
    published := congrArg (fun x => x.ledger.published) hcore
    expectations := congrArg (fun x => x.ledger.expectations) hcore
    off := off_of_core hcore }

/-- A request that leaves the slot alone. -/
theorem quiet_advanceDiscovery {a : Agent} {stamp : Option DiscoveryStamp}
    (h : c.agent.advanceDiscovery = (a, stamp)) (hshared : d.shared = c.shared)
    (hagent : d.agent = a) : Quiet c d := by
  cases h
  exact {
    toSteady := Steady.of_shared hshared (by rw [hagent]) (by rw [hagent]; exact Nat.le_succ _)
    published := by rw [hagent]; rfl
    expectations := by rw [hagent]
    off := by rw [hagent]; exact id }

/-- A worker that is started under a new request takes the slot. -/
theorem took_advanceDiscovery {a a' : Agent} {stamp : DiscoveryStamp} {work : Work}
    {action : Action} (h : c.agent.advanceDiscovery = (a, some stamp))
    (hshared : d.shared = { c.shared with
      busy := true
      threads := c.threads ++ [.worker ⟨work, stamp, .none, .fetch⟩]
      slot := .took (.stamped stamp) :: c.slot })
    (hagent : d.agent = a') (hledger : a'.ledger = (a.startedBusy stamp action).ledger)
    (hoff : (Worker.mk work stamp .none .fetch).signsIn = true ∨
      (c.agent.phase.off = true → a'.phase.off = true)) :
    Took c (.worker ⟨work, stamp, .none, .fetch⟩) (.stamped stamp) d := by
  have hbusy : (a.startedBusy stamp action).ledger =
      { a.ledger with operation := some ⟨stamp, action⟩ } :=
    congrArg Core.ledger (core_startedBusy a stamp action)
  rw [hbusy] at hledger
  unfold Agent.advanceDiscovery at h
  dsimp only at h
  cases hurl : c.agent.settings.brokerUrl with
  | none =>
    rw [hurl] at h
    cases h
  | some url =>
    rw [hurl] at h
    cases h
    have hgeneration : a'.discoveryGeneration = c.agent.discoveryGeneration + 1 :=
      congrArg Ledger.generation hledger
    refine {
      shared := hshared
      operation := ?_
      generation := ?_
      fresh := ?_
      published := ?_
      expectations := ?_
      off := ?_ }
    · rw [hagent, show a'.busyOperation = _ from congrArg Ledger.operation hledger]
      rfl
    · rw [hagent, hgeneration]
      exact Nat.le_succ _
    · intro stamp hstamp
      cases hstamp
      rw [hagent, hgeneration]
      exact ⟨Nat.lt_succ_self _, le_rfl⟩
    · rw [hagent]
      exact congrArg Ledger.published hledger
    · rw [hagent]
      exact congrArg Ledger.expectations hledger
    · rw [hagent]
      exact hoff

theorem pieces_startWorker (trigger : Trigger) :
    Pieces l (none, c) (none, c.startWorker os trigger) := by
  unfold Client.startWorker
  split
  · split
    · exact (Quiet.withAgent rfl).pieces
    · exact .refl
  · split
    · exact .refl
    · rename_i hbusy
      rw [Bool.not_eq_true] at hbusy
      split
      · rename_i heq
        refine .single (.quiet ?_)
        exact quiet_advanceDiscovery heq rfl rfl
      · rename_i heq
        exact .single (.took rfl rfl hbusy
          (took_advanceDiscovery heq rfl rfl (ledger_signing _ trigger) (Or.inl rfl)))

theorem pieces_createGrant : Pieces l (none, c) (none, c.createGrant) := by
  unfold Client.createGrant
  split
  · exact .refl
  · rename_i hfree
    have hbusy : c.busy = false := by
      rw [not_or, not_or, Bool.not_eq_true] at hfree
      exact Bool.eq_false_iff.mpr hfree.2.2
    split
    · rename_i heq
      refine .single (.quiet ?_)
      exact quiet_advanceDiscovery heq rfl rfl
    · rename_i a stamp heq
      have hphase : c.agent.phase = a.phase :=
        congrArg (fun x : Agent × Option DiscoveryStamp => x.1.phase) heq
      have hoff : c.agent.phase.off = true →
          (a.startedBusy stamp .createGrant).phase.off = true := by
        intro h
        rw [hphase] at h
        exact @off_of_core a (a.started .createGrant) (core_started a .createGrant) h
      exact .single (.took rfl rfl hbusy
        (took_advanceDiscovery heq rfl rfl rfl (Or.inr hoff)))

theorem pieces_spawnElevated (recheck : Bool) (action : Action) :
    Pieces l (none, c) (none, c.spawnElevated recheck action) := by
  have hcore := core_started c.agent action
  unfold Client.spawnElevated
  split
  · exact .refl
  · rename_i hbusy
    rw [Bool.not_eq_true] at hbusy
    refine .single (.took (t := .elevated action recheck) rfl rfl hbusy ?_)
    exact {
      shared := rfl
      operation := congrArg (fun x => x.ledger.operation.map BusyOperation.stamp) hcore
      generation := (congrArg (fun x => x.ledger.generation) hcore).ge
      fresh := fun stamp hstamp => by cases hstamp
      published := congrArg (fun x => x.ledger.published) hcore
      expectations := congrArg (fun x => x.ledger.expectations) hcore
      off := Or.inr (off_of_core hcore) }

theorem pieces_discoverInBackground : Pieces l (i, c) (i, c.discoverInBackground now) := by
  have hbegun := core_beginProbe now c.agent
  have hquiet : ∀ d : Client, d.shared = c.shared → d.agent = (c.agent.beginProbe now).1 →
      Quiet c d := by
    intro d hshared hagent
    rcases hbegun with hcore | hcore
    · refine Quiet.of_core hshared ?_
      rw [hagent]
      exact hcore
    · have hledger := congrArg Core.ledger hcore
      have hphase : (c.agent.beginProbe now).1.phase = c.agent.phase :=
        congrArg (fun x => x.session.phase) hcore
      refine {
        toSteady := Steady.of_shared hshared ?_ ?_
        published := ?_
        expectations := ?_
        off := ?_ }
      · rw [hagent]
        exact congrArg Ledger.operation hledger
      · rw [hagent, show (c.agent.beginProbe now).1.discoveryGeneration = _ from
          congrArg Ledger.generation hledger]
        exact Nat.le_succ _
      · rw [hagent]
        exact congrArg Ledger.published hledger
      · rw [hagent]
        exact congrArg Ledger.expectations hledger
      · rw [hagent, hphase]
        exact id
  unfold Client.discoverInBackground
  split
  · rename_i a probe heq
    have hagent := congrArg Prod.fst heq
    have hspawned : Pieces l (i, c) (i, { c with agent := a }) :=
      .single (.quiet (hquiet _ rfl hagent.symm))
    exact hspawned.tail (.spawned (c := { c with agent := a }) (t := .probe probe) rfl rfl)
  · rename_i a heq
    have hagent := congrArg Prod.fst heq
    exact .single (.quiet (hquiet _ rfl hagent.symm))

theorem pieces_beginCloudSignOut : Pieces l (i, c) (i, c.beginCloudSignOut) := by
  unfold Client.beginCloudSignOut
  split
  · exact .refl
  · split
    · rename_i heq
      refine .single (.quiet ?_)
      exact quiet_advanceDiscovery heq rfl rfl
    · rename_i a stamp heq
      have hadvanced : Quiet c { c with agent := a } := quiet_advanceDiscovery heq rfl rfl
      have hstarted : Quiet { c with agent := a } { c with
          agent := { a.started .signOutIdp with cloudSignOut := some stamp }
          refreshToken := none } :=
        Quiet.of_core rfl (core_started a .signOutIdp)
      exact (hadvanced.trans hstarted).pieces.tail
        (.spawned (t := .worker ⟨.cloudSignOut, stamp, .none, .fetch⟩) rfl rfl)

theorem pieces_giveUpCapturedGrant (broker : Option String) (grant : Grant)
    (saved report : Bool) :
    Pieces l (i, c) (i, c.giveUpCapturedGrant broker grant saved report) := by
  unfold Client.giveUpCapturedGrant
  split
  · exact .refl
  · have hstarted : Quiet c { c with
        agent := c.agent.startedGrantCleanup.1
        grantCleanup := true } := Quiet.of_core rfl (core_startedGrantCleanup c.agent)
    exact hstarted.pieces.tail (.spawned
      (t := .giveUp c.agent.startedGrantCleanup.2 broker grant saved report) rfl rfl)

/-- An update of the settings is quiet. -/
theorem quiet_update {change : FileConfig → FileConfig} : Quiet c (c.withAgent fun a =>
    { a with settings := (a.settings.update os.written change).1 }) :=
  Quiet.withAgent (core_settings (Settings.update_defaults _))

theorem pieces_giveUpGrant (broker : Option String) :
    Pieces l (i, c) (i, c.giveUpGrant os broker) := by
  unfold Client.giveUpGrant
  split
  · exact .refl
  · dsimp only
    split
    · exact quiet_update.pieces
    · exact quiet_update.pieces.trans (pieces_giveUpCapturedGrant broker _ _ true)

/-- A retarget clears what the broker published, or does nothing. -/
theorem pieces_retarget {change : SettingsChange} (hl : l = .command (.applySettings change))
    (oldBroker brokerUrl : Option String) :
    Pieces l (i, c) (i, (c.retarget os oldBroker brokerUrl).1) := by
  unfold Client.retarget
  dsimp only
  split
  · exact .refl
  · have hpurged : Quiet c (c.purgeRealm os c.agent.settings.file.cache.realm) :=
      quiet_purgeRealm _
    have hsteady : ∀ b d : Client, d.shared = b.shared →
        d.agent.busyOperation = b.agent.busyOperation →
        d.agent.discoveryGeneration = b.agent.discoveryGeneration + 1 → Steady b d := by
      intro b d hshared hoperation hgeneration
      refine Steady.of_shared hshared hoperation ?_
      rw [hgeneration]
      exact Nat.le_succ _
    split
    · exact hpurged.pieces.tail (.cleared hl (hsteady _ _ rfl rfl rfl) rfl rfl rfl)
    · refine Relation.ReflTransGen.trans ?_ (pieces_giveUpCapturedGrant oldBroker _ _ false)
      exact hpurged.pieces.tail (.cleared hl (hsteady _ _ rfl rfl rfl) rfl rfl rfl)

/-- What is done when an operation's result is accepted. -/
theorem pieces_finished {stamp : DiscoveryStamp} (hl : l.inHand = some (.stamped stamp))
    (effects : WorkerEffects) : Pieces l (some (.stamped stamp), c)
      (none, (c.finishBusy os stamp false).applyEffects os effects) :=
  (pieces_finishBusy hl false).quiet (quiet_applyEffects effects)

/-- What a sign-in that landed leaves of the ledger. -/
theorem ledger_landed (injected : Injected) (viaGrant : Option String) (a : Agent) :
    ((((a.lossLanded.recordGrant os viaGrant injected.principal).land os
      injected).spendAuthorization).expect os true).ledger.operation = a.busyOperation ∧
    ((((a.lossLanded.recordGrant os viaGrant injected.principal).land os
      injected).spendAuthorization).expect os true).ledger.generation = a.discoveryGeneration ∧
    ((((a.lossLanded.recordGrant os viaGrant injected.principal).land os
      injected).spendAuthorization).expect os true).ledger.published = a.published := by
  have hledger : (((a.lossLanded.recordGrant os viaGrant injected.principal).land os
      injected).spendAuthorization).ledger = a.ledger :=
    (congrArg Core.ledger (core_spendAuthorization _)).trans
      (congrArg Core.ledger (core_recordGrant os a.lossLanded viaGrant injected.principal))
  have hexpect := congrArg Core.ledger (core_expect os
    (((a.lossLanded.recordGrant os viaGrant injected.principal).land os
      injected).spendAuthorization) true)
  refine ⟨?_, ?_, ?_⟩
  · exact (congrArg Ledger.operation hexpect).trans (congrArg Ledger.operation hledger)
  · exact (congrArg Ledger.generation hexpect).trans (congrArg Ledger.generation hledger)
  · exact (congrArg Ledger.published hexpect).trans (congrArg Ledger.published hledger)

theorem pieces_signedIn {stamp : DiscoveryStamp} {injected : Injected} {realm : String}
    {effects : WorkerEffects} {viaGrant : Option String}
    (hl : l = .deliver (.signedIn stamp injected realm effects viaGrant)) :
    Pieces l (some (.stamped stamp), c)
      (none, c.signedIn os stamp injected effects viaGrant) := by
  have hinHand : l.inHand = some (.stamped stamp) := by
    rw [hl]
    rfl
  have hlanded := @ledger_landed os injected viaGrant
    ((c.finishBusy os stamp false).applyEffects os effects).agent
  have hfinished : Pieces l (some (.stamped stamp), c)
      (none, (c.finishBusy os stamp false).applyEffects os effects) :=
    pieces_finished hinHand effects
  refine hfinished.tail ?_
  refine .landed hl ?_ hlanded.2.2
  exact Steady.of_shared rfl hlanded.1 hlanded.2.1.ge

theorem pieces_signInFailed {stamp : DiscoveryStamp} (hl : l.inHand = some (.stamped stamp))
    (effects : WorkerEffects) (fault : Option Fault) (trigger : Trigger) :
    Pieces l (some (.stamped stamp), c)
      (none, c.signInFailed os stamp effects fault trigger) :=
  (pieces_finished hl effects).quiet
    (Quiet.of_ledger rfl (ledger_signInFailed os _ fault trigger)
      (off_signInFailed fault trigger))

theorem pieces_cancelled {stamp : DiscoveryStamp} (hl : l.inHand = some (.stamped stamp))
    (effects : WorkerEffects) :
    Pieces l (some (.stamped stamp), c) (none, c.cancelled os stamp effects) :=
  (pieces_finished hl effects).quiet
    (Quiet.of_ledger rfl (ledger_released os.first _) off_released)

theorem pieces_grantCreated {stamp : DiscoveryStamp} (hl : l.inHand = some (.stamped stamp))
    (grant : Grant) (effects : WorkerEffects) :
    Pieces l (some (.stamped stamp), c) (none, c.grantCreated os stamp grant effects) := by
  have hstored : Pieces l (some (.stamped stamp), c) (none,
      ((c.finishBusy os stamp false).applyEffects os effects).withAgent fun a =>
        { a with settings :=
          (a.settings.update os.written fun f => { f with grant := some grant }).1 }) :=
    (pieces_finished hl effects).quiet quiet_update
  unfold Client.grantCreated
  dsimp only
  split
  · exact (hstored.quiet (Quiet.withAgent rfl)).trans (pieces_startWorker .granted)
  · exact hstored.quiet (Quiet.withAgent rfl)

theorem pieces_grantFailed {stamp : DiscoveryStamp} (hl : l.inHand = some (.stamped stamp))
    (effects : WorkerEffects) (fault : Option Fault) :
    Pieces l (some (.stamped stamp), c) (none, c.grantFailed os stamp effects fault) :=
  (pieces_finished hl effects).quiet (Quiet.withAgent (core_record os.first _ fault))

theorem quiet_brokerLookup (generation : ℕ) (url : Option String) :
    Quiet c (c.brokerLookup os generation url) :=
  Quiet.of_core rfl (core_brokerLookup generation url)

theorem quiet_cloudSignedOut (stamp : DiscoveryStamp) (asked : Bool) :
    Quiet c (c.cloudSignedOut os stamp asked) :=
  Quiet.of_core rfl (core_cloudSignedOut stamp asked)

theorem quiet_grantGivenUp (generation : ℕ) : Quiet c (c.grantGivenUp generation) := by
  refine Quiet.of_core ?_ (core_grantGivenUp generation)
  unfold Client.grantGivenUp
  split
  · rfl
  · rfl

theorem quiet_discoveryFailed (stamp : DiscoveryStamp) :
    Quiet c (c.discoveryFailed os stamp) := Quiet.of_core rfl (core_discoveryFailed stamp)

/-- What a document that is accepted does to the ledger. A session that it ends leaves
nothing connected. -/
theorem ledger_replaceBrokerSnapshot {a : Agent} {stamp : DiscoveryStamp}
    (snapshot : BrokerSnapshot) (h : a.discoveryIsCurrent stamp = true) :
    (a.replaceBrokerSnapshot os stamp snapshot).2 = true ∧
    (a.replaceBrokerSnapshot os stamp snapshot).1.ledger =
      { a.ledger with published := snapshot.published } ∧
    (a.phase.off = true →
      (a.replaceBrokerSnapshot os stamp snapshot).1.phase.off = true) := by
  have hended : (if a.changesRealm snapshot then (a.expect os false).resetSession
      else a).ledger = a.ledger := by
    split
    · exact congrArg Core.ledger (core_expect os a false)
    · rfl
  have hoff : a.phase.off = true → (if a.changesRealm snapshot then
      (a.expect os false).resetSession else a).phase.off = true := by
    intro h
    split
    · rfl
    · exact h
  have hfault : ∀ b : Agent,
      (if b.fault = some .network then b.record os.first none else b).core = b.core := by
    intro b
    split
    · exact core_record os.first b none
    · rfl
  have hpublish : ∀ b : Agent,
      (b.publish os snapshot).ledger = { b.ledger with published := snapshot.published } :=
    fun b => rfl
  unfold Agent.replaceBrokerSnapshot
  rw [if_pos h]
  refine ⟨rfl, ?_, ?_⟩
  · have hledger := congrArg Core.ledger (hfault ((if a.changesRealm snapshot then
      (a.expect os false).resetSession else a).publish os snapshot))
    refine Eq.trans ?_ (hledger.trans ((hpublish _).trans ?_))
    · rfl
    · rw [hended]
  · intro h
    exact off_of_core (hfault _) (hoff h)

/-- A document that is not current changes nothing. -/
theorem replaceBrokerSnapshot_stale {a : Agent} {stamp : DiscoveryStamp}
    (snapshot : BrokerSnapshot) (h : a.discoveryIsCurrent stamp = false) :
    a.replaceBrokerSnapshot os stamp snapshot = (a, false) := by
  unfold Agent.replaceBrokerSnapshot
  rw [h]
  rfl

/-- What becomes of an agent when a document arrives. -/
def Agent.received (os : Os) (stamp : DiscoveryStamp) (snapshot : BrokerSnapshot) (back : Bool)
    (a : Agent) : Agent :=
  if (a.replaceBrokerSnapshot os stamp snapshot).2 then
    (a.replaceBrokerSnapshot os stamp snapshot).1.landedDocument os back
  else (a.replaceBrokerSnapshot os stamp snapshot).1

/-- A document that is current replaces what was published before, and nothing else of the
ledger; any other is refused. -/
theorem received_cases {a : Agent} {stamp : DiscoveryStamp} (snapshot : BrokerSnapshot)
    (back : Bool) :
    (a.discoveryIsCurrent stamp = false ∧ a.received os stamp snapshot back = a) ∨
      (a.discoveryIsCurrent stamp = true ∧
        (a.received os stamp snapshot back).ledger =
          { a.ledger with published := snapshot.published } ∧
        (a.phase.off = true → (a.received os stamp snapshot back).phase.off = true)) := by
  unfold Agent.received
  cases hcurrent : a.discoveryIsCurrent stamp with
  | false =>
    rw [replaceBrokerSnapshot_stale snapshot hcurrent]
    exact Or.inl ⟨rfl, rfl⟩
  | true =>
    obtain ⟨hdone, hledger, hoff⟩ := @ledger_replaceBrokerSnapshot os a stamp snapshot hcurrent
    have hlanded := core_landedDocument os (a.replaceBrokerSnapshot os stamp snapshot).1 back
    rw [hdone, if_pos rfl]
    exact Or.inr ⟨rfl, (congrArg Core.ledger hlanded).trans hledger,
      fun h => off_of_core hlanded (hoff h)⟩

/-- A document reaches the agent, after the probe that asked for it is ended. A worker that
waits is answered. -/
theorem discovered_cases (stamp : DiscoveryStamp) (snapshot : BrokerSnapshot) (accepted : Bool) :
    ∃ (a : Agent) (back : Bool), a.core = c.agent.core ∧
      a.discoveryIsCurrent stamp = c.agent.discoveryIsCurrent stamp ∧
      (c.discovered os stamp snapshot accepted =
          c.withAgent (fun _ => a.received os stamp snapshot back) ∨
        ∃ ok, c.discovered os stamp snapshot accepted =
          (c.withAgent fun _ => a.received os stamp snapshot back).answer stamp ok) := by
  unfold Client.discovered
  cases accepted with
  | true => exact ⟨c.agent, _, rfl, rfl, Or.inr ⟨_, rfl⟩⟩
  | false =>
    have hcore := core_endProbe os.first c.agent stamp.generation
    have hsame : (c.agent.endProbe os.first stamp.generation).1.discoveryIsCurrent stamp =
        c.agent.discoveryIsCurrent stamp := by
      unfold Agent.endProbe
      split
      · rfl
      · rfl
    exact ⟨_, _, hcore, hsame, Or.inl rfl⟩

theorem pieces_discovered {stamp : DiscoveryStamp} {snapshot : BrokerSnapshot} {accepted : Bool}
    (hl : l = .deliver (.discovered stamp snapshot accepted)) :
    Pieces l (i, c) (i, c.discovered os stamp snapshot accepted) := by
  obtain ⟨a, back, hcore, _, hresult⟩ := @discovered_cases os c stamp snapshot accepted
  have hledger : a.ledger = c.agent.ledger := congrArg Core.ledger hcore
  have hreceived : Pieces l (i, c)
      (i, c.withAgent fun _ => a.received os stamp snapshot back) := by
    rcases @received_cases os a stamp snapshot back with ⟨_, hsame⟩ | ⟨_, hchanged, hoff⟩
    · refine .single (.quiet ?_)
      exact Quiet.of_core rfl ((congrArg Agent.core hsame).trans hcore)
    · rw [hledger] at hchanged
      refine .single (.published hl (Steady.of_shared rfl ?_ ?_) ?_ ?_ ?_)
      · exact congrArg Ledger.operation hchanged
      · exact (congrArg Ledger.generation hchanged).ge
      · exact congrArg Ledger.published hchanged
      · exact congrArg Ledger.expectations hchanged
      · exact fun h => hoff (off_of_core hcore h)
  rcases hresult with hresult | ⟨ok, hresult⟩
  · rw [hresult]
    exact hreceived
  · rw [hresult]
    exact hreceived.tail (.answered stamp ok)

/-- A result that is not current gives the slot back, or hands it on. -/
theorem pieces_rejectStaleTerminal {ev : Event} {stamp : DiscoveryStamp}
    (hl : l = .deliver ev) (hterminal : ev.terminalStamp = some stamp) :
    Pieces l (ev.holder, c) (none, c.rejectStaleTerminal os ev) := by
  subst hl
  cases ev with
  | signedIn stamp injected realm effects viaGrant =>
    exact (quiet_purgeRealm realm).pieces.trans (pieces_finishBusy rfl true)
  | signInFailed stamp effects fault trigger =>
    unfold Client.rejectStaleTerminal
    dsimp only
    cases effects.injectionRealm with
    | none => exact pieces_finishBusy rfl true
    | some realm => exact (quiet_purgeRealm realm).pieces.trans (pieces_finishBusy rfl true)
  | cancelled stamp effects => exact pieces_finishBusy rfl true
  | grantFailed stamp effects fault => exact pieces_finishBusy rfl true
  | grantCreated stamp grant url effects => exact .single (.handed url grant)
  | cloudSignedOut stamp asked =>
    exact (Quiet.withAgent (core_finishCloudSignOut c.agent stamp)).pieces
  | _ => cases hterminal

/-- A result that is accepted gives the slot back. -/
theorem pieces_sharedEvent {ev : Event} (hl : l = .deliver ev)
    (hother : ∀ stamp, ev ≠ .staleGrantCompensated stamp) :
    Pieces l (ev.holder, c) (none, c.sharedEvent os ev) := by
  subst hl
  cases ev with
  | signedIn stamp injected realm effects viaGrant => exact pieces_signedIn rfl
  | signInFailed stamp effects fault trigger => exact pieces_signInFailed rfl effects fault trigger
  | cancelled stamp effects => exact pieces_cancelled rfl effects
  | brokerLookup generation url => exact (quiet_brokerLookup generation url).pieces
  | grantCreated stamp grant url effects => exact pieces_grantCreated rfl grant effects
  | grantFailed stamp effects fault => exact pieces_grantFailed rfl effects fault
  | cloudSignedOut stamp asked => exact (quiet_cloudSignedOut stamp asked).pieces
  | grantGivenUp generation broker revoked saved report =>
    exact (quiet_grantGivenUp generation).pieces
  | elevatedFinished action outcome recheck =>
    exact pieces_elevatedFinished rfl outcome recheck
  | staleGrantCompensated stamp => exact absurd rfl (hother stamp)
  | _ => exact .refl

/-- An event of any kind ends the hold of its operation. -/
theorem pieces_applyEvent (ev : Event) :
    Pieces (.deliver ev) (ev.holder, c) (none, c.applyEvent os ev) := by
  have hterminal : ∀ stamp, ev.terminalStamp = some stamp →
      (∀ stamp, ev ≠ .staleGrantCompensated stamp) →
      Pieces (.deliver ev) (ev.holder, c) (none, if c.agent.discoveryIsCurrent stamp then
        (c.withAgent fun a => { a with discoveryEnded := true }).sharedEvent os ev
        else c.rejectStaleTerminal os ev) := by
    intro stamp hstamp hother
    split
    · have hended : Quiet c (c.withAgent fun a => { a with discoveryEnded := true }) :=
        Quiet.withAgent rfl
      exact hended.pieces.trans (pieces_sharedEvent rfl hother)
    · exact pieces_rejectStaleTerminal rfl hstamp
  cases ev with
  | current stamp => exact .single (.answered stamp _)
  | discovered stamp snapshot accepted => exact pieces_discovered rfl
  | discoveryFailed stamp => exact (quiet_discoveryFailed stamp).pieces
  | staleGrantCompensated stamp => exact pieces_finishBusy rfl true
  | signedIn stamp injected realm effects viaGrant => exact hterminal stamp rfl nofun
  | signInFailed stamp effects fault trigger => exact hterminal stamp rfl nofun
  | cancelled stamp effects => exact hterminal stamp rfl nofun
  | grantCreated stamp grant url effects => exact hterminal stamp rfl nofun
  | grantFailed stamp effects fault => exact hterminal stamp rfl nofun
  | cloudSignedOut stamp asked => exact hterminal stamp rfl nofun
  | elevatedFinished action outcome recheck =>
    exact pieces_elevatedFinished rfl outcome recheck
  | brokerLookup generation url => exact (quiet_brokerLookup generation url).pieces
  | grantGivenUp generation broker revoked saved report =>
    exact (quiet_grantGivenUp generation).pieces
  | elevationGranted action => exact .refl

theorem pieces_startDue (start : Option Trigger) :
    Pieces l (none, c) (none, c.startDue os start) := by
  cases start with
  | none => exact .refl
  | some trigger => exact pieces_startWorker trigger

theorem pieces_probeDue (due : Bool) : Pieces l (i, c) (i, c.probeDue now due) := by
  unfold Client.probeDue
  split
  · exact pieces_discoverInBackground
  · exact .refl

theorem pieces_tick : Pieces l (none, c) (none, c.tick os) := by
  have hticked : Quiet c (c.withAgent fun _ =>
      (tickAt os os.first c.busy c.refreshToken c.agent).agent) :=
    Quiet.of_ledger rfl (ledger_tickAt c.refreshToken c.agent) (off_tickAt c.refreshToken)
  exact hticked.pieces.trans ((pieces_startDue _).trans (pieces_probeDue _))

theorem pieces_signIn : Pieces l (none, c) (none, c.signIn os) := by
  have hforgotten : Quiet c (c.withAgent fun a =>
      { a with startupRetryAt := none, autostartAwaitsBroker := false }) := Quiet.withAgent rfl
  unfold Client.signIn
  dsimp only
  split
  · exact hforgotten.pieces.trans pieces_createGrant
  · exact hforgotten.pieces.trans (pieces_startWorker .user)

theorem pieces_autostartSignIn : Pieces l (none, c) (none, c.autostartSignIn os) := by
  have hawaited : ∀ b : Bool, Quiet c (c.withAgent fun a =>
      { a with autostartAwaitsBroker := b }) := fun b => Quiet.withAgent rfl
  unfold Client.autostartSignIn
  dsimp only
  split
  · exact ((hawaited _).pieces.quiet (Quiet.withAgent rfl)).trans (pieces_startWorker .startup)
  · exact (hawaited _).pieces

/-- A sign-off leaves nothing connected. -/
theorem off_dropTicket : (c.dropTicket os).agent.phase.off = true := by
  unfold Client.dropTicket Client.withAgent
  dsimp only
  split
  · rfl
  · exact off_of_core (core_record os.first _ (some .other)) rfl

/-- A sign-off leaves the slot. -/
theorem quiet_dropTicket : Quiet c (c.dropTicket os) := by
  have hexpect : ∀ a : Agent, (a.resetSession.expect os false).ledger = a.ledger := by
    intro a
    exact congrArg Core.ledger (core_expect os a.resetSession false)
  have hpurged : Quiet c (c.purgeRealm os c.agent.kerberos.realm) := quiet_purgeRealm _
  refine hpurged.trans (Quiet.of_ledger rfl ?_ fun _ => off_dropTicket)
  unfold Client.dropTicket Client.withAgent
  dsimp only
  split
  · exact hexpect _
  · rw [show (Agent.record os.first (some .other) _).ledger = _ from
      congrArg Core.ledger (core_record os.first _ (some .other))]
    exact hexpect _

theorem pieces_applyBrokerUrl {change : SettingsChange}
    (hl : l = .command (.applySettings change)) (url : Option String) :
    Pieces l (i, c) (i, (c.applyBrokerUrl os url).1) := by
  have hretarget : ∀ old next d done, c.retarget os old next = (d, done) →
      Pieces l (i, c) (i, d) := by
    intro old next d done heq
    have hpieces := @pieces_retarget os l i c change hl old next
    rw [heq] at hpieces
    exact hpieces
  unfold Client.applyBrokerUrl
  cases url with
  | none => exact .refl
  | some url =>
    dsimp only
    split
    · exact .refl
    · split
      · exact .refl
      · split
        · rename_i heq
          exact Pieces.quiet (hretarget _ _ _ _ heq) (Quiet.of_core rfl rfl)
        · rename_i heq
          exact hretarget _ _ _ _ heq

/-- A command leaves the slot, or takes it. -/
theorem pieces_command (cmd : Command) :
    Pieces (.command cmd) (none, c) (none, c.command os cmd) := by
  cases cmd with
  | tick => exact pieces_tick
  | signIn => exact pieces_signIn
  | renewNow => exact pieces_startWorker .renewal
  | autostartSignIn => exact pieces_autostartSignIn
  | cancelSignIn => exact .single (.quiet (Quiet.of_core rfl rfl))
  | dropTicket => exact quiet_dropTicket.pieces
  | signOutIdp => exact pieces_beginCloudSignOut
  | giveUpGrantNow => exact pieces_giveUpGrant _
  | createGrant => exact pieces_createGrant
  | statusClosed => exact .single (.quiet (Quiet.of_core rfl rfl))
  | applySettings change =>
    exact (pieces_applyBrokerUrl rfl change.brokerUrl).quiet quiet_update
  | elevate action =>
    change Pieces _ _ (none, if _ then c.spawnElevated _ action else c)
    split
    · exact pieces_spawnElevated _ action
    · exact .refl

/-- What the agent does as it starts. -/
theorem pieces_init (settings : Settings) :
    ∃ a : Agent, a.busyOperation = none ∧
      Pieces l (none, Client.idle os a) (none, Client.init os settings) := by
  refine ⟨_, ?_, Pieces.quiet ((pieces_startDue _).trans (pieces_probeDue true)) quiet_settle⟩
  unfold Agent.adoptExistingTicket
  split
  · rfl
  · split
    · split
      · rfl
      · unfold Agent.adoptCachedTicket
        split
        · rfl
        · rfl
    · rfl

end Handlers

end Kerbridge.ClientAgent

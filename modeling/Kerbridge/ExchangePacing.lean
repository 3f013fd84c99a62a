import Mathlib
import Kerbridge.AgentPace

/-!
# How far apart the exchanges of a run are

The turns of a run, and what holds of any two of them: re-injections that the schedule
starts keep the least delay, retries after failures of transport wait for a backoff that
grows, and the retries after other failures are counted.
-/

namespace Kerbridge.ClientAgent

/-- A turn of the user thread: the state before it, what the system answers, and what is done. -/
structure Turn where
  before : Client
  os : Os
  act : Act

/-- The state after a turn. -/
def Turn.after (t : Turn) : Client := (t.before.act t.os t.act).settle t.os

/-- The turns of a run, the newest first, and the state they reach. Between two turns the other
threads and other processes may do anything that is theirs. -/
inductive Follows : List Turn → Client → Prop
  | start (os : Os) (settings : Settings) : Follows [] (Client.init os settings)
  | turn {turns : List Turn} {c : Client} (h : Follows turns c) (os : Os)
      (hclock : c.clock ≤ os.first) (act : Act) :
      Follows (⟨c, os, act⟩ :: turns) (Turn.after ⟨c, os, act⟩)
  | beside {turns : List Turn} {c : Client} (h : Follows turns c) (disk : Disk)
      (cache : List Ticket) (threads : List Thread) (events : List Event)
      (revocations : List (Option String × Grant)) :
      Follows turns { c with
        agent := { c.agent with settings := { c.agent.settings with disk := disk } }
        cache := cache
        threads := threads
        events := events
        revocations := revocations }

/-- The steps of the agent with its threads are a run. -/
theorem Reachable.follows {c : Client} (h : Reachable c) : ∃ turns, Follows turns c := by
  induction h with
  | start os settings => exact ⟨[], .start os settings⟩
  | step hc hstep ih =>
    obtain ⟨turns, hturns⟩ := ih
    cases hstep with
    | command os hclock cmd => exact ⟨_, hturns.turn os hclock (.command cmd)⟩
    | deliver os hclock hev =>
      rename_i c before after ev
      exact ⟨_, (hturns.beside c.agent.settings.disk c.cache c.threads (before ++ after)
        c.revocations).turn os hclock (.apply ev)⟩
    | thread ht hmoves =>
      rename_i c before after t t' ev cache given
      exact ⟨_, hturns.beside c.agent.settings.disk cache (before ++ t'.toList ++ after)
        (c.events ++ ev.toList) (given.toList ++ c.revocations)⟩
    | rewrite disk =>
      rename_i c
      exact ⟨_, hturns.beside disk c.cache c.threads c.events c.revocations⟩

namespace Turn

/-- What a turn starts by itself: only a tick does. -/
def started (t : Turn) : Option Trigger :=
  match t.act with
  | .command .tick =>
    (tickAt t.os t.os.first t.before.busy t.before.refreshToken t.before.agent).start
  | _ => none

/-- A tick starts the re-injection that the schedule has due. -/
def Injects (t : Turn) : Prop :=
  t.started = some .renewal ∧ ∃ due, t.before.agent.refreshAt = some due ∧ due ≤ t.os.first

/-- A tick starts a sign-in again. -/
def Retries (t : Turn) : Prop := t.started = some .startup

/-- An exchange landed a ticket with an end. -/
def LandsAt (t : Turn) (stop : ℤ) : Prop := Lands t.before t.act stop

/-- A ticket works, as far as the agent knows. -/
def Live (t : Turn) : Prop := t.before.agent.holdsLiveTicket t.os.second = true

/-- A failure of transport, with a ticket that works and is there. -/
def FailsLive (t : Turn) : Prop :=
  (∃ trigger, Fails t.before t.act (some .network) trigger) ∧ t.Live ∧
    t.before.agent.loss.absent = false

/-- A failure of transport, with a ticket that was lost and is being recovered. -/
def FailsLost (t : Turn) : Prop :=
  (∃ trigger, Fails t.before t.act (some .network) trigger) ∧ t.Live ∧
    t.before.agent.loss.absent = true ∧ t.before.agent.loss.suspended = false

/-- A failure of any kind, without a ticket that works. -/
def FailsBare (t : Turn) : Prop := (∃ fault trigger, Fails t.before t.act fault trigger) ∧ ¬t.Live

/-- A failure of transport without a ticket, after which the sign-in is tried again. -/
def FailsAway (t : Turn) : Prop :=
  (∃ trigger, Fails t.before t.act (some .network) trigger) ∧ ¬t.Live ∧
    t.after.agent.startupRetryAt.isSome = true

/-- Another failure without a ticket, after which the sign-in is tried again. -/
def Counted (t : Turn) : Prop :=
  (∃ fault trigger, Fails t.before t.act fault trigger ∧ fault ≠ some .network) ∧ ¬t.Live ∧
    t.after.agent.startupRetryAt.isSome = true

end Turn

section Kinds

variable {os : Os} {c : Client} {act : Act} {p : Pace}

/-- A failed sign-in does to the schedules what such a failure does. -/
theorem Shift.of_fails {fault : Option Fault} {trigger : Trigger} (h : Shift os c act p)
    (hfails : Fails c act fault trigger) :
    FailPace os fault trigger (c.agent.holdsLiveTicket os.second) c.agent.firstFailureAt.isNone
      c.agent.pace p := by
  obtain ⟨stamp, effects, rfl, hcurrent⟩ := hfails
  cases h with
  | kept hlands hnot htick => exact absurd ⟨stamp, effects, rfl, hcurrent⟩ (hnot fault trigger)
  | forgot hforgets retryAt =>
    rcases hforgets with hact | ⟨_, hact, _⟩ | ⟨_, _, _, hact, _⟩
    · cases hact
    · cases hact
    · cases hact
  | hastened hhastens retryAt =>
    rcases hhastens with ⟨_, _, hact⟩ | ⟨_, _, hact⟩
    · cases hact
    · cases hact
  | landed hlands =>
    obtain ⟨_, _, _, _, _, hact, _⟩ := hlands
    cases hact
  | failed hfailed hpace =>
    obtain ⟨_, _, hact, _⟩ := hfailed
    cases hact
    exact hpace

/-- What a turn does to the schedule of a ticket. -/
inductive RefreshShift (t : Turn) (p : Pace) : Prop
  | kept (hat : p.refreshAt = t.before.agent.refreshAt) (hstop : p.stop = t.before.agent.stop)
  | dropped (hat : p.refreshAt = none)
  | injected {due : ℤ} (h : t.Injects) (hat : p.refreshAt = some due)
      (hstop : p.stop = t.before.agent.stop) (hlaid : Laid t.os.first t.before.agent.stop due)
  | landed {stop : ℤ} (h : t.LandsAt stop)
      (hat : p.refreshAt = some (midpoint t.os t.os.first stop)) (hstop : p.stop = stop)
  | backed (h : t.FailsLive)
      (hat : p.refreshAt = some (min (t.os.third + p.refreshBackoff)
        (midpoint t.os t.os.third t.before.agent.stop)))
      (hstop : p.stop = t.before.agent.stop) (hbackoff : p.refreshBackoff = backoffAfter
        t.before.agent.firstFailureAt.isNone t.before.agent.refreshBackoff)

/-- The schedule of a ticket is kept, dropped or laid anew. -/
theorem Shift.refresh (h : Shift os c act p) : RefreshShift ⟨c, os, act⟩ p := by
  cases h with
  | kept hlands hfails htick => exact .kept rfl rfl
  | cleared => exact .kept rfl rfl
  | filled retryAt => exact .kept rfl rfl
  | ticked htick hretry =>
    rcases htick.refresh with ⟨hstart, hdue, due, hat, hlaid⟩ | ⟨_, hat⟩
    · exact .injected ⟨hstart, hdue⟩ hat htick.stop hlaid
    · exact .kept hat htick.stop
  | forgot hforgets retryAt => exact .dropped rfl
  | hastened hhastens retryAt => exact .kept rfl rfl
  | repaired => exact .kept rfl rfl
  | landed hlands => exact .landed hlands rfl rfl
  | failed hfails hpace =>
    cases hpace with
    | lost hlive habsent hstreak hretry => exact .kept rfl rfl
    | backed hlive hpresent hfault =>
      subst hfault
      exact .backed ⟨⟨_, hfails⟩, hlive, hpresent⟩ rfl rfl rfl
    | kept hlive hpresent hfault => exact .kept rfl rfl
    | retried hdead hfault => exact .dropped rfl
    | counted hdead hfault hleft => exact .dropped rfl
    | ended hdead => exact .dropped rfl

/-- The backoff of the re-injections changes when one lands, or fails in transport. -/
theorem Shift.refreshBackoff (h : Shift os c act p) :
    p.refreshBackoff = c.agent.refreshBackoff ∨ (∃ stop, Turn.LandsAt ⟨c, os, act⟩ stop) ∨
      Turn.FailsLive ⟨c, os, act⟩ := by
  cases h with
  | kept hlands hfails htick => exact Or.inl rfl
  | cleared => exact Or.inl rfl
  | filled retryAt => exact Or.inl rfl
  | ticked htick hretry => exact Or.inl htick.refreshBackoff
  | forgot hforgets retryAt => exact Or.inl rfl
  | hastened hhastens retryAt => exact Or.inl rfl
  | repaired => exact Or.inl rfl
  | landed hlands => exact Or.inr (Or.inl ⟨_, hlands⟩)
  | failed hfails hpace =>
    cases hpace with
    | lost hlive habsent hstreak hretry => exact Or.inl rfl
    | backed hlive hpresent hfault =>
      subst hfault
      exact Or.inr (Or.inr ⟨⟨_, hfails⟩, hlive, hpresent⟩)
    | kept hlive hpresent hfault => exact Or.inl rfl
    | retried hdead hfault => exact Or.inl rfl
    | counted hdead hfault hleft => exact Or.inl rfl
    | ended hdead => exact Or.inl rfl

/-- What has a pending sign-in forgotten, replaced or run now. -/
def Turn.Unsettles (t : Turn) : Prop :=
  (∃ stop, t.LandsAt stop) ∨ Forgets t.before t.act ∨ t.FailsBare

/-- The backoff of the sign-ins changes when one lands or fails, or the session is forgotten. -/
theorem Shift.retryBackoff (h : Shift os c act p) :
    p.retryBackoff = c.agent.startupBackoff ∨ Turn.Unsettles ⟨c, os, act⟩ := by
  have hbare : ∀ {fault trigger}, Fails c act fault trigger →
      c.agent.holdsLiveTicket os.second = false → Turn.Unsettles ⟨c, os, act⟩ := by
    intro fault trigger hfails hdead
    refine Or.inr (Or.inr ⟨⟨fault, trigger, hfails⟩, ?_⟩)
    exact ne_true_of_eq_false hdead
  cases h with
  | kept hlands hfails htick => exact Or.inl rfl
  | cleared => exact Or.inl rfl
  | filled retryAt => exact Or.inl rfl
  | ticked htick hretry => exact Or.inl htick.retryBackoff
  | forgot hforgets retryAt => exact Or.inr (Or.inr (Or.inl hforgets))
  | hastened hhastens retryAt => exact Or.inl rfl
  | repaired => exact Or.inl rfl
  | landed hlands => exact Or.inr (Or.inl ⟨_, hlands⟩)
  | failed hfails hpace =>
    cases hpace with
    | lost hlive habsent hstreak hretry => exact Or.inl rfl
    | backed hlive hpresent hfault => exact Or.inl rfl
    | kept hlive hpresent hfault => exact Or.inl rfl
    | retried hdead hfault => exact Or.inr (hbare hfails hdead)
    | counted hdead hfault hleft => exact Or.inr (hbare hfails hdead)
    | ended hdead => exact Or.inr (hbare hfails hdead)

/-- A turn that sets when a pending sign-in runs, other than by a failure. -/
def Turn.Reschedules (t : Turn) : Prop :=
  Hastens t.act ∨ t.act = .command .autostartSignIn ∨ t.Retries

/-- A sign-in that is pending stays until it is dropped, started, or set again. -/
theorem Shift.retryAt (h : Shift os c act p) :
    p.retryAt = c.agent.startupRetryAt ∨ p.retryAt = none ∨ Turn.Unsettles ⟨c, os, act⟩ ∨
      Turn.Reschedules ⟨c, os, act⟩ := by
  have hbare : ∀ {fault trigger}, Fails c act fault trigger →
      c.agent.holdsLiveTicket os.second = false → Turn.Unsettles ⟨c, os, act⟩ := by
    intro fault trigger hfails hdead
    refine Or.inr (Or.inr ⟨⟨fault, trigger, hfails⟩, ?_⟩)
    exact ne_true_of_eq_false hdead
  cases h with
  | kept hlands hfails htick => exact Or.inl rfl
  | cleared => exact Or.inr (Or.inl rfl)
  | filled retryAt => exact Or.inr (Or.inr (Or.inr (Or.inr (Or.inl rfl))))
  | ticked htick hretry =>
    rcases hretry with rfl | hstart
    · rcases htick.retryAt with ⟨hsame, _⟩ | ⟨_, hnone⟩
      · exact Or.inl hsame
      · exact Or.inr (Or.inl hnone)
    · exact Or.inr (Or.inr (Or.inr (Or.inr (Or.inr hstart))))
  | forgot hforgets retryAt => exact Or.inr (Or.inr (Or.inl (Or.inr (Or.inl hforgets))))
  | hastened hhastens retryAt => exact Or.inr (Or.inr (Or.inr (Or.inl hhastens)))
  | repaired => exact Or.inl rfl
  | landed hlands => exact Or.inr (Or.inr (Or.inl (Or.inl ⟨_, hlands⟩)))
  | failed hfails hpace =>
    cases hpace with
    | lost hlive habsent hstreak hretry => exact Or.inl rfl
    | backed hlive hpresent hfault => exact Or.inl rfl
    | kept hlive hpresent hfault => exact Or.inl rfl
    | retried hdead hfault => exact Or.inr (Or.inr (Or.inl (hbare hfails hdead)))
    | counted hdead hfault hleft => exact Or.inr (Or.inr (Or.inl (hbare hfails hdead)))
    | ended hdead => exact Or.inr (Or.inr (Or.inl (hbare hfails hdead)))

/-- Only a start at logon gives retries back. -/
theorem Shift.retries (h : Shift os c act p) :
    p.retries ≤ c.agent.startupRetries ∨
      p.retries = ClientAgent.startupRetries ∧ act = .command .autostartSignIn := by
  cases h with
  | kept hlands hfails htick => exact Or.inl (le_refl _)
  | cleared => exact Or.inl (le_refl _)
  | filled retryAt => exact Or.inr ⟨rfl, rfl⟩
  | ticked htick hretry => exact Or.inl (le_of_eq htick.retries)
  | forgot hforgets retryAt => exact Or.inl (Nat.zero_le _)
  | hastened hhastens retryAt => exact Or.inl (le_refl _)
  | repaired => exact Or.inl (le_refl _)
  | landed hlands => exact Or.inl (Nat.zero_le _)
  | failed hfails hpace =>
    cases hpace with
    | lost hlive habsent hstreak hretry => exact Or.inl (le_refl _)
    | backed hlive hpresent hfault => exact Or.inl (le_refl _)
    | kept hlive hpresent hfault => exact Or.inl (le_refl _)
    | retried hdead hfault => exact Or.inl (le_refl _)
    | counted hdead hfault hleft => exact Or.inl (Nat.sub_le _ _)
    | ended hdead => exact Or.inl (le_refl _)

/-- The streak of an episode grows until it is closed. -/
theorem Shift.streak (h : Shift os c act p) :
    c.agent.loss.streak ≤ p.loss.streak ∨ p.loss = .closed := by
  cases h with
  | kept hlands hfails htick => exact Or.inl (le_refl _)
  | cleared => exact Or.inl (le_refl _)
  | filled retryAt => exact Or.inl (le_refl _)
  | ticked htick hretry => exact htick.loss
  | forgot hforgets retryAt => exact Or.inr rfl
  | hastened hhastens retryAt => exact Or.inl (le_refl _)
  | repaired => exact Or.inr rfl
  | landed hlands => exact Or.inl (le_refl _)
  | failed hfails hpace =>
    cases hpace with
    | lost hlive habsent hstreak hretry => exact Or.inl (by rw [hstreak]; exact Nat.le_succ _)
    | backed hlive hpresent hfault => exact Or.inl (le_refl _)
    | kept hlive hpresent hfault => exact Or.inl (le_refl _)
    | retried hdead hfault => exact Or.inl (le_refl _)
    | counted hdead hfault hleft => exact Or.inl (le_refl _)
    | ended hdead => exact Or.inl (le_refl _)

end Kinds

section Runs

variable {turns older newer between : List Turn} {c : Client} {t earlier later : Turn}

/-- A turn of a run starts in a state that the older turns reach. -/
theorem Follows.at (h : Follows turns c) (hturns : turns = newer ++ t :: older) :
    Follows older t.before ∧ t.before.clock ≤ t.os.first := by
  induction h generalizing newer with
  | start os settings =>
    cases newer with
    | nil => cases hturns
    | cons last rest => cases hturns
  | turn hprior os hclock act ih =>
    cases newer with
    | nil =>
      cases hturns
      exact ⟨hprior, hclock⟩
    | cons last rest =>
      cases hturns
      exact ih rfl
  | beside hprior disk cache threads events revocations ih => exact ih hturns

/-- The older turns of a run are a run. -/
theorem Follows.drop {turns' : List Turn} (h : Follows turns c) (hturns : turns = newer ++ turns') :
    ∃ d, Follows turns' d := by
  induction h generalizing newer with
  | start os settings =>
    rw [(List.append_eq_nil_iff.mp hturns.symm).2]
    exact ⟨_, .start os settings⟩
  | turn hprior os hclock act ih =>
    cases newer with
    | nil =>
      cases hturns
      exact ⟨_, hprior.turn os hclock act⟩
    | cons last rest =>
      cases hturns
      exact ih rfl
  | beside hprior disk cache threads events revocations ih => exact ih hturns

/-- What a turn makes of the schedules. -/
theorem Turn.shift (t : Turn) : Shift t.os t.before t.act t.after.agent.pace := shift_act t.act

/-- What holds after a turn and is kept by each turn since holds now. -/
theorem Follows.carries {Q : Pace → ℤ → Prop} (h : Follows turns c)
    (hturns : turns = between ++ earlier :: older)
    (hstart : Q earlier.after.agent.pace earlier.os.third)
    (hstep : ∀ t ∈ between, t.before.clock ≤ t.os.first →
      Q t.before.agent.pace t.before.clock → Q t.after.agent.pace t.os.third) :
    Q c.agent.pace c.clock := by
  induction h generalizing between with
  | start os settings =>
    cases between with
    | nil => cases hturns
    | cons last rest => cases hturns
  | turn hprior os hclock act ih =>
    cases between with
    | nil =>
      cases hturns
      exact hstart
    | cons last rest =>
      cases hturns
      refine hstep _ List.mem_cons_self hclock (ih rfl ?_)
      intro t ht
      exact hstep t (List.mem_cons_of_mem _ ht)
  | beside hprior disk cache threads events revocations ih => exact ih hturns hstep

/-- Two turns of a run, and those between them. -/
def Apart (turns : List Turn) (earlier : Turn) (between : List Turn) (later : Turn) : Prop :=
  ∃ newer older, turns = newer ++ later :: (between ++ earlier :: older)

/-- What holds after a turn and is kept by each turn since holds before a later one. -/
theorem Follows.until {Q : Pace → ℤ → Prop} (h : Follows turns c)
    (hapart : Apart turns earlier between later)
    (hstart : Q earlier.after.agent.pace earlier.os.third)
    (hstep : ∀ t ∈ between, t.before.clock ≤ t.os.first →
      Q t.before.agent.pace t.before.clock → Q t.after.agent.pace t.os.third) :
    Q later.before.agent.pace later.before.clock ∧ later.before.clock ≤ later.os.first := by
  obtain ⟨newer, older, hturns⟩ := hapart
  obtain ⟨hfollows, hclock⟩ := h.at hturns
  exact ⟨hfollows.carries rfl hstart hstep, hclock⟩

/-- A ticket of somebody else gives the retries that replace it. -/
theorem retries_init (os : Os) (settings : Settings) :
    (Client.init os settings).agent.startupRetries ≤ ClientAgent.startupRetries := by
  have hadopted : ∀ a : Agent, a.startupRetries = 0 →
      (a.adoptExistingTicket os).1.startupRetries ≤ ClientAgent.startupRetries := by
    intro a ha
    have hkept : a.startupRetries ≤ ClientAgent.startupRetries := by
      rw [ha]
      exact Nat.zero_le _
    unfold Agent.adoptExistingTicket
    split
    · exact hkept
    · split
      · split
        · exact hkept
        · unfold Agent.adoptCachedTicket
          split
          · exact hkept
          · exact le_refl _
      · exact hkept
  have hstarted : ∀ (c : Client) trigger,
      (c.startWorker os trigger).agent.startupRetries = c.agent.startupRetries := by
    intro c trigger
    rcases @pace_startWorker os c trigger with hkept | ⟨_, retryAt, hwait⟩
    · exact congrArg Pace.retries hkept
    · exact congrArg Pace.retries hwait
  change (Client.probeDue os.third true _).agent.pace.retries ≤ _
  rw [pace_probeDue]
  change (Client.startDue os _ _).agent.startupRetries ≤ _
  unfold Client.startDue
  split
  · rw [hstarted]
    exact hadopted _ rfl
  · exact hadopted _ rfl

/-- The retries that are left never exceed those a start at logon gives. -/
theorem Follows.retries (h : Follows turns c) :
    c.agent.startupRetries ≤ ClientAgent.startupRetries := by
  induction h with
  | start os settings => exact retries_init os settings
  | turn hprior os hclock act ih =>
    rcases (Turn.shift ⟨_, os, act⟩).retries with hle | ⟨hfull, _⟩
    · exact hle.trans ih
    · exact le_of_eq hfull
  | beside hprior disk cache threads events revocations ih => exact ih

end Runs

section Schedules

variable {n stop refresh : ℤ}

/-- A schedule that leaves the delay to a later time leaves it to an earlier one. -/
theorem Laid.earlier {now : ℤ} (h : Laid now stop refresh) (hle : n ≤ now) :
    Laid n stop refresh := by
  rcases h with hdelay | ⟨hgrace, hahead⟩
  · exact Or.inl (le_trans (by omega) hdelay)
  · exact Or.inr ⟨hgrace, lt_of_le_of_lt hle hahead⟩

/-- Later still leaves the delay. -/
theorem Laid.later {later : ℤ} (h : Laid n stop refresh) (hle : refresh ≤ later) :
    Laid n stop later := by
  rcases h with hdelay | ⟨hgrace, hahead⟩
  · exact Or.inl (hdelay.trans hle)
  · exact Or.inr ⟨hgrace.trans hle, hahead⟩

/-- The midpoint to an end that is ahead leaves the delay. -/
theorem laid_midpoint (os : Os) (now : ℤ) (hle : n ≤ now) (hahead : n < stop) :
    Laid n stop (midpoint os now stop) := by
  rcases le_midpoint os now stop with hdelay | hgrace
  · exact Or.inl (le_trans (by omega) hdelay)
  · exact Or.inr ⟨hgrace, hahead⟩

/-- The next backoff is within its bounds. -/
theorem nextBackoff_bounds {first ceiling : ℤ} (held : ℤ) (hle : first ≤ ceiling) :
    first ≤ nextBackoff held first ceiling ∧ nextBackoff held first ceiling ≤ ceiling := by
  unfold nextBackoff
  exact ⟨le_min (le_max_right _ _) hle, min_le_right _ _⟩

/-- The next backoff is no shorter, up to the ceiling. -/
theorem le_nextBackoff {first ceiling held : ℤ} (hnonneg : 0 ≤ held) (hle : held ≤ ceiling) :
    held ≤ nextBackoff held first ceiling := by
  unfold nextBackoff
  refine le_min (le_trans ?_ (le_max_left _ _)) hle
  omega

/-- The backoff after a failure is within its bounds. -/
theorem backoffAfter_bounds (fresh : Bool) (held : ℤ) :
    minRefreshDelay ≤ backoffAfter fresh held ∧ backoffAfter fresh held ≤ probeMaxSecs := by
  unfold backoffAfter
  split
  · decide
  · exact nextBackoff_bounds held (by decide)

/-- The wait of an episode before jitter. -/
def lossBase (streak : ℕ) : ℤ :=
  if streak ≤ 1 then 0 else min (lossFirstSecs * 2 ^ min (streak - 2) 16) lossMaxSecs

/-- The wait of an episode is less than its base by a tenth at most. -/
theorem lossDelay_bounds (os : Os) (streak : ℕ) :
    lossBase streak - (lossBase streak).tdiv 10 ≤ lossDelay os streak ∧
      lossDelay os streak ≤ lossBase streak ∧ lossBase streak ≤ lossMaxSecs := by
  unfold lossBase lossDelay
  split
  · decide
  · dsimp only
    have hbase : 0 ≤ min (lossFirstSecs * 2 ^ min (streak - 2) 16) lossMaxSecs := by
      refine le_min ?_ (by decide)
      unfold lossFirstSecs
      positivity
    have htenth := Int.tdiv_nonneg hbase (b := 10) (by decide)
    have hjitter := os.bounded ((min (lossFirstSecs * 2 ^ min (streak - 2) 16) lossMaxSecs).tdiv 10)
    rw [max_eq_left htenth] at hjitter
    exact ⟨by omega, by omega, min_le_right _ _⟩

/-- The base grows with the streak. -/
theorem lossBase_mono : Monotone lossBase := by
  intro streak streak' hle
  have hbase : ∀ s : ℕ, 0 ≤ min (lossFirstSecs * 2 ^ min (s - 2) 16) lossMaxSecs := by
    intro s
    refine le_min ?_ (by decide)
    unfold lossFirstSecs
    positivity
  unfold lossBase
  split
  · split
    · exact le_refl _
    · exact hbase streak'
  · rename_i hlong
    rw [if_neg (by omega)]
    refine min_le_min_right _ (mul_le_mul_of_nonneg_left ?_ (by decide))
    exact pow_le_pow_right₀ (by decide) (by omega)

end Schedules

/-- The exchanges of a run are paced. -/
structure Paced (turns : List Turn) : Prop where
  /-- Two re-injections that the schedule starts are the least delay apart, or the second is no
  sooner than the grace before the end of a ticket that was live at the first. -/
  spaced : ∀ earlier between later, Apart turns earlier between later →
    earlier.Injects → later.Injects → (∀ t ∈ between, ¬t.Injects) →
    (∀ t ∈ between, ∀ stop, t.LandsAt stop → t.os.first < stop) →
    Laid earlier.os.first later.before.agent.stop later.os.first
  /-- A failure of transport has the re-injection tried again after a backoff, and no later than
  at the midpoint. -/
  backed : ∀ t ∈ turns, t.FailsLive →
    minRefreshDelay ≤ t.after.agent.refreshBackoff ∧
      t.after.agent.refreshBackoff ≤ probeMaxSecs ∧
      t.after.agent.refreshAt = some (min (t.os.third + t.after.agent.refreshBackoff)
        (midpoint t.os t.os.third t.before.agent.stop))
  /-- The backoff grows until an exchange lands or the streak of failures is over. -/
  backedLonger : ∀ earlier between later, Apart turns earlier between later →
    earlier.FailsLive → later.FailsLive → later.before.agent.firstFailureAt.isSome = true →
    (∀ t ∈ between, ¬t.FailsLive ∧ ∀ stop, ¬t.LandsAt stop) →
    earlier.after.agent.refreshBackoff ≤ later.after.agent.refreshBackoff
  /-- The next re-injection waits for it. -/
  backedOff : ∀ earlier between later, Apart turns earlier between later →
    earlier.FailsLive → later.Injects →
    (∀ t ∈ between, ¬t.FailsLive ∧ ¬t.Injects ∧ ∀ stop, ¬t.LandsAt stop) →
    min (earlier.os.third + earlier.after.agent.refreshBackoff)
      (midpoint earlier.os earlier.os.third earlier.before.agent.stop) ≤ later.os.first
  /-- Without a ticket a failure of transport has the sign-in tried again after a backoff. -/
  retried : ∀ t ∈ turns, t.FailsAway →
    startupRetrySecs ≤ t.after.agent.startupBackoff ∧
      t.after.agent.startupBackoff ≤ probeMaxSecs ∧
      t.after.agent.startupRetryAt = some (t.os.third + t.after.agent.startupBackoff)
  /-- That backoff grows until an exchange lands or fails otherwise, or the session is
  forgotten. -/
  retriedLonger : ∀ earlier between later, Apart turns earlier between later →
    earlier.FailsAway → later.FailsAway → (∀ t ∈ between, ¬t.Unsettles) →
    earlier.after.agent.startupBackoff ≤ later.after.agent.startupBackoff
  /-- The next sign-in waits for it, unless something has it run now. -/
  retriedOff : ∀ earlier between later, Apart turns earlier between later →
    earlier.FailsAway → later.Retries → (∀ t ∈ between, ¬t.Unsettles ∧ ¬t.Reschedules) →
    earlier.os.third + earlier.after.agent.startupBackoff ≤ later.os.first
  /-- A ticket that was lost is recovered after a wait of its own, less a tenth at most. -/
  lost : ∀ t ∈ turns, t.FailsLost → ∃ wait,
    t.after.agent.loss.retryAt = some (t.os.third + wait) ∧
      lossBase t.after.agent.loss.streak - (lossBase t.after.agent.loss.streak).tdiv 10 ≤ wait ∧
      wait ≤ lossBase t.after.agent.loss.streak ∧
      lossBase t.after.agent.loss.streak ≤ lossMaxSecs
  /-- That wait grows until the episode is closed. -/
  lostLonger : ∀ earlier between later, Apart turns earlier between later →
    earlier.FailsLost → later.FailsLost → (∀ t ∈ between, 0 < t.after.agent.loss.streak) →
    lossBase earlier.after.agent.loss.streak ≤ lossBase later.after.agent.loss.streak
  /-- Other failures without a ticket are followed by no more retries than a start at logon
  gives. -/
  counted : ∀ newer since older, turns = newer ++ since ++ older →
    (∀ t ∈ since, t.act ≠ .command .autostartSignIn) →
    ∀ failures : List Turn, failures.Sublist since → (∀ t ∈ failures, t.Counted) →
      failures.length ≤ startupRetries

section Failures

variable {os : Os} {fault : Option Fault} {trigger : Trigger} {fresh : Bool} {p p' : Pace}

/-- What a failure of transport does with a ticket that works and is there. -/
theorem FailPace.of_present (h : FailPace os (some .network) trigger true fresh p p')
    (hpresent : p.loss.absent = false) :
    p'.refreshBackoff = backoffAfter fresh p.refreshBackoff ∧
      p'.refreshAt = some (min (os.third + p'.refreshBackoff) (midpoint os os.third p.stop)) := by
  cases h with
  | lost hlive habsent hstreak hretry =>
    rw [hpresent] at habsent
    cases habsent
  | backed hlive hthere hfault => exact ⟨rfl, rfl⟩
  | kept hlive hthere hfault => exact absurd rfl hfault
  | retried hdead hfault => cases hdead
  | counted hdead hfault hleft => cases hdead
  | ended hdead => cases hdead

/-- What a failure of transport does with a ticket that was lost and is being recovered. -/
theorem FailPace.of_absent (h : FailPace os (some .network) trigger true fresh p p')
    (habsent : p.loss.absent = true) (hfree : p.loss.suspended = false) :
    p'.loss.streak = p.loss.streak + 1 ∧
      p'.loss.retryAt = some (os.third + lossDelay os p'.loss.streak) := by
  cases h with
  | lost hlive hgone hstreak hretry => exact ⟨hstreak, hretry hfree rfl⟩
  | backed hlive hthere hfault =>
    rw [habsent] at hthere
    cases hthere
  | kept hlive hthere hfault => exact absurd rfl hfault
  | retried hdead hfault => cases hdead
  | counted hdead hfault hleft => cases hdead
  | ended hdead => cases hdead

/-- What a failure of transport does without a ticket, when the sign-in is tried again. -/
theorem FailPace.of_away (h : FailPace os (some .network) trigger false fresh p p')
    (hagain : p'.retryAt.isSome = true) :
    p'.retryBackoff = nextBackoff p.retryBackoff startupRetrySecs probeMaxSecs ∧
      p'.retryAt = some (os.third + p'.retryBackoff) := by
  cases h with
  | lost hlive hgone hstreak hretry => cases hlive
  | backed hlive hthere hfault => cases hlive
  | kept hlive hthere hfault => cases hlive
  | retried hdead hfault => exact ⟨rfl, rfl⟩
  | counted hdead hfault hleft => exact absurd rfl hfault
  | ended hdead => cases hagain

/-- Another failure takes a retry, when the sign-in is tried again. -/
theorem FailPace.of_counted (h : FailPace os fault trigger false fresh p p')
    (hfault : fault ≠ some .network) (hagain : p'.retryAt.isSome = true) :
    p'.retries + 1 = p.retries := by
  cases h with
  | lost hlive hgone hstreak hretry => cases hlive
  | backed hlive hthere hother => cases hlive
  | kept hlive hthere hother => cases hlive
  | retried hdead hnetwork => exact absurd hnetwork hfault
  | counted hdead hother hleft => exact Nat.sub_add_cancel hleft
  | ended hdead => cases hagain

variable {t : Turn}

/-- The schedule after a failure of transport, with a ticket that works. -/
theorem Turn.FailsLive.pace (h : t.FailsLive) :
    t.after.agent.refreshBackoff =
        backoffAfter t.before.agent.firstFailureAt.isNone t.before.agent.refreshBackoff ∧
      t.after.agent.refreshAt = some (min (t.os.third + t.after.agent.refreshBackoff)
        (midpoint t.os t.os.third t.before.agent.stop)) := by
  obtain ⟨⟨trigger, hfails⟩, hlive, hpresent⟩ := h
  have hpace := t.shift.of_fails hfails
  rw [show t.before.agent.holdsLiveTicket t.os.second = true from hlive] at hpace
  exact hpace.of_present hpresent

/-- The schedule after a failure of transport, with a ticket that was lost. -/
theorem Turn.FailsLost.pace (h : t.FailsLost) :
    t.after.agent.loss.streak = t.before.agent.loss.streak + 1 ∧
      t.after.agent.loss.retryAt =
        some (t.os.third + lossDelay t.os t.after.agent.loss.streak) := by
  obtain ⟨⟨trigger, hfails⟩, hlive, habsent, hfree⟩ := h
  have hpace := t.shift.of_fails hfails
  rw [show t.before.agent.holdsLiveTicket t.os.second = true from hlive] at hpace
  exact hpace.of_absent habsent hfree

/-- The schedule after a failure of transport without a ticket. -/
theorem Turn.FailsAway.pace (h : t.FailsAway) :
    t.after.agent.startupBackoff =
        nextBackoff t.before.agent.startupBackoff startupRetrySecs probeMaxSecs ∧
      t.after.agent.startupRetryAt = some (t.os.third + t.after.agent.startupBackoff) := by
  obtain ⟨⟨trigger, hfails⟩, hdead, hagain⟩ := h
  have hpace := t.shift.of_fails hfails
  rw [Bool.eq_false_of_not_eq_true hdead] at hpace
  exact hpace.of_away hagain

/-- The retries after another failure without a ticket. -/
theorem Turn.Counted.pace (h : t.Counted) :
    t.after.agent.startupRetries + 1 = t.before.agent.startupRetries := by
  obtain ⟨⟨fault, trigger, hfails, hfault⟩, hdead, hagain⟩ := h
  have hpace := t.shift.of_fails hfails
  rw [Bool.eq_false_of_not_eq_true hdead] at hpace
  exact hpace.of_counted hfault hagain

/-- A turn that starts something by itself is a tick. -/
theorem Turn.started_tick {trigger : Trigger} (h : t.started = some trigger) :
    t.act = .command .tick ∧
      (tickAt t.os t.os.first t.before.busy t.before.refreshToken t.before.agent).start =
        some trigger := by
  unfold Turn.started at h
  split at h
  · rename_i htick
    exact ⟨htick, h⟩
  · cases h

/-- A sign-in that is started again was due. -/
theorem Turn.Retries.due (h : t.Retries) :
    ∃ due, t.before.agent.startupRetryAt = some due ∧ due ≤ t.os.first := by
  obtain ⟨_, hstart⟩ := Turn.started_tick h
  rcases (@tickPace_tickAt t.os t.os.first t.before.busy
    t.before.refreshToken t.before.agent).retryAt with ⟨_, hnot⟩ | ⟨hdue, _⟩
  · exact absurd hstart hnot
  · exact hdue

/-- A re-injection that is started is laid anew. -/
theorem Turn.Injects.pace (h : t.Injects) : t.after.agent.stop = t.before.agent.stop ∧
    ∃ due, t.after.agent.refreshAt = some due ∧ Laid t.os.first t.before.agent.stop due := by
  obtain ⟨hstarted, hdue⟩ := h
  obtain ⟨htick, hstart⟩ := Turn.started_tick hstarted
  have hshift := t.shift
  rw [htick] at hshift
  generalize hp : t.after.agent.pace = p at hshift
  have hstop : t.after.agent.stop = p.stop := congrArg Pace.stop hp
  have hat : t.after.agent.refreshAt = p.refreshAt := congrArg Pace.refreshAt hp
  rw [hstop, hat]
  cases hshift with
  | kept hlands hfails hnot => exact absurd rfl hnot
  | ticked hpace hretry =>
    rcases hpace.refresh with ⟨_, _, hlaid⟩ | ⟨hnot, _⟩
    · exact ⟨hpace.stop, hlaid⟩
    · exact absurd ⟨hstart, hdue⟩ hnot
  | forgot hforgets retryAt =>
    rcases hforgets with hact | ⟨_, hact, _⟩ | ⟨_, _, _, hact, _⟩
    · cases hact
    · cases hact
    · cases hact
  | hastened hhastens retryAt =>
    rcases hhastens with ⟨_, _, hact⟩ | ⟨_, _, hact⟩
    · cases hact
    · cases hact
  | landed hlands =>
    obtain ⟨_, _, _, _, _, hact, _⟩ := hlands
    cases hact
  | failed hfails hpace =>
    obtain ⟨_, _, hact, _⟩ := hfails
    cases hact

/-- The bounds of the backoff after a failure of transport, with a ticket that works. -/
theorem Turn.FailsLive.bounds (h : t.FailsLive) :
    minRefreshDelay ≤ t.after.agent.refreshBackoff ∧
      t.after.agent.refreshBackoff ≤ probeMaxSecs := by
  rw [h.pace.1]
  exact backoffAfter_bounds _ _

/-- The bounds of the backoff after a failure of transport without a ticket. -/
theorem Turn.FailsAway.bounds (h : t.FailsAway) :
    startupRetrySecs ≤ t.after.agent.startupBackoff ∧
      t.after.agent.startupBackoff ≤ probeMaxSecs := by
  rw [h.pace.1]
  exact nextBackoff_bounds _ (by decide)

end Failures

section Pacing

variable {turns older newer between since failures : List Turn} {c : Client}
  {earlier later : Turn}

/-- Re-injections that the schedule starts are the least delay apart. -/
theorem Follows.spaced (h : Follows turns c) (hapart : Apart turns earlier between later)
    (hearlier : earlier.Injects) (hlater : later.Injects) (hnone : ∀ t ∈ between, ¬t.Injects)
    (hahead : ∀ t ∈ between, ∀ stop, t.LandsAt stop → t.os.first < stop) :
    Laid earlier.os.first later.before.agent.stop later.os.first := by
  let n := earlier.os.first
  have hsince := h.until (Q := fun p now => n ≤ now ∧ ∀ due, p.refreshAt = some due →
    Laid n p.stop due) hapart ?_ ?_
  · obtain ⟨⟨_, hlaid⟩, _⟩ := hsince
    obtain ⟨_, due, hdue, hle⟩ := hlater
    exact (hlaid due hdue).later hle
  · refine ⟨earlier.os.ordered.1.trans earlier.os.ordered.2, ?_⟩
    intro due hdue
    obtain ⟨hstop, due', hdue', hlaid⟩ := hearlier.pace
    cases hdue'.symm.trans hdue
    rw [show earlier.after.agent.pace.stop = _ from hstop]
    exact hlaid
  · intro t ht hclock hbefore
    obtain ⟨hle, hlaid⟩ := hbefore
    have hfirst := hle.trans hclock
    have hthird := hfirst.trans (t.os.ordered.1.trans t.os.ordered.2)
    refine ⟨hthird, ?_⟩
    intro due hdue
    cases t.shift.refresh with
    | kept hat hstop =>
      rw [hstop]
      exact hlaid due (hat.symm.trans hdue)
    | dropped hat =>
      rw [hat] at hdue
      cases hdue
    | injected hinjects hat hstop hagain => exact absurd hinjects (hnone t ht)
    | landed hlands hat hstop =>
      rw [hat] at hdue
      cases hdue
      rw [hstop]
      exact laid_midpoint t.os t.os.first hfirst (lt_of_le_of_lt hfirst (hahead t ht _ hlands))
    | backed hfails hat hstop hbackoff =>
      rw [hat] at hdue
      cases hdue
      rw [hstop]
      have hbounds := hfails.bounds
      have hlive := (holdsLiveTicket_iff _ _).mp hfails.2.1
      have hend : n < t.before.agent.stop :=
        lt_of_le_of_lt (hfirst.trans t.os.ordered.1) hlive.2.1
      rcases min_choice (t.os.third + t.after.agent.pace.refreshBackoff)
        (midpoint t.os t.os.third t.before.agent.stop) with hmin | hmin
      · rw [hmin]
        exact Or.inl (add_le_add hthird hbounds.1)
      · rw [hmin]
        exact laid_midpoint t.os t.os.third hthird hend

/-- The backoff of the re-injections grows. -/
theorem Follows.backedLonger (h : Follows turns c) (hapart : Apart turns earlier between later)
    (hearlier : earlier.FailsLive) (hlater : later.FailsLive)
    (hstreak : later.before.agent.firstFailureAt.isSome = true)
    (hnone : ∀ t ∈ between, ¬t.FailsLive ∧ ∀ stop, ¬t.LandsAt stop) :
    earlier.after.agent.refreshBackoff ≤ later.after.agent.refreshBackoff := by
  have hsince := h.until (Q := fun p _ => p.refreshBackoff = earlier.after.agent.refreshBackoff)
    hapart rfl ?_
  · obtain ⟨hheld, _⟩ := hsince
    have hnext := hlater.pace.1
    rw [Option.isNone_eq_false_iff.mpr hstreak] at hnext
    have hbounds := hearlier.bounds
    rw [hnext, show later.before.agent.refreshBackoff = _ from hheld]
    exact le_nextBackoff (le_trans (by decide) hbounds.1) hbounds.2
  · intro t ht _ hbefore
    rcases t.shift.refreshBackoff with hkept | ⟨stop, hlands⟩ | hfails
    · exact hkept.trans hbefore
    · exact absurd hlands ((hnone t ht).2 stop)
    · exact absurd hfails (hnone t ht).1

/-- The next re-injection waits for the backoff. -/
theorem Follows.backedOff (h : Follows turns c) (hapart : Apart turns earlier between later)
    (hearlier : earlier.FailsLive) (hlater : later.Injects)
    (hnone : ∀ t ∈ between, ¬t.FailsLive ∧ ¬t.Injects ∧ ∀ stop, ¬t.LandsAt stop) :
    min (earlier.os.third + earlier.after.agent.refreshBackoff)
      (midpoint earlier.os earlier.os.third earlier.before.agent.stop) ≤ later.os.first := by
  have hsince := h.until (Q := fun p _ => ∀ due, p.refreshAt = some due →
    earlier.after.agent.refreshAt = some due) hapart (fun due hdue => hdue) ?_
  · obtain ⟨hheld, _⟩ := hsince
    obtain ⟨_, due, hdue, hle⟩ := hlater
    have hlaid := hheld due hdue
    rw [hearlier.pace.2] at hlaid
    cases hlaid
    exact hle
  · intro t ht _ hbefore due hdue
    cases t.shift.refresh with
    | kept hat hstop => exact hbefore due (hat.symm.trans hdue)
    | dropped hat =>
      rw [hat] at hdue
      cases hdue
    | injected hinjects hat hstop hagain => exact absurd hinjects (hnone t ht).2.1
    | landed hlands hat hstop => exact absurd hlands ((hnone t ht).2.2 _)
    | backed hfails hat hstop hbackoff => exact absurd hfails (hnone t ht).1

/-- The backoff of the sign-ins grows. -/
theorem Follows.retriedLonger (h : Follows turns c) (hapart : Apart turns earlier between later)
    (hearlier : earlier.FailsAway) (hlater : later.FailsAway)
    (hnone : ∀ t ∈ between, ¬t.Unsettles) :
    earlier.after.agent.startupBackoff ≤ later.after.agent.startupBackoff := by
  have hsince := h.until (Q := fun p _ => p.retryBackoff = earlier.after.agent.startupBackoff)
    hapart rfl ?_
  · obtain ⟨hheld, _⟩ := hsince
    have hbounds := hearlier.bounds
    rw [hlater.pace.1, show later.before.agent.startupBackoff = _ from hheld]
    exact le_nextBackoff (le_trans (by decide) hbounds.1) hbounds.2
  · intro t ht _ hbefore
    rcases t.shift.retryBackoff with hkept | hunsettles
    · exact hkept.trans hbefore
    · exact absurd hunsettles (hnone t ht)

/-- The next sign-in waits for the backoff. -/
theorem Follows.retriedOff (h : Follows turns c) (hapart : Apart turns earlier between later)
    (hearlier : earlier.FailsAway) (hlater : later.Retries)
    (hnone : ∀ t ∈ between, ¬t.Unsettles ∧ ¬t.Reschedules) :
    earlier.os.third + earlier.after.agent.startupBackoff ≤ later.os.first := by
  have hsince := h.until (Q := fun p _ => ∀ due, p.retryAt = some due →
    earlier.after.agent.startupRetryAt = some due) hapart (fun due hdue => hdue) ?_
  · obtain ⟨hheld, _⟩ := hsince
    obtain ⟨due, hdue, hle⟩ := hlater.due
    have hlaid := hheld due hdue
    rw [hearlier.pace.2] at hlaid
    cases hlaid
    exact hle
  · intro t ht _ hbefore due hdue
    rcases t.shift.retryAt with hkept | hgone | hunsettles | hreschedules
    · exact hbefore due (hkept.symm.trans hdue)
    · rw [hgone] at hdue
      cases hdue
    · exact absurd hunsettles (hnone t ht).1
    · exact absurd hreschedules (hnone t ht).2

/-- The wait of an episode grows. -/
theorem Follows.lostLonger (h : Follows turns c) (hapart : Apart turns earlier between later)
    (hlater : later.FailsLost)
    (hopen : ∀ t ∈ between, 0 < t.after.agent.loss.streak) :
    lossBase earlier.after.agent.loss.streak ≤ lossBase later.after.agent.loss.streak := by
  have hsince := h.until (Q := fun p _ => earlier.after.agent.loss.streak ≤ p.loss.streak)
    hapart (le_refl _) ?_
  · obtain ⟨hheld, _⟩ := hsince
    rw [hlater.pace.1]
    exact lossBase_mono (hheld.trans (Nat.le_succ _))
  · intro t ht _ hbefore
    rcases t.shift.streak with hgrown | hclosed
    · exact hbefore.trans hgrown
    · have hstreak := hopen t ht
      rw [show t.after.agent.loss = .closed from hclosed] at hstreak
      cases hstreak

/-- The retries that are left and those that were taken are no more than a start at logon
gives. -/
theorem Follows.counted (h : Follows turns c) (hturns : turns = since ++ older)
    (hnone : ∀ t ∈ since, t.act ≠ .command .autostartSignIn) (hsublist : failures.Sublist since)
    (hcounted : ∀ t ∈ failures, t.Counted) :
    failures.length + c.agent.startupRetries ≤ startupRetries := by
  induction h generalizing since failures with
  | start os settings =>
    have hempty : failures = [] := by
      cases since with
      | nil => exact List.sublist_nil.mp hsublist
      | cons last rest => cases hturns
    rw [hempty, List.length_nil, Nat.zero_add]
    exact retries_init os settings
  | turn hprior os hclock act ih =>
    rename_i prior before
    have hshift := (Turn.shift ⟨before, os, act⟩).retries
    cases since with
    | nil =>
      rw [List.sublist_nil.mp hsublist, List.length_nil, Nat.zero_add]
      exact (hprior.turn os hclock act).retries
    | cons last rest =>
      cases hturns
      have hrest : ∀ t ∈ rest, t.act ≠ .command .autostartSignIn := by
        intro t ht
        exact hnone t (List.mem_cons_of_mem _ ht)
      have hle := hshift.resolve_right fun hfull => hnone _ List.mem_cons_self hfull.2
      cases hsublist with
      | cons _ hshorter =>
        have hheld := ih rfl hrest hshorter hcounted
        exact (Nat.add_le_add_left hle _).trans hheld
      | cons_cons _ hshorter =>
        have hheld := ih rfl hrest hshorter fun t ht => hcounted t (List.mem_cons_of_mem _ ht)
        have htaken := (hcounted _ List.mem_cons_self).pace
        rw [List.length_cons]
        dsimp only at htaken
        omega
  | beside hprior disk cache threads events revocations ih => exact ih hturns hnone hsublist hcounted

/-- **The exchanges of every run are paced**. -/
theorem follows_paced (h : Follows turns c) : Paced turns where
  spaced _ _ _ hapart hearlier hlater hnone hahead :=
    h.spaced hapart hearlier hlater hnone hahead
  backed _ _ hfails := ⟨hfails.bounds.1, hfails.bounds.2, hfails.pace.2⟩
  backedLonger _ _ _ hapart hearlier hlater hstreak hnone :=
    h.backedLonger hapart hearlier hlater hstreak hnone
  backedOff _ _ _ hapart hearlier hlater hnone := h.backedOff hapart hearlier hlater hnone
  retried _ _ hfails := ⟨hfails.bounds.1, hfails.bounds.2, hfails.pace.2⟩
  retriedLonger _ _ _ hapart hearlier hlater hnone :=
    h.retriedLonger hapart hearlier hlater hnone
  retriedOff _ _ _ hapart hearlier hlater hnone := h.retriedOff hapart hearlier hlater hnone
  lost t _ hfails := ⟨_, hfails.pace.2, lossDelay_bounds t.os _⟩
  lostLonger _ _ _ hapart _ hlater hopen := h.lostLonger hapart hlater hopen
  counted newer since older hturns hnone failures hsublist hcounted := by
    have hback : turns = newer ++ (since ++ older) :=
      hturns.trans (List.append_assoc newer since older)
    obtain ⟨d, hfollows⟩ := h.drop hback
    exact (Nat.le_add_right _ _).trans (hfollows.counted rfl hnone hsublist hcounted)

end Pacing

section Ended

variable {t later : Turn} {stop : ℤ}

/-- A ticket that has ended when it lands is scheduled for the next second. -/
theorem midpoint_ended {now : ℤ} (os : Os) (hended : stop ≤ now) :
    midpoint os now stop = now + 1 := by
  unfold midpoint
  dsimp only
  refine max_eq_right ((min_le_right _ _).trans ?_)
  unfold expiryGrace
  omega

/-- A tick finds the ticket ended, and starts the re-injection that is due. -/
theorem start_ended {now due : ℤ} {a : Agent} (os : Os) (refreshToken : Option String)
    (hconnected : a.phase = .connected) (hended : a.stop ≤ now) (hdue : a.refreshAt = some due)
    (hle : due ≤ now) : (tickAt os now false refreshToken a).start = some .renewal := by
  have hsession : (Due.probing now false a).agent.session = a.session := session_probing a
  have hexpired : (Due.probing now false a).agent.phase = .connected ∧
      (Due.probing now false a).agent.stop ≤ now := by
    rw [show (Due.probing now false a).agent.phase = a.phase from congrArg Session.phase hsession,
      show (Due.probing now false a).agent.stop = a.stop from congrArg Session.stop hsession]
    exact ⟨hconnected, hended⟩
  have hat : (Due.probing now false a).agent.refreshAt = some due :=
    (congrArg Session.refreshAt hsession).trans hdue
  unfold tickAt Due.expiring
  dsimp only
  rw [if_pos hexpired, if_pos rfl]
  unfold Due.overdue
  dsimp only
  rw [hat]
  dsimp only
  rw [if_pos ⟨hle, rfl⟩]

/-- What a landing leaves: a ticket that works, and its schedules. -/
theorem Turn.LandsAt.after (h : t.LandsAt stop) : t.after.agent.phase = .connected ∧
    t.after.agent.pace = t.before.agent.pace.landed t.os stop := by
  obtain ⟨stamp, injected, realm, effects, viaGrant, hact, hcurrent, hstop⟩ := h
  have hafter : t.after.agent = (t.before.act t.os t.act).agent := rfl
  have hlanded : (t.before.act t.os t.act).agent = (Client.signedIn t.os stamp injected effects
      viaGrant (t.before.withAgent fun a => { a with discoveryEnded := true })).agent := by
    rw [hact]
    change (if t.before.agent.discoveryIsCurrent stamp then _ else _ : Client).agent = _
    rw [if_pos hcurrent]
    rfl
  rw [hafter, hlanded]
  constructor
  · change (Agent.expect t.os true _).session.phase = _
    rw [session_expect, session_spendAuthorization]
    rfl
  · rw [pace_signedIn, hstop]
    rfl

/-- A ticket that has ended when it lands is replaced at the next tick a second later. -/
theorem injects_ended (h : t.LandsAt stop) (hended : stop ≤ t.os.first)
    (hfree : t.after.busy = false) (hbefore : later.before = t.after)
    (htick : later.act = .command .tick) (hlater : t.os.first + 1 ≤ later.os.first) :
    later.Injects := by
  obtain ⟨hconnected, hpace⟩ := h.after
  have hdue : t.after.agent.refreshAt = some (t.os.first + 1) := by
    have hat : t.after.agent.refreshAt = some (midpoint t.os t.os.first stop) :=
      congrArg Pace.refreshAt hpace
    rw [hat, midpoint_ended t.os hended]
  have hover : t.after.agent.stop ≤ later.os.first := by
    rw [show t.after.agent.stop = stop from congrArg Pace.stop hpace]
    omega
  have hstart := start_ended later.os t.after.refreshToken hconnected hover hdue hlater
  unfold Turn.Injects Turn.started
  rw [htick, hbefore, hfree]
  exact ⟨hstart, _, hdue, hlater⟩

end Ended

section Sample

/-- A ticket that ends soon. -/
def endingTicket : CachedTgt := ⟨"anna@EXAMPLE.SITE", 0, 160, 0⟩

/-- The re-injection of a ticket that was adopted is due. -/
def dueTurn : Turn where
  before := Client.init (sampleOs 0 (some endingTicket)) sampleSettings
  os := sampleOs 80 (some endingTicket)
  act := .command .tick

/-- The broker refuses it. -/
def refusedTurn : Turn where
  before := dueTurn.after
  os := sampleOs 85 (some endingTicket)
  act := .apply (.signInFailed ⟨"https://broker.example", 2⟩ ⟨none, false, none, none⟩
    (some .refused) .renewal)

/-- It is due again, ahead of the end of the ticket by the grace. -/
def graceTurn : Turn where
  before := refusedTurn.after
  os := sampleOs 130 (some endingTicket)
  act := .command .tick

/-- The three are a run. -/
theorem follows_graceTurn : Follows [graceTurn, refusedTurn, dueTurn] graceTurn.after := by
  have hdue : Follows [dueTurn] dueTurn.after := (Follows.start _ _).turn _ (by decide) _
  have hrefused : Follows [refusedTurn, dueTurn] refusedTurn.after :=
    hdue.turn _ (by decide) _
  exact hrefused.turn _ (by decide) _

/-- The first turn starts a re-injection. -/
theorem injects_dueTurn : dueTurn.Injects :=
  ⟨by decide, 80, by decide, by decide⟩

/-- The last turn starts the next. -/
theorem injects_graceTurn : graceTurn.Injects :=
  ⟨by decide, 130, by decide, by decide⟩

/-- The one between starts none. -/
theorem not_injects_refusedTurn : ∀ t ∈ [refusedTurn], ¬t.Injects := by
  intro t ht hinjects
  rw [List.mem_singleton.mp ht] at hinjects
  cases hinjects.1

/-- The rule at that run. -/
theorem follows_paced_graceTurn : Laid 80 160 130 := by
  have hlaid := (follows_paced follows_graceTurn).spaced dueTurn [refusedTurn] graceTurn
    ⟨[], [], rfl⟩ injects_dueTurn injects_graceTurn not_injects_refusedTurn ?_
  · have hstop : graceTurn.before.agent.stop = 160 := by decide
    rw [hstop] at hlaid
    exact hlaid
  · intro t ht stop hlands
    rw [List.mem_singleton.mp ht] at hlands
    obtain ⟨_, _, _, _, _, hact, _⟩ := hlands
    cases hact

/-- Two re-injections may be closer than the least delay, when it would pass the grace and not
the end of the ticket. -/
theorem injects_within_delay : ¬∀ turns c, Follows turns c → ∀ earlier between later,
    Apart turns earlier between later → earlier.Injects → later.Injects →
    (∀ t ∈ between, ¬t.Injects) →
    earlier.os.first + minRefreshDelay ≤ later.os.first ∨
      later.os.first < later.before.agent.stop ∧
        later.before.agent.stop ≤ earlier.os.first + minRefreshDelay := by
  intro hclaim
  have hstop : graceTurn.before.agent.stop = 160 := by decide
  have hgrace := hclaim _ _ follows_graceTurn dueTurn [refusedTurn] graceTurn ⟨[], [], rfl⟩
    injects_dueTurn injects_graceTurn not_injects_refusedTurn
  rw [hstop] at hgrace
  revert hgrace
  decide

end Sample

end Kerbridge.ClientAgent

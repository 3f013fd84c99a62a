import Kerbridge.AgentFrames
import Mathlib.Logic.Relation

/-!
# The pieces a turn is made of

Every handler of the user thread is a short sequence of pieces: it takes the busy slot,
gives it back, starts a thread beside it, publishes a document, lands a ticket, or does
none of that. What a piece does is said once, and an invariant of every turn is proved
piece by piece.
-/

namespace Kerbridge.ClientAgent

section Holders

/-- Whether a worker is there to bring a ticket. -/
def Worker.signsIn (w : Worker) : Bool :=
  match w.work with
  | .signIn _ _ _ _ => true
  | _ => false

/-- What a worker holds of the busy slot. The cloud sign-out runs beside it. -/
def Worker.holder (w : Worker) : Option Holder :=
  if w.work = .cloudSignOut then none else some (.stamped w.stamp)

/-- Whether a thread is there to bring a ticket. -/
def Thread.signsIn : Thread → Bool
  | .worker w => w.signsIn
  | _ => false

/-- What a thread holds of the busy slot. -/
def Thread.holder : Thread → Option Holder
  | .worker w => w.holder
  | .elevated action _ => some (.elevated action)
  | .compensate stamp _ _ => some (.stamped stamp)
  | .probe _ => none
  | .giveUp _ _ _ _ _ => none

/-- What each kind of work has to do. -/
def Work.does : Work → Errand → Bool
  | .signIn _ _ _ _, .proveGrant => true
  | .signIn _ _ _ _, .acquireToken => true
  | .signIn _ _ _ _, .injectToken => true
  | .createGrant _ _, .acquireToken => true
  | .createGrant _ _, .register => true
  | .cloudSignOut, .logOut => true
  | _, _ => false

/-- Whether a worker is about something that its work has to do. -/
def Worker.fit (w : Worker) : Bool :=
  match w.leg with
  | .ask _ errand _ => w.work.does errand
  | .act _ errand => w.work.does errand
  | _ => true

/-- The same of a thread. -/
def Thread.fit : Thread → Bool
  | .worker w => w.fit
  | _ => true

/-- Whose hold on the busy slot an event ends. -/
def Event.holder : Event → Option Holder
  | .signedIn stamp _ _ _ _ => some (.stamped stamp)
  | .signInFailed stamp _ _ _ => some (.stamped stamp)
  | .cancelled stamp _ => some (.stamped stamp)
  | .grantCreated stamp _ _ _ => some (.stamped stamp)
  | .grantFailed stamp _ _ => some (.stamped stamp)
  | .staleGrantCompensated stamp => some (.stamped stamp)
  | .elevatedFinished action _ _ => some (.elevated action)
  | _ => none

/-- The stamp of an operation that has one. -/
def Holder.stamp : Holder → Option DiscoveryStamp
  | .stamped stamp => some stamp
  | .elevated _ => none

/-- Who gave the slot back, when an entry says that. -/
def SlotEntry.given : SlotEntry → Option Holder
  | .took _ => none
  | .gave holder => some holder

/-- Whose event is applied in a step. -/
def Label.inHand : Label → Option Holder
  | .deliver ev => ev.holder
  | _ => none

/-- The operations that are outstanding: their thread runs, or their last event waits. -/
def Client.holders (c : Client) : List Holder :=
  c.threads.filterMap Thread.holder ++ c.events.filterMap Event.holder

/-- Who gave the slot back, the newest first. -/
def Client.given (c : Client) : List Holder := c.slot.filterMap SlotEntry.given

/-- No ticket is held, and no sign-in of the user's runs. -/
def Phase.off : Phase → Bool
  | .signedOut => true
  | .error => true
  | _ => false

/-- What the threads share, but for the agent and its flags. -/
structure Shared where
  busy : Bool
  cache : List Ticket
  threads : List Thread
  events : List Event
  slot : List SlotEntry
  revocations : List (Option String × Grant)

/-- What the threads of a client share. -/
def Client.shared (c : Client) : Shared :=
  ⟨c.busy, c.cache, c.threads, c.events, c.slot, c.revocations⟩

end Holders

section Pieces

/-- The slot, the threads and the queue stay, and requests are only added. -/
structure Steady (c d : Client) : Prop where
  busy : d.busy = c.busy
  slot : d.slot = c.slot
  threads : d.threads = c.threads
  events : d.events = c.events
  cache : ∀ t ∈ d.cache, t ∈ c.cache
  revocations : d.revocations = c.revocations
  operation : d.agent.busyOperation = c.agent.busyOperation
  generation : c.agent.discoveryGeneration ≤ d.agent.discoveryGeneration

/-- What the broker published and what is expected stay too, and nothing is connected. -/
structure Quiet (c d : Client) : Prop extends Steady c d where
  published : d.agent.published = c.agent.published
  expectations : d.agent.expectations = c.agent.expectations
  off : c.agent.phase.off = true → d.agent.phase.off = true

/-- A thread is started that takes the slot. -/
structure Took (c : Client) (t : Thread) (holder : Holder) (d : Client) : Prop where
  shared : d.shared = { c.shared with
    busy := true
    threads := c.threads ++ [t]
    slot := .took holder :: c.slot }
  operation : d.agent.busyOperation.map BusyOperation.stamp =
    holder.stamp.or (c.agent.busyOperation.map BusyOperation.stamp)
  generation : c.agent.discoveryGeneration ≤ d.agent.discoveryGeneration
  fresh : ∀ stamp, holder = .stamped stamp →
    c.agent.discoveryGeneration < stamp.generation ∧
      stamp.generation ≤ d.agent.discoveryGeneration
  published : d.agent.published = c.agent.published
  expectations : d.agent.expectations = c.agent.expectations
  off : t.signsIn = true ∨ (c.agent.phase.off = true → d.agent.phase.off = true)

/-- The slot is given back. -/
structure Gave (c : Client) (holder : Holder) (d : Client) : Prop where
  shared : d.shared = { c.shared with busy := false, slot := .gave holder :: c.slot }
  operation : d.agent.busyOperation = none ∨
    ∃ action, holder = .elevated action ∧ d.agent.busyOperation = c.agent.busyOperation
  generation : c.agent.discoveryGeneration ≤ d.agent.discoveryGeneration
  published : d.agent.published = c.agent.published
  expectations : d.agent.expectations = c.agent.expectations
  off : c.agent.phase.off = true → d.agent.phase.off = true

/-- One piece of a step, on the state with the hold that the applied event ends. -/
inductive Piece (l : Label) : Option Holder × Client → Option Holder × Client → Prop
  | quiet {i : Option Holder} {c d : Client} (h : Quiet c d) : Piece l (i, c) (i, d)
  | answered {i : Option Holder} {c : Client} (stamp : DiscoveryStamp) (ok : Bool) :
      Piece l (i, c) (i, c.answer stamp ok)
  | spawned {i : Option Holder} {c : Client} {t : Thread} (ht : t.holder = none)
      (hfit : t.fit = true) :
      Piece l (i, c) (i, { c with threads := c.threads ++ [t] })
  | took {c d : Client} {t : Thread} {holder : Holder} (ht : t.holder = some holder)
      (hfit : t.fit = true) (hbusy : c.busy = false) (h : Took c t holder d) : Piece l (none, c) (none, d)
  | gave {c d : Client} {holder : Holder} (hl : l.inHand = some holder) (h : Gave c holder d) :
      Piece l (some holder, c) (none, d)
  /-- The slot is held by another operation. -/
  | ignored {c : Client} {stamp : DiscoveryStamp}
      (h : c.agent.busyOperation.map BusyOperation.stamp ≠ some stamp) :
      Piece l (some (.stamped stamp), c) (none, c)
  /-- The hold goes on to the thread that gives a grant back. -/
  | handed {c : Client} {stamp : DiscoveryStamp} (url : String) (grant : Grant) :
      Piece l (some (.stamped stamp), c)
        (none, { c with threads := c.threads ++ [.compensate stamp url grant] })
  | landed {i : Option Holder} {c d : Client} {stamp : DiscoveryStamp} {injected : Injected}
      {realm : String} {effects : WorkerEffects} {viaGrant : Option String}
      (hl : l = .deliver (.signedIn stamp injected realm effects viaGrant)) (h : Steady c d)
      (hpublished : d.agent.published = c.agent.published) : Piece l (i, c) (i, d)
  | published {i : Option Holder} {c d : Client} {stamp : DiscoveryStamp}
      {snapshot : BrokerSnapshot} {accepted : Bool}
      (hl : l = .deliver (.discovered stamp snapshot accepted)) (h : Steady c d)
      (hpublished : d.agent.published = snapshot.published)
      (hexpectations : d.agent.expectations = c.agent.expectations)
      (hoff : c.agent.phase.off = true → d.agent.phase.off = true) : Piece l (i, c) (i, d)
  | cleared {i : Option Holder} {c d : Client} {change : SettingsChange}
      (hl : l = .command (.applySettings change)) (h : Steady c d)
      (hpublished : d.agent.published = .nothing)
      (hexpectations : d.agent.expectations = c.agent.expectations)
      (hoff : d.agent.phase.off = true) : Piece l (i, c) (i, d)

/-- A step piece by piece. -/
abbrev Pieces (l : Label) : Option Holder × Client → Option Holder × Client → Prop :=
  Relation.ReflTransGen (Piece l)

variable {l : Label} {i j k : Option Holder} {c d e : Client}

/-- A quiet piece is a sequence of its own. -/
theorem Quiet.pieces (h : Quiet c d) : Pieces l (i, c) (i, d) := .single (.quiet h)

/-- A quiet piece may end a sequence. -/
theorem Pieces.quiet (h : Pieces l (i, c) (j, d)) (hq : Quiet d e) : Pieces l (i, c) (j, e) :=
  h.tail (.quiet hq)

/-- What holds at the start and is kept by each piece holds at the end. -/
theorem Pieces.keeps {Inv : Option Holder × Client → Prop}
    (hpiece : ∀ x y, Inv x → Piece l x y → Inv y) {x y : Option Holder × Client}
    (h : Pieces l x y) (hx : Inv x) : Inv y := by
  induction h with
  | refl => exact hx
  | tail _ hlast ih => exact hpiece _ _ ih hlast

/-- The slot and its company stay when nothing shared and no operation changes. -/
theorem Steady.of_shared (hshared : d.shared = c.shared)
    (hoperation : d.agent.busyOperation = c.agent.busyOperation)
    (hgeneration : c.agent.discoveryGeneration ≤ d.agent.discoveryGeneration) : Steady c d where
  busy := congrArg Shared.busy hshared
  slot := congrArg Shared.slot hshared
  threads := congrArg Shared.threads hshared
  events := congrArg Shared.events hshared
  cache t ht := by
    have hcache : d.cache = c.cache := congrArg Shared.cache hshared
    rwa [hcache] at ht
  revocations := congrArg Shared.revocations hshared
  operation := hoperation
  generation := hgeneration

/-- A piece that leaves the ledger is quiet, when it does not connect. -/
theorem Quiet.of_ledger (hshared : d.shared = c.shared) (hledger : d.agent.ledger = c.agent.ledger)
    (hoff : c.agent.phase.off = true → d.agent.phase.off = true) : Quiet c d where
  toSteady := Steady.of_shared hshared (congrArg Ledger.operation hledger)
    (congrArg Ledger.generation hledger).ge
  published := congrArg Ledger.published hledger
  expectations := congrArg Ledger.expectations hledger
  off := hoff

/-- A piece that leaves both parts of the agent is quiet. -/
theorem Quiet.of_core (hshared : d.shared = c.shared) (hcore : d.agent.core = c.agent.core) :
    Quiet c d := by
  refine Quiet.of_ledger hshared (congrArg Core.ledger hcore) fun hoff => ?_
  have hphase : d.agent.phase = c.agent.phase := congrArg (fun x => x.session.phase) hcore
  rw [hphase]
  exact hoff

/-- A change of the agent that leaves both parts is quiet. -/
theorem Quiet.withAgent {f : Agent → Agent} (h : (f c.agent).core = c.agent.core) :
    Quiet c (c.withAgent f) := Quiet.of_core rfl h

theorem Quiet.refl (c : Client) : Quiet c c := Quiet.of_core rfl rfl

theorem Quiet.trans (h : Quiet c d) (h' : Quiet d e) : Quiet c e where
  busy := h'.busy.trans h.busy
  slot := h'.slot.trans h.slot
  threads := h'.threads.trans h.threads
  events := h'.events.trans h.events
  cache t ht := h.cache t (h'.cache t ht)
  revocations := h'.revocations.trans h.revocations
  operation := h'.operation.trans h.operation
  generation := h.generation.trans h'.generation
  published := h'.published.trans h.published
  expectations := h'.expectations.trans h.expectations
  off hoff := h'.off (h.off hoff)

end Pieces

end Kerbridge.ClientAgent

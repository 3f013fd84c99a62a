import Kerbridge.Problems

/-!
# The notifier

An event is recorded, and posted when it is configured, loud enough and due. A condition
that clears is posted as a recovery when the severity it was last raised at passes the
floor. What the receiver makes of a post is not read, and a post that fails is logged.
-/

namespace Kerbridge.Notify

open Std (ExtTreeMap)

/-- The icon of a recovery. -/
def recoveredIcon : String := "✅"

/-- The icon of an event. -/
def severityIcon : Severity → String
  | .info => "🔵"
  | .warning => "🟠"
  | .error => "🔴"

/-- What is posted to the channel, and when. -/
structure Posted where
  event : String
  subject : String
  severity : Severity
  message : String
  detail : String
  icon : String
  time : ℕ
  deriving DecidableEq

/-- Whether a post says that a condition is over. -/
def Posted.isRecovery (p : Posted) : Bool := decide (p.icon = recoveredIcon)

/-- How long a condition has been true, coarsely. -/
def Problem.lasted (p : Problem) (now : ℕ) : String :=
  let secs := now - p.since
  if secs < 90 then toString secs ++ "s"
  else if secs < 5400 then toString (secs / 60) ++ "m"
  else if secs < 172800 then toString (secs / 3600) ++ "h"
  else toString (secs / 86400) ++ "d"

/-- What is still true, in one line. -/
def Problems.openSummary (ps : Problems) : String :=
  let isOpen := (ps.records.toList.flatMap fun e => e.2.toList.map Prod.snd).filter Problem.isOpen
  if isOpen.isEmpty then "no problems open"
  else toString isOpen.length ++ " open: " ++
    ", ".intercalate (isOpen.map Problem.event).eraseReps

/-- The detail of an event, followed by what is still true. -/
def aggregate (detail summary : String) : String :=
  if detail.isEmpty then summary else detail ++ "\n" ++ summary

/-- The notifier of one component. -/
structure Notifier where
  component : String
  minSeverity : Severity
  /-- The repeat interval, in seconds. -/
  repeatInterval : ℕ
  problems : Problems
  /-- Whether there is a channel. -/
  channel : Bool

/-- Whether an event of a severity can be delivered. -/
def Notifier.deliverable (n : Notifier) (severity : Severity) : Bool :=
  n.channel && decide (n.minSeverity.level ≤ severity.level)

/-- An event is recorded, and posted if it is due. -/
def Notifier.send (n : Notifier) (ev : Event) (now : ℕ) : List Posted × Notifier :=
  let (isDue, problems) :=
    n.problems.raise ev n.component now n.repeatInterval (n.deliverable ev.severity)
  let posts := if n.channel && isDue then
      [⟨ev.event, ev.subject, ev.severity, ev.message, aggregate ev.detail problems.openSummary,
        severityIcon ev.severity, now⟩]
    else []
  (posts, { n with problems })

/-- The post of a condition that is over, if it is posted. -/
def Notifier.recovery (n : Notifier) (event summary : String) (now : ℕ) (p : Problem) :
    Option Posted :=
  if n.channel && decide (n.minSeverity.level ≤ p.severity.level) then
    some ⟨event, p.subject, .info, "recovered after " ++ p.lasted now,
      aggregate ("was: " ++ p.message) summary, recoveredIcon, now⟩
  else none

/-- Every open condition of an event is over. -/
def Notifier.resolve (n : Notifier) (event : String) (now : ℕ) : List Posted × Notifier :=
  let (resolved, problems) := n.problems.resolve event
  (resolved.filterMap (n.recovery event problems.openSummary now), { n with problems })

/-- One condition of an event is over. -/
def Notifier.resolveSubject (n : Notifier) (event subject : String) (now : ℕ) :
    List Posted × Notifier :=
  let (resolved, problems) := n.problems.resolveOne event subject
  (resolved.toList.filterMap (n.recovery event problems.openSummary now), { n with problems })

end Kerbridge.Notify

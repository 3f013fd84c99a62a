import Std.Data.ExtTreeMap
import Mathlib.Data.Int.Notation
import Mathlib.Data.List.Basic

/-!
# What is currently wrong, as files

One record for every event and subject, kept in memory and as one file each in a state
directory. A record holds three things that are updated apart: whether the condition is
still true, when an announcement was last attempted, and the step of the countdown it
is in. Writes succeed here. A file is kept as what its body parses to, and a body parses
to the record it was written from.
-/

namespace Kerbridge.Notify

open Std (ExtTreeMap)

/-- How loud an event is. -/
inductive Severity where
  | info
  | warning
  | error
  deriving DecidableEq

/-- The place of a severity, the quietest first. -/
def Severity.level : Severity → ℕ
  | .info => 0
  | .warning => 1
  | .error => 2

/-- How a condition repeats, and therefore what makes it due again. -/
inductive Repeat where
  /-- It is still true, and repeats on the configured interval. -/
  | persisting
  /-- It has a deadline, and is notified as that comes into a new band. -/
  | countdown (daysRemaining : ℤ)
  deriving DecidableEq

/-- Whether an event opens something, or merely reports something. -/
inductive Kind where
  | condition
  | incident
  deriving DecidableEq

/-- One thing that happened, as a caller reports it. -/
structure Event where
  event : String
  severity : Severity
  /-- What this instance is about; empty when it is about the deployment as a whole. -/
  subject : String
  message : String
  detail : String
  repeats : Repeat
  kind : Kind
  deriving DecidableEq

/-- One condition, as it is written to disk. -/
structure Problem where
  event : String
  subject : String
  component : String
  /-- The severity it was last raised at. -/
  severity : Severity
  message : String
  detail : String
  /-- Whether it is still true. -/
  isOpen : Bool
  /-- When it was first raised. -/
  since : ℕ
  /-- When delivery was last attempted. -/
  attemptedAt : Option ℕ
  /-- The step of the countdown the deadline was last in. -/
  band : Option ℤ
  deriving DecidableEq

/-- The steps a countdown is notified on. -/
def bands : List ℤ := [1, 3, 7, 14, 30]

/-- The step some days fall in, if the deadline is not beyond the last one. -/
def band (days : ℤ) : Option ℤ := bands.find? fun step => decide (days ≤ step)

/-- The step an event is in. -/
def Event.band (ev : Event) : Option ℤ :=
  match ev.repeats with
  | .persisting => none
  | .countdown days => Notify.band days

/-- The hash a subject is spelled as in a file name. -/
def fnv1a (s : String) : UInt64 :=
  s.toUTF8.data.foldl (fun hash byte => (hash ^^^ byte.toUInt64) * 0x100000001b3)
    0xcbf29ce484222325

/-- A hash in sixteen hexadecimal digits. -/
def hex16 (n : UInt64) : String :=
  let digits := Nat.toDigits 16 n.toNat
  String.ofList (List.replicate (16 - digits.length) '0' ++ digits)

/-- The class a file is of. -/
def fileClass (isOpen : Bool) : String := if isOpen then "problem" else "recent"

/-- What a file name says of the event and its subject. -/
def fileStem (event subject : String) : String :=
  if subject.isEmpty then event else event ++ "__" ++ hex16 (fnv1a subject)

/-- The name of the file of a record. -/
def fileName (isOpen : Bool) (event subject : String) : String :=
  fileClass isOpen ++ "-" ++ fileStem event subject ++ ".json"

/-- Whether a file is one of the records. -/
def isStateFile (name : String) : Bool :=
  ".json".toList.isSuffixOf name.toList &&
    ("problem-".toList.isPrefixOf name.toList || "recent-".toList.isPrefixOf name.toList)

/-- A directory: what the body of every file parses to, if it parses. -/
abbrev Directory := ExtTreeMap String (Option Problem)

/-- The records by event and subject. -/
abbrev Records := ExtTreeMap String (ExtTreeMap String Problem)

/-- The record of an event and a subject. -/
def Records.find (records : Records) (event subject : String) : Option Problem :=
  records[event]?.bind fun subjects => subjects[subject]?

/-- A record takes the place of that of its event and subject. -/
def Records.put (records : Records) (p : Problem) : Records :=
  records.insert p.event (((records[p.event]?).getD {}).insert p.subject p)

/-- What is currently wrong. -/
structure Problems where
  /-- The state directory; without one everything is kept in memory. -/
  dir : Option Directory := none
  records : Records := {}

/-- One record is written, under the class it is of now. -/
def writeFile (dir : Directory) (p : Problem) : Directory :=
  (dir.erase (fileName (!p.isOpen) p.event p.subject)).insert
    (fileName p.isOpen p.event p.subject) (some p)

/-- One record is kept, in the directory and in memory. -/
def Problems.store (ps : Problems) (p : Problem) : Problems where
  dir := ps.dir.map fun dir => writeFile dir p
  records := ps.records.put p

/-- Whether the last attempt is long enough ago, if there was one. -/
def Problem.rested (p : Problem) (now interval : ℕ) : Bool :=
  p.attemptedAt.all fun at_ => decide (interval ≤ now - at_)

/-- Whether an event is to be announced, given the record of its event and subject. -/
def due (existing : Option Problem) (ev : Event) (now interval : ℕ) (deliverable : Bool) : Bool :=
  deliverable &&
    match ev.repeats with
    | .persisting => existing.all fun p => p.rested now interval
    | .countdown days =>
      match Notify.band days with
      | none => false
      | some step => existing.all fun p => p.band.all fun had => decide (step < had)

/-- The record of an event that was raised. -/
def raised (existing : Option Problem) (ev : Event) (component : String) (now : ℕ) (isDue : Bool) :
    Problem where
  event := ev.event
  subject := ev.subject
  component := component
  severity := ev.severity
  message := ev.message
  detail := ev.detail
  isOpen := decide (ev.kind = .condition)
  since := (existing.map Problem.since).getD now
  attemptedAt := if isDue then some now else existing.bind Problem.attemptedAt
  band := ev.band

/-- An event is recorded as true, and whether it is to be announced is answered. -/
def Problems.raise (ps : Problems) (ev : Event) (component : String) (now interval : ℕ)
    (deliverable : Bool) : Bool × Problems :=
  let existing := ps.records.find ev.event ev.subject
  let isDue := due existing ev now interval deliverable
  (isDue, ps.store (raised existing ev component now isDue))

/-- A record that is not true any more. -/
def Problem.close (p : Problem) : Problem := { p with isOpen := false }

/-- Every open record of an event is closed, and those that were open are given back. -/
def Problems.resolve (ps : Problems) (event : String) : List Problem × Problems :=
  match ps.records[event]? with
  | none => ([], ps)
  | some subjects =>
    let resolved := (subjects.toList.filter fun e => e.2.isOpen).map fun e => e.2.close
    let closed := subjects.map fun _ p => if p.isOpen then p.close else p
    (resolved, resolved.foldl Problems.store { ps with records := ps.records.insert event closed })

/-- One record of an event is closed, if it was open. -/
def Problems.resolveOne (ps : Problems) (event subject : String) : Option Problem × Problems :=
  match ps.records[event]? with
  | none => (none, ps)
  | some subjects =>
    match subjects[subject]? with
    | none => (none, ps)
    | some p =>
      if p.isOpen then
        (some p.close, Problems.store { ps with
          records := ps.records.insert event (subjects.insert subject p.close) } p.close)
      else (none, ps)

/-- Whether a closed record is no longer needed: its last attempt is past the interval. -/
def Problem.prunable (p : Problem) (now interval : ℕ) : Bool :=
  !p.isOpen && p.attemptedAt.all fun at_ => decide (interval < now - at_)

/-- One file is read: others are left alone, and a record that is not needed is removed. -/
def loadFile (now interval : ℕ) (ps : Directory × Records) (file : String × Option Problem) :
    Directory × Records :=
  if isStateFile file.1 then
    match file.2 with
    | none => ps
    | some p =>
      if p.prunable now interval then (ps.1.erase file.1, ps.2) else (ps.1, ps.2.put p)
  else ps

/-- The files of a directory, in whatever order it lists them. -/
structure Listing where
  files : Directory → List (String × Option Problem)
  perm : ∀ dir, (files dir).Perm dir.toList

/-- The records are read back from the directory. -/
def Problems.load (dir : Option Directory) (listing : Listing) (interval now : ℕ) : Problems :=
  match dir with
  | none => {}
  | some dir =>
    let (dir, records) := (listing.files dir).foldl (loadFile now interval) (dir, {})
    { dir := some dir, records }

end Kerbridge.Notify

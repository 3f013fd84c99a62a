import Kerbridge.GraphClient
import Kerbridge.StoredIdentity

/-!
# The Entra source

One tenant between cycles: the shadow and the two delta cursors it stands at.
A cycle reads both streams, patches the shadow and moves the cursors, or fails
with the sentence the operator sees. Notices sent on the way are not modelled.
-/

namespace Kerbridge.EntraSync

open UnicodeText DirectorySource EntraShadow GraphClient StoredIdentity

/-- One configured tenant and what it carries between cycles. -/
structure EntraSource where
  /-- The source's configured name. -/
  source : String
  /-- The path of the credential file, as printed. -/
  credentialFile : String
  admissionGroupId : String
  grantGroupId : Option String
  /-- Groups to mirror beyond the admission closure. -/
  allowlist : List String
  samSource : SamSource
  shadow : Shadow := {}
  usersCursor : Option String := none
  groupsCursor : Option String := none

/-- What the configuration states about one tenant. -/
structure Settings where
  syncCredentialFile : String
  admissionGroupId : String
  deviceGrantGroupId : Option String := none
  extraGroupIds : List String := []
  samSource : SamSource := .displayName

/-- A source before its first cycle: no cursor, and an empty shadow. -/
def EntraSource.new (settings : Settings) (source : String) : EntraSource where
  source := source
  credentialFile := settings.syncCredentialFile
  admissionGroupId := settings.admissionGroupId
  grantGroupId := settings.deviceGrantGroupId
  allowlist := settings.extraGroupIds
  samSource := settings.samSource

/-- Why no token was acquired. -/
inductive TokenError where
  | expired (why : String)
  | invalid (why : String)
  | other (why : String)

/-- One pass over both streams: what the network does to each. -/
structure Attempt where
  users : List Exchange
  groups : List Exchange

/-- Everything one cycle meets. -/
structure Cycle where
  /-- What reading the credential file gives. -/
  credential : Except String (Option String)
  /-- Whether the HTTP client was built. -/
  client : Except String Unit := .ok ()
  /-- What the token endpoint answers. -/
  token : Except TokenError Unit := .ok ()
  first : Attempt
  /-- The one retry. -/
  second : Attempt := ⟨[], []⟩

/-- The credential, refused when it is the portal's Secret ID. -/
def EntraSource.credential (s : EntraSource) (read : Except String (Option String)) :
    Except String (Option String) := do
  match ← read with
  | none => .ok none
  | some value =>
    if isGuid (toAsciiLowercase value) then
      .error ("secret file " ++ s.credentialFile ++ " contains a GUID: that is the " ++
        "credential's Secret ID, not its Value")
    else .ok (some value)

/-- Anything the service did not answer. -/
def transport : Fault → SourceError
  | .authRefused status detail => .credential (authRefusedText status detail)
  | .other why => .unreachable ("cycle error: " ++ why)

/-- How a failed token acquisition is reported. -/
def tokenFailure : TokenError → SourceError
  | .expired why => .credentialRejected ("sync credential expired: " ++ why)
  | .invalid why => .credentialRejected ("sync credential rejected: " ++ why)
  | .other why => transport (.other ("acquiring Graph token: " ++ why))

/-- Whether a stream asks for a full resync: its cursor expired or is corrupt. -/
def refused {α : Type} : StreamResult α → Bool
  | .resync => true
  | .cursorCorrupt => true
  | _ => false

/-- Whether a stream stalled. -/
def isStalled {α : Type} : StreamResult α → Bool
  | .stalled => true
  | _ => false

/-- The reason a cycle is discarded by. -/
def discarded (stalled : Bool) : SourceError :=
  .notWhole <|
    if stalled then
      "cycle discarded (stalled read): no page arrived from the cloud IdP for " ++
        "long enough to call the read abandoned"
    else "cycle discarded: a delta cursor was still refused after a full resync"

section Read

variable [Libraries]

/-- Both streams, each from its cursor. The second is not asked for when the
first fails. -/
def readBoth (usersCursor groupsCursor : Option String) (a : Attempt) :
    Except Fault (StreamResult RawUser × StreamResult RawGroup) := do
  let users ← readUsers usersCursor a.users
  let groups ← readGroups groupsCursor a.groups
  return (users, groups)

/-- The shadow patched by two whole streams, standing at their delta links. -/
def EntraSource.accept (s : EntraSource) (users : List RawUser) (usersLink : Option String)
    (groups : List RawGroup) (groupsLink : Option String) : EntraSource :=
  { s with
    shadow := (s.shadow.applyUsers users).applyGroups groups
    usersCursor := usersLink
    groupsCursor := groupsLink }

variable [UnicodeTables]

/-- The shadow, as the population the realm should hold. -/
def EntraSource.snapshot (s : EntraSource) : SourceSnapshot :=
  (Roots.new s.admissionGroupId s.grantGroupId s.allowlist).narrow
    (s.shadow.enumerate s.samSource)

/-- What one pass over both streams leaves: a verdict, or the need for another
pass from an empty shadow. -/
inductive Pass where
  | ended (s : EntraSource) (result : Except SourceError Progress)
  /-- A stream refused its cursor. `stalled` is what the other one did. -/
  | refused (stalled : Bool)

/-- One turn of the loop of `read`. -/
def EntraSource.pass (s : EntraSource) (usersCursor groupsCursor : Option String)
    (a : Attempt) : Pass :=
  match readBoth usersCursor groupsCursor a with
  | .error fault => .ended s (.error (transport fault))
  | .ok (.complete users usersLink, .complete groups groupsLink) =>
    let s := s.accept users usersLink groups groupsLink
    .ended s (.ok (.complete s.snapshot))
  | .ok (users, groups) =>
    let stalled := isStalled users || isStalled groups
    if refused users || refused groups then .refused stalled
    else .ended s (.error (discarded stalled))

/-- The loop of `read`: a refused cursor drops the shadow and both cursors of
this cycle for one retry, and the stored cursors are left as they were. -/
def EntraSource.readLoop (s : EntraSource) (c : Cycle) :
    EntraSource × Except SourceError Progress :=
  match s.pass s.usersCursor s.groupsCursor c.first with
  | .ended s result => (s, result)
  | .refused _ =>
    let s := { s with shadow := {} }
    match s.pass none none c.second with
    | .ended s result => (s, result)
    | .refused stalled => (s, .error (discarded stalled))

/-- One read of both delta streams, into the shadow they patch. -/
def EntraSource.read (s : EntraSource) (c : Cycle) :
    EntraSource × Except SourceError Progress :=
  match c.token with
  | .error e => (s, .error (tokenFailure e))
  | .ok () => s.readLoop c

/-- One cycle: the credential, the client, then the read. -/
def EntraSource.advance (s : EntraSource) (c : Cycle) :
    EntraSource × Except SourceError Progress :=
  match s.credential c.credential with
  | .error why => (s, .error (.credential ("credential unreadable: " ++ why)))
  | .ok none =>
    (s, .ok (.idle ("no sync credential in " ++ s.credentialFile ++ ": source " ++ s.source ++
      " is idle until one appears")))
  | .ok (some _) =>
    match c.client with
    | .error why => (s, .error (.unreachable ("Graph client: " ++ why)))
    | .ok () => s.read c

end Read

end Kerbridge.EntraSync

import Kerbridge.DirectorySource

/-!
# The Entra shadow

Microsoft Graph's wire shapes and the local copy of the tenant they patch. A
delta entry is sparse: it carries the properties and the edges that changed, so
a slice is merged into the shadow and never read as a whole object.
-/

namespace Kerbridge.EntraShadow

open UnicodeText SamName DirectorySource Std

/-- An object's class on a membership edge. -/
inductive MemberKind where
  | user
  | group
  | device
  | servicePrincipal
  | other
  deriving DecidableEq

/-- The class an `@odata.type` names: its text after the last dot. -/
def MemberKind.fromOdata (t : String) : MemberKind :=
  match (split '.' t).getLastD "" with
  | "user" => .user
  | "group" => .group
  | "device" => .device
  | "servicePrincipal" => .servicePrincipal
  | _ => .other

/-- One entry of a users page. An absent property and a `null` one both
deserialize to `none`. -/
structure RawUser where
  id : String
  displayName : Option String := none
  upn : Option String := none
  mail : Option String := none
  otherMails : Option (List String) := none
  accountEnabled : Option Bool := none
  userType : Option String := none
  /-- The entry carries `@removed`. -/
  removed : Bool := false
  deriving DecidableEq

/-- One edge of a `members@delta` list. -/
structure RawMember where
  odataType : String
  id : String
  /-- The edge carries `@removed`. -/
  removed : Bool := false
  deriving DecidableEq

/-- One entry of a groups page. An absent `members@delta` means the membership
is unchanged. -/
structure RawGroup where
  id : String
  displayName : Option String := none
  membersDelta : Option (List RawMember) := none
  /-- The entry carries `@removed`. -/
  removed : Bool := false
  deriving DecidableEq

/-- The shadow's record of one user. -/
@[ext] structure ShadowUser where
  displayName : Option String := none
  upn : Option String := none
  mail : Option String := none
  otherMails : Option (List String) := none
  accountEnabled : Option Bool := none
  userType : Option String := none
  deriving DecidableEq

/-- One edge the shadow holds. -/
structure Member where
  kind : MemberKind
  id : String
  deriving DecidableEq

/-- The shadow's record of one group. -/
structure ShadowGroup where
  displayName : Option String := none
  members : List Member := []
  deriving DecidableEq

/-- The accumulated copy of the tenant; the default one is empty. -/
structure Shadow where
  users : ExtTreeMap String ShadowUser := {}
  groups : ExtTreeMap String ShadowGroup := {}
  deriving DecidableEq

/-- The properties an entry carries replace the ones the record holds. -/
def ShadowUser.patch (u : ShadowUser) (e : RawUser) : ShadowUser where
  displayName := e.displayName <|> u.displayName
  upn := e.upn <|> u.upn
  mail := e.mail <|> u.mail
  otherMails := e.otherMails <|> u.otherMails
  accountEnabled := e.accountEnabled <|> u.accountEnabled
  userType := e.userType <|> u.userType

/-- Every edge to `id` dropped from a group. -/
def ShadowGroup.scrub (id : String) (g : ShadowGroup) : ShadowGroup :=
  { g with members := g.members.filter fun m => m.id != id }

/-- One users entry. A removal is scrubbed from every group edge, since the
deletion of a user is reported on this stream only. -/
def Shadow.applyUser (s : Shadow) (e : RawUser) : Shadow :=
  if e.removed then
    ⟨s.users.erase e.id, s.groups.map fun _ g => g.scrub e.id⟩
  else
    { s with users := s.users.alter e.id fun u => some ((u.getD {}).patch e) }

/-- Merges a users slice. -/
def Shadow.applyUsers (s : Shadow) (entries : List RawUser) : Shadow :=
  entries.foldl Shadow.applyUser s

/-- One edge of a slice: an add is deduplicated by id, a removal drops it. -/
def mergeMember (members : List Member) (m : RawMember) : List Member :=
  if m.removed then members.filter fun x => x.id != m.id
  else if members.any fun x => x.id == m.id then members
  else members ++ [⟨MemberKind.fromOdata m.odataType, m.id⟩]

/-- The properties and edges a groups entry carries, merged into a record. -/
def ShadowGroup.patch (g : ShadowGroup) (e : RawGroup) : ShadowGroup where
  displayName := e.displayName <|> g.displayName
  members := (e.membersDelta.getD []).foldl mergeMember g.members

/-- One groups entry. -/
def Shadow.applyGroup (s : Shadow) (e : RawGroup) : Shadow :=
  if e.removed then { s with groups := s.groups.erase e.id }
  else { s with groups := s.groups.alter e.id fun g => some ((g.getD {}).patch e) }

/-- Merges a groups slice. -/
def Shadow.applyGroups (s : Shadow) (entries : List RawGroup) : Shadow :=
  entries.foldl Shadow.applyGroup s

/-- Which tenant attribute leads when a login name is minted. -/
inductive SamSource where
  | displayName
  | emailUsername
  | upn
  deriving DecidableEq

/-- Why an account is not synchronized, or nothing when it is. An unknown or
absent `userType` fails closed. -/
def userRefusal (u : ShadowUser) : Option String :=
  match u.userType with
  | some "Member" => none
  | some "Guest" => none
  | _ => some "userType is neither Member nor Guest (or absent) - fails closed"

/-- `mail`, or the first of `otherMails` where the account has none. -/
def emailAddress (u : ShadowUser) : String :=
  match u.mail with
  | some mail =>
    if (trim mail).isEmpty then (u.otherMails.getD []).headD "" else mail
  | none => (u.otherMails.getD []).headD ""

/-- A UPN's local part, with the guest marker stripped. -/
def upnLocalPart (upn : String) : String := beforeFirst '#' (localPart upn)

variable [UnicodeTables]

/-- What an account's login name may be minted from: one candidate, or none. -/
def nameCandidates (u : ShadowUser) (samSource : SamSource) : List NameCandidate :=
  let display := dotted (u.displayName.getD "")
  let email := localPart (emailAddress u)
  let upn := upnLocalPart (u.upn.getD "")
  let order :=
    match samSource with
    | .displayName => [display, email, upn]
    | .emailUsername => [email, upn, display]
    | .upn => [upn, display, email]
  (order.findSome? nameCandidate).toList

/-- One accepted account, as the population names it. -/
def enumerateUser (samSource : SamSource) (u : ShadowUser) : DesiredUser where
  displayName := u.displayName.getD ""
  nameCandidates := nameCandidates u samSource
  enabled := u.accountEnabled.getD false

/-- One refused account, named for the operator. -/
def enumerateRefusal (oid : String) (u : ShadowUser) (why : String) : Refusal where
  who := oid ++ " (" ++ u.upn.getD "no UPN" ++ ")"
  why := why

/-- An edge of a class the realm mirrors; devices and principals are dropped. -/
def enumerateEdge (m : Member) : Option Membership :=
  match m.kind with
  | .user => some (.user m.id)
  | .group => some (.group m.id)
  | _ => none

/-- The shadow as a whole enumeration, with the syncable rule applied. -/
def Shadow.enumerate (s : Shadow) (samSource : SamSource) : Enumeration where
  users := s.users.filterMap fun _ u =>
    if (userRefusal u).isNone then some (enumerateUser samSource u) else none
  refused := s.users.filterMap fun oid u => (userRefusal u).map (enumerateRefusal oid u)
  groups := s.groups.map fun _ g => ⟨g.displayName.getD ""⟩
  membership := s.groups.map fun _ g => g.members.filterMap enumerateEdge

end Kerbridge.EntraShadow

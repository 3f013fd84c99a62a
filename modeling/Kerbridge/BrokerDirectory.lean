import Kerbridge.DeviceGrant
import Kerbridge.Fallible
import Kerbridge.RealmDirectory
import Kerbridge.RealmState

/-!
# The broker's directory reads

How the broker resolves an identity to one account, and decides whether a caller
may authorize a device on one. Every question is a search; ambiguity is a
refusal. The role groups are found by their markers under the source's own unit.
-/

namespace Kerbridge.BrokerDirectory

open UnicodeText StoredIdentity DeviceGrants LdapFilter RealmDirectory RealmState Fallible

/-- One resolved account. -/
structure Account where
  sid : String
  samAccountName : String
  /-- The stored identity, verbatim. -/
  identity : String
  dn : String
  /-- Every group that names the account in `managedBy`. -/
  managedObjects : List String
  /-- Every device grant on the object that this build can read. -/
  grants : List DeviceGrant
  deriving DecidableEq

/-- A policy refusal. -/
inductive Denied where
  | notFound
  | ambiguous (n : ℕ)
  | disabled
  | notAdmitted
  | notGranted
  | notDelegate
  deriving DecidableEq

/-- A policy refusal or an infrastructure failure. -/
inductive LookupError where
  | denied (why : Denied)
  /-- No group carries a role marker. -/
  | roleMissing (marker why : String)
  /-- Several groups carry one role marker. -/
  | roleAmbiguous (marker why : String)
  /-- The outermost sentence of the failure. -/
  | unavailable (why : String)
  deriving DecidableEq

/-- One source's view of the directory. -/
structure Directory where
  baseDn : String
  /-- Where role groups are searched: this source's own unit. -/
  roleBaseDn : String

/-- How a `/devices` request names the account it acts on. -/
inductive Target where
  | sam (name : String)
  | identity (id : ExternalIdentity)

/-- A `/devices` request that passed the authorization rule. -/
structure Authorized where
  /-- The account the grant is for. -/
  target : Account
  /-- Who asked, when that is not the target. -/
  delegate : Option String

/-- The first value of an attribute. -/
def one (e : Entry) (attr : String) : Option String := (e.attrs attr).head?

/-- The one account an entry reads as, or why it is none. -/
def readAccount (e : Entry) : Except LookupError Account := do
  let text ← require (LookupError.unavailable "account has no userAccountControl")
    (one e "userAccountControl")
  let uac ← require (LookupError.unavailable "userAccountControl is not a number")
    (parseUnsigned (0x100000000) text)
  if uac &&& ufAccountDisable ≠ 0 then .error (.denied .disabled)
  else do
    let sid ← require (LookupError.unavailable "account has no readable objectSid")
      (decodeSidAttr (e.binAttrs "objectSid") (e.attrs "objectSid"))
    let sam ← require (LookupError.unavailable "account has no sAMAccountName") (one e "sAMAccountName")
    let identity ← require (LookupError.denied .notFound) (one e "msDS-ExternalDirectoryObjectId")
    return {
      sid := sid
      samAccountName := sam
      identity := identity
      dn := e.dn
      managedObjects := e.attrs "managedObjects"
      grants := (e.attrs "extensionName").filterMap fun v => (DeviceGrant.decode v).toOption }

/-- A search that must be answered; `why` is the sentence of a refused one. -/
def answered (why : String) : Except String (List Entry) → Except LookupError (List Entry)
  | .ok es => .ok es
  | .error _ => .error (.unavailable why)

/-- The filter of a role marker. -/
def markerFilter (marker : String) : String :=
  "(extensionName=" ++ escapeLdapFilterValue marker ++ ")"

/-- One item asking for membership of a group through any nesting. -/
def chainFilter (group : String) : String :=
  "(memberOf:" ++ inChainRule ++ ":=" ++ escapeLdapFilterValue group ++ ")"

/-- The filter of a target. A login name must be a user's. -/
def Target.ldapFilter : Target → String
  | .identity id => id.ldapFilter
  | .sam name => "(&(objectClass=user)(sAMAccountName=" ++ escapeLdapFilterValue name ++ "))"

variable {server : Server}

/-- The name of the group that carries a role marker. -/
def roleDn (d : Directory) (r : Realm server) (marker : String) : Except LookupError String := do
  let entries ← answered "role-group search was refused"
    (r.search d.roleBaseDn .subtree (markerFilter marker))
  match entries with
  | [g] => .ok g.dn
  | [] => .error (.roleMissing marker
      ("no group under " ++ d.roleBaseDn ++ " carries the " ++ marker ++ " marker"))
  | gs => .error (.roleAmbiguous marker
      (toString gs.length ++ " groups under " ++ d.roleBaseDn ++ " carry the " ++ marker ++
        " marker"))

/-- Whether an account is in the group that carries a role marker. -/
def inRoleGroup (d : Directory) (r : Realm server) (userDn marker : String) :
    Except LookupError Bool := do
  let groupDn ← roleDn d r marker
  let entries ← answered "role-group membership search was refused"
    (r.search userDn .base (chainFilter groupDn))
  return !entries.isEmpty

/-- The one account a filter finds, admitted, and granted where that is needed. -/
def findAccount (d : Directory) (r : Realm server) (filter : String) (needGrantGroup : Bool) :
    Except LookupError Account := do
  let entries ← answered "account search was refused" (r.search d.baseDn .subtree filter)
  match entries with
  | [] => .error (.denied .notFound)
  | [entry] => do
    let account ← readAccount entry
    if !(← inRoleGroup d r entry.dn roleAdmission) then
      .error (.denied .notAdmitted)
    else if needGrantGroup then
      if !(← inRoleGroup d r entry.dn roleDeviceGrant) then .error (.denied .notGranted)
      else .ok account
    else .ok account
  | es => .error (.denied (.ambiguous es.length))

/-- The loop of `isDelegate`: the managed groups that carry the delegates marker. -/
def delegateGroups (r : Realm server) : List String → Except LookupError (List String)
  | [] => .ok []
  | dn :: managed => do
    let entries ← answered "managed-group read was refused"
      (r.search dn .base (markerFilter roleDelegates))
    let groups ← delegateGroups r managed
    return if entries.isEmpty then groups else dn :: groups

/-- Whether a caller is in one of the groups the target names as its delegates. -/
def isDelegate (r : Realm server) (callerDn : String) (managed : List String) :
    Except LookupError Bool := do
  let groups ← delegateGroups r managed
  if groups.isEmpty then return false
  else
    let filter := "(|" ++ String.join (groups.map chainFilter) ++ ")"
    let entries ← answered "delegate-group membership search was refused"
      (r.search callerDn .base filter)
    return !entries.isEmpty

/-- Whether two resolved accounts are the same object. -/
def sameObject (caller target : Account) : Bool := eqIgnoreAsciiCase caller.dn target.dn

/-- The authorization rule, once both objects and the delegate answer are in hand. -/
def verdict (caller target : Account) (delegated : Bool) : Except Denied Authorized :=
  if sameObject caller target then .ok ⟨target, none⟩
  else if !delegated then .error .notDelegate
  else .ok ⟨target, some caller.samAccountName⟩

/-- The delegate question, asked only when it can matter. -/
def delegation (r : Realm server) (caller target : Account) : Except LookupError Bool :=
  if sameObject caller target then .ok false
  else isDelegate r caller.dn target.managedObjects

/-- Resolves a `/devices` request. The caller is looked up first. -/
def authorize (d : Directory) (r : Realm server) (caller : ExternalIdentity)
    (target : Option Target) : Except LookupError Authorized :=
  match target with
  | none => do
    let target ← findAccount d r caller.ldapFilter true
    return ⟨target, none⟩
  | some target => do
    let caller ← findAccount d r caller.ldapFilter false
    let target ← findAccount d r target.ldapFilter true
    let delegated ← delegation r caller target
    (verdict caller target delegated).mapError .denied

/-- An identity resolved for an ordinary ticket: admission only. -/
def resolve (d : Directory) (r : Realm server) (identity : ExternalIdentity) :
    Except LookupError Account :=
  findAccount d r identity.ldapFilter false

/-- An identity resolved for anything a device grant touches. -/
def resolveForGrant (d : Directory) (r : Realm server) (identity : ExternalIdentity) :
    Except LookupError Account :=
  findAccount d r identity.ldapFilter true

section Parse

variable [UnicodeTables]

/-- A target as a client spells it: a stored identity, or a login name. -/
def Target.parse (value : String) : Except String Target :=
  let value := trim value
  if value.isEmpty then .error "empty target"
  else if startsWith value "kb1|" then
    match ExternalIdentity.decode value with
    | .ok id => .ok (.identity id)
    | .error e => .error (UnicodeTables.debug value ++ " is not a kb1| identity: " ++ e.text)
  else if value.toList.contains '@' then
    .error (UnicodeTables.debug value ++ " looks like a UPN; name the account by its login " ++
      "name or its kb1| identity")
  else .ok (.sam value)

end Parse

end Kerbridge.BrokerDirectory

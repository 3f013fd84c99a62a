import Kerbridge.AuthentikToken
import Kerbridge.EntraToken
import Kerbridge.Planner
import Kerbridge.RealmDirectory

/-!
# The synchroniser's view of the realm directory

What one read of the unit makes of the entries a search gave: the objects this source
owns, keyed by the subject of their identity, and the rest by name alone. The walk over
a ranged membership attribute is a parameter.
-/

namespace Kerbridge.SyncDirectory

open UnicodeText DirectorySource SamName DistinguishedName RealmState StoredIdentity Planner

/-- One directory entry, as a search returns it. -/
abbrev Entry := RealmDirectory.Entry

/-- Which adapter a source is read through. -/
inductive Provider where
  | entra
  | authentik
  deriving DecidableEq

/-- The identity an adapter gives a subject of its source. -/
def encodeIdentity (provider : Provider) (source : Source) (subject : Subject) :
    Except IdentityError ExternalIdentity :=
  match provider with
  | .entra => EntraToken.identity source subject
  | .authentik => AuthentikToken.identity source subject

/-- How a source's subjects become stored values. -/
def sourceIdentity (provider : Provider) (source : Source) (subject : Subject) :
    Except IdentityError String :=
  (encodeIdentity provider source subject).map ExternalIdentity.encode

/-- The first value of an attribute. -/
def first (e : Entry) (attr : String) : Option String := (e.attrs attr).head?

/-- The value of a name's first component, or the name when that is no common name. -/
def cnOf (dn : String) : String := (stripPrefix (beforeFirst ',' dn) "CN=").getD dn

/-- Whether an account control value says enabled; one that is no number reads as zero. -/
def enabledOf (e : Entry) : Bool :=
  let uac := ((first e "userAccountControl").bind (parseUnsigned (1 <<< 32))).getD 0
  uac &&& ufAccountDisable == 0

/-- The identity of an object this source owns. -/
def ownIdentity (source : Source) (e : Entry) : Option (String × ExternalIdentity) := do
  let text ← first e "msDS-ExternalDirectoryObjectId"
  let id ← (ExternalIdentity.decode text).toOption
  if id.source = source then some (text, id) else none

/-- An account of this source. -/
def readUser (e : Entry) (identity : String) : CurrentUser where
  dn := e.dn
  sam := (first e "sAMAccountName").getD ""
  displayName := first e "displayName"
  enabled := enabledOf e
  markers := e.attrs "extensionName"
  identity := identity

/-- A group of this source. -/
def readGroup (e : Entry) (identity : String) (members : List String) : CurrentGroup where
  dn := e.dn
  sam := (first e "sAMAccountName").getD ""
  displayName := (first e "displayName").getD (cnOf e.dn)
  members := members
  markers := e.attrs "extensionName"
  identity := identity

/-- One entry of the unit, entered where it belongs. -/
def readEntry (source : Source) (membersOf : Entry → Except String (List String)) (c : Current)
    (e : Entry) : Except String Current :=
  match ownIdentity source e with
  | none => .ok { c with unmanagedDns := c.unmanagedDns ++ [e.dn] }
  | some (text, id) =>
    if "group" ∈ e.attrs "objectClass" then do
      let members ← membersOf e
      return { c with groups := c.groups ++ [(id.subject, readGroup e text members)] }
    else .ok { c with users := c.users ++ [(id.subject, readUser e text)] }

variable [UnicodeTables]

/-- The login names of the domain that no object of this source holds. -/
def foreignSams (source : Source) (entries domain : List Entry) : List String :=
  let managed := (entries.filter fun e => (ownIdentity source e).isSome).map fun e =>
    fold ((first e "sAMAccountName").getD "")
  (domain.filterMap fun e => first e "sAMAccountName").filter fun sam => fold sam ∉ managed

/-- One read of the unit, and of the login names of the domain. -/
def readCurrent (source : Source) (membersOf : Entry → Except String (List String))
    (entries domain : List Entry) : Except String Current := do
  let c ← entries.foldlM (readEntry source membersOf) {}
  return { c with foreignSams := foreignSams source entries domain }

end Kerbridge.SyncDirectory

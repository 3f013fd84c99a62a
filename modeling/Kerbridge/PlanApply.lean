import Kerbridge.Attempts
import Kerbridge.RealmChanges
import Kerbridge.SyncDirectory

/-!
# Applying a plan

Every operation of a plan becomes the requests that carry it out, and an operation that
fails does not keep the others from being tried. The undisclosed password of a new account
is left out; no reader of the directory sees it.
-/

namespace Kerbridge.PlanApply

open UnicodeText LdapFilter RealmDirectory RealmChanges RealmState Attempts Planner
open DistinguishedName (parentOf)

/-- `NORMAL_ACCOUNT` and `DONT_EXPIRE_PASSWORD`. -/
def uacEnabled : String := "66048"

/-- The above, and the flag of a disabled account. -/
def uacDisabled : String := "66050"

/-- What a synchronised group is created as. -/
def groupTypeGlobalSecurity : String := "-2147483646"

/-- The only attributes a replacement of an arbitrary name may write. -/
def settableAttrs : List String := ["sAMAccountName", "userPrincipalName", "displayName"]

/-- What an operation is called in a report. -/
def opKind : Op → String
  | .createUser .. => "create_user"
  | .createGroup .. => "create_group"
  | .addMember .. => "add_member"
  | .removeMember .. => "remove_member"
  | .enableUser .. => "enable_user"
  | .disableUser .. => "disable_user"
  | .rename .. => "rename"
  | .setAttr .. => "set_attr"
  | .setMarker .. => "set_marker"
  | .setRoleMarker .. => "set_role_marker"
  | .clearMarker .. => "clear_marker"
  | .clearMembers .. => "clear_members"

/-- One request of an operation. -/
inductive Request where
  | add (dn : String) (attrs : List (String × List String))
  | modify (dn : String) (change : Change)
  | modifyDn (dn rdn : String)
  /-- The admission marker must be on no object of the unit. -/
  | assertNoRoleMarkerYet
  deriving DecidableEq

/-- The text before an error of the connection. -/
def Request.doing : Request → String
  | .add .. => "adding"
  | .modify .. => "modifying"
  | .modifyDn .. => "renaming"
  | .assertNoRoleMarkerYet => "re-checking the role marker before creating the admission group"

/-- The text before a refusal of the server. -/
def Request.wasRefused : Request → String
  | .add .. => "add was refused"
  | .modify .. => "modify was refused"
  | .modifyDn .. => "rename was refused"
  | .assertNoRoleMarkerYet => "re-checking the role marker before creating the admission group"

/-- The markers of every object that was read, by its name; of two with one name, the
later stands. -/
def markerIndex (current : Current) : List (String × List String) :=
  current.users.map (fun e => (e.2.dn, e.2.markers)) ++
    current.groups.map fun e => (e.2.dn, e.2.markers)

/-- The markers under a name that begin with a prefix, each once. -/
def toDelete (markers : List (String × List String)) (dn pre : String) : List String :=
  (((lookup markers dn).getD []).filter fun m => startsWith m pre).dedup

/-- The replacement of one attribute, when there is a value for it. -/
def replacing (dn attr : String) (value : Option String) : List Request :=
  (value.map fun v => Request.modify dn (.replace attr [v])).toList

/-- The requests an operation is carried out by. -/
def requests (markers : List (String × List String)) : Op → Task Request String
  | .createUser dn sam upn displayName enabled identity =>
    .ok [.add dn [("objectClass", ["user"]), ("sAMAccountName", [sam]),
      ("userPrincipalName", [upn]), ("displayName", [displayName]),
      ("userAccountControl", [if enabled then uacEnabled else uacDisabled]),
      ("msDS-ExternalDirectoryObjectId", [identity])]]
  | .createGroup dn sam identity roleMarker =>
    let attrs := [("objectClass", ["group"]), ("sAMAccountName", [sam]),
      ("groupType", [groupTypeGlobalSecurity]), ("msDS-ExternalDirectoryObjectId", [identity])]
    match roleMarker with
    | some marker =>
      .ok [.assertNoRoleMarkerYet, .add dn (attrs ++ [("extensionName", [marker])])]
    | none => .ok [.add dn attrs]
  | .addMember dn member => .ok [.modify dn (.add "member" member)]
  | .removeMember dn member => .ok [.modify dn (.delete "member" [member])]
  | .enableUser dn => .ok [.modify dn (.replace "userAccountControl" [uacEnabled])]
  | .disableUser dn => .ok [.modify dn (.replace "userAccountControl" [uacDisabled])]
  | .setAttr dn attr value =>
    if attr ∈ settableAttrs then .ok [.modify dn (.replace attr [value])]
    else .error ("refusing SetAttr on " ++ attr ++ ": this is the only whole-attribute Replace " ++
      "taking an arbitrary name, and it may write nothing outside [\"sAMAccountName\", " ++
      "\"userPrincipalName\", \"displayName\"]")
  | .setMarker dn value => .ok [.modify dn (.add "extensionName" value)]
  | .setRoleMarker dn value => .ok [.modify dn (.add "extensionName" value)]
  | .clearMembers dn keep => .ok [.modify dn (.replace "member" keep.dedup)]
  | .clearMarker dn pre =>
    if toDelete markers dn pre = [] then .ok []
    else .ok [.modify dn (.delete "extensionName" (toDelete markers dn pre))]
  | .rename dn newCn setDisplayName setSam setUpn =>
    -- The object keeps its parent: what follows the rename is sent to where it is now.
    let rdn := "CN=" ++ newCn
    let newDn := rdn ++ "," ++ parentOf dn
    .ok (.modifyDn dn rdn :: replacing newDn "displayName" setDisplayName ++
      replacing newDn "sAMAccountName" setSam ++ replacing newDn "userPrincipalName" setUpn)

variable {server : Server}

/-- The re-check of the admission marker: an object that carries it is an error. -/
def assertNoRoleMarkerYet (idpOu : String) (r : Realm server) : Except String Unit :=
  match r.search idpOu .subtree ("(extensionName=" ++ roleAdmission ++ ")") with
  | .error why => .error (Request.assertNoRoleMarkerYet.wasRefused ++ ": " ++ why)
  | .ok [] => .ok ()
  | .ok (e :: _) =>
    .error ("refusing to mark a second admission group: " ++ e.dn ++ " already carries " ++
      roleAdmission ++ ". It was not there when this cycle was planned, so something else wrote it")

/-- What a server makes of a request. -/
def make (naming : Naming server) (idpOu : String) (request : Request) (r : Realm server) :
    Except String (Realm server) :=
  match request with
  | .add dn attrs => (add r dn attrs).mapError (request.wasRefused ++ ": " ++ ·)
  | .modify dn change => (modify r dn change).mapError (request.wasRefused ++ ": " ++ ·)
  | .modifyDn dn rdn => (modifyDn naming r dn rdn).mapError (request.wasRefused ++ ": " ++ ·)
  | .assertNoRoleMarkerYet => (assertNoRoleMarkerYet idpOu r).map fun _ => r

/-- The realm directory as the synchroniser writes to it. -/
def service (naming : Naming server) (idpOu : String) : Service (Realm server) Request String where
  make := make naming idpOu
  unanswered request why := request.doing ++ ": " ++ why

/-- What a cycle logs: one text for every operation that succeeded, and one for every
operation that did not. -/
structure ApplyReport where
  applied : List String
  failures : List String

/-- The tally of what became of the operations of a plan, in order. -/
def tally : List Op → List (Option String) → ApplyReport
  | op :: ops, outcome :: outcomes =>
    let rest := tally ops outcomes
    match outcome with
    | none => { rest with applied := (opKind op ++ " " ++ op.dn) :: rest.applied }
    | some e => { rest with failures := (op.dn ++ ": " ++ e) :: rest.failures }
  | _, _ => ⟨[], []⟩

/-- The run of the operations of a plan, in order, each with the fates of its requests. -/
def applying (naming : Naming server) (idpOu : String) (markers : List (String × List String))
    (ops : List Op) (fates : ℕ → ℕ → Fate String) (r : Realm server) :
    Report (Realm server) String :=
  (service naming idpOu).batch fates r (ops.map (requests markers))

/-- The directory at every moment of the run, the first before any request. -/
def momentsOf (naming : Naming server) (idpOu : String) (markers : List (String × List String))
    (ops : List Op) (fates : ℕ → ℕ → Fate String) (r : Realm server) : List (Realm server) :=
  r :: (applying naming idpOu markers ops fates r).moments

/-- Applies a plan: the directory it leaves behind, and the report. -/
def apply (naming : Naming server) (idpOu : String) (markers : List (String × List String))
    (plan : Plan) (fates : ℕ → ℕ → Fate String) (r : Realm server) : Realm server × ApplyReport :=
  let run := applying naming idpOu markers plan.ops fates r
  (lastOf r run.moments, tally plan.ops run.outcomes)

/-- A request that is carried out adds, changes or renames an object, or finds no object
with the admission marker. -/
theorem make_ok {naming : Naming server} {idpOu : String} {request : Request} {r r' : Realm server}
    (h : make naming idpOu request r = .ok r') :
    (∃ dn attrs, request = .add dn attrs ∧ add r dn attrs = .ok r') ∨
      (∃ dn change, request = .modify dn change ∧ modify r dn change = .ok r') ∨
      (∃ dn rdn, request = .modifyDn dn rdn ∧ modifyDn naming r dn rdn = .ok r') ∨
      request = .assertNoRoleMarkerYet ∧ assertNoRoleMarkerYet idpOu r = .ok () ∧ r' = r := by
  unfold make at h
  cases request with
  | add dn attrs =>
    dsimp only at h
    exact Or.inl ⟨dn, attrs, rfl, Fallible.mapError_ok_iff.mp h⟩
  | modify dn change =>
    dsimp only at h
    exact Or.inr (Or.inl ⟨dn, change, rfl, Fallible.mapError_ok_iff.mp h⟩)
  | modifyDn dn rdn =>
    dsimp only at h
    exact Or.inr (Or.inr (Or.inl ⟨dn, rdn, rfl, Fallible.mapError_ok_iff.mp h⟩))
  | assertNoRoleMarkerYet =>
    dsimp only at h
    obtain ⟨_, hnone, rfl⟩ := Fallible.map_ok_iff.mp h
    exact Or.inr (Or.inr (Or.inr ⟨rfl, hnone, rfl⟩))

end Kerbridge.PlanApply

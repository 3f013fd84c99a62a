import Mathlib.Data.List.Dedup
import Kerbridge.DeviceGrant
import Kerbridge.Fallible
import Kerbridge.PlannerNames
import Kerbridge.StoredIdentity

/-!
# The reconciliation planner

A pure comparison of what should be and what is, giving an ordered list of
operations, conflicts and alerts. Indexing a missing key, slicing inside a character
and an operation outside the unit end a plan as a panic. Beside every operation the
model keeps which object it is planned for; the source does not write that down.
-/

namespace Kerbridge.Planner

open Std (ExtTreeMap)
open UnicodeText DirectorySource SamName DistinguishedName RealmState StoredIdentity PlannerNames

/-- One managed account, as it was read. -/
structure CurrentUser where
  dn : String
  sam : String
  displayName : Option String := none
  enabled : Bool
  markers : List String := []
  identity : String
  deriving DecidableEq

/-- One managed group, as it was read. -/
structure CurrentGroup where
  dn : String
  sam : String
  displayName : String
  members : List String := []
  markers : List String := []
  identity : String
  deriving DecidableEq

/-- Current state, in receipt order, keyed by the subject of the stored identity. -/
structure Current where
  users : List (Subject × CurrentUser) := []
  groups : List (Subject × CurrentGroup) := []
  foreignSams : List String := []
  /-- Objects of the unit that this source does not own. -/
  unmanagedDns : List String := []

/-- A map made of a list of entries: of two with one key, the later stands. -/
def lookup {α : Type} (entries : List (Subject × α)) (oid : Subject) : Option α :=
  (entries.reverse.find? fun e => e.1 == oid).map Prod.snd

/-- One reconciliation action. -/
inductive Op where
  | createUser (dn sam upn displayName : String) (enabled : Bool) (identity : String)
  | createGroup (dn sam identity : String) (roleMarker : Option String)
  | addMember (dn member : String)
  | removeMember (dn member : String)
  | enableUser (dn : String)
  | disableUser (dn : String)
  | rename (dn newCn : String) (setDisplayName setSam setUpn : Option String)
  | setAttr (dn attr value : String)
  | setMarker (dn value : String)
  | setRoleMarker (dn value : String)
  | clearMarker (dn pre : String)
  /-- Everything but the members kept goes. -/
  | clearMembers (dn : String) (keep : List String)
  deriving DecidableEq

/-- The name an operation targets. -/
def Op.dn : Op → String
  | .createUser dn .. => dn
  | .createGroup dn .. => dn
  | .addMember dn _ => dn
  | .removeMember dn _ => dn
  | .enableUser dn => dn
  | .disableUser dn => dn
  | .rename dn .. => dn
  | .setAttr dn .. => dn
  | .setMarker dn _ => dn
  | .setRoleMarker dn _ => dn
  | .clearMarker dn _ => dn
  | .clearMembers dn _ => dn

/-- Which operator channel an alert belongs on. -/
inductive AlertKind where
  | admissionGroup
  | deviceGrantGroup
  | note
  deriving DecidableEq

structure Alert where
  kind : AlertKind
  message : String
  deriving DecidableEq

structure Plan where
  ops : List Op
  conflicts : List String
  alerts : List Alert

/-- What would end the process. -/
inductive Panic where
  /-- The structural assertion: an operation outside the unit. -/
  | outsideOu (dn : String)
  | missingKey (oid : Subject)
  | sliceRange (text : String)
  deriving DecidableEq

/-- Why there is no plan. -/
inductive Stop where
  | refused (why : PlanError)
  | panicked (why : Panic)
  deriving DecidableEq

/-- The parts of the deployment a plan needs. -/
structure PlanCtx where
  /-- The one unit a plan may write. -/
  idpOu : String
  /-- The group that admits people to the realm. -/
  admission : Subject
  /-- The device-grant group, if the deployment names one. -/
  grant : Option Subject := none
  upnSuffix : String
  /-- What every group's login name ends with. -/
  groupSuffix : String
  /-- The configuration refuses a suffix for which there is a reason. -/
  suffixAccepted : groupSuffixRejection groupSuffix = none
  /-- The time stamped into markers. -/
  now : String
  /-- Whether a live account's login name follows its display name. -/
  automaticSamRenames : Bool
  /-- How the adapter makes a subject a stored identity. -/
  identity : Subject → Except IdentityError String

inductive Kind where
  | user
  | group
  deriving DecidableEq

/-- An object, by its kind and the subject of its identity. -/
structure Meant where
  kind : Kind
  subject : Subject
  deriving DecidableEq

/-- An operation, and the object it is planned for. -/
structure Planned where
  about : Meant
  op : Op
  deriving DecidableEq

/-- Where a plan stands. -/
structure Planning where
  planned : List Planned := []
  conflicts : List String := []
  alerts : List Alert := []
  /-- Where each desired object is, or will be. -/
  dnOf : ExtTreeMap Subject String := {}
  /-- The names held or handed out, as spelled. -/
  takenDns : List String := []
  /-- The keys of the login names held or handed out. -/
  samKeys : List String := []

/-- The plan so far. -/
def Planning.plan (p : Planning) : Plan := ⟨p.planned.map Planned.op, p.conflicts, p.alerts⟩

def Planning.conflict (p : Planning) (text : String) : Planning :=
  { p with conflicts := p.conflicts ++ [text] }

def Planning.alert (p : Planning) (kind : AlertKind) (text : String) : Planning :=
  { p with alerts := p.alerts ++ [⟨kind, text⟩] }

/-- Where an object will be from here on. -/
def Planning.locate (p : Planning) (oid : Subject) (dn : String) : Planning :=
  { p with dnOf := p.dnOf.insert oid dn }

def Planning.take (p : Planning) (dn : String) : Planning :=
  { p with takenDns := dn :: p.takenDns }

variable [UnicodeTables]

/-- A login name is handed out. -/
def Planning.hold (p : Planning) (sam : String) : Planning :=
  { p with samKeys := fold sam :: p.samKeys }

/-- A login name reads as free. -/
def Planning.release (p : Planning) (sam : String) : Planning :=
  { p with samKeys := p.samKeys.filter fun key => key ≠ fold sam }

/-- One more operation, which must target the unit. -/
def Planning.add (ctx : PlanCtx) (p : Planning) (about : Meant) (op : Op) :
    Except Stop Planning :=
  if dnIsAtOrWithin op.dn ctx.idpOu then .ok { p with planned := p.planned ++ [⟨about, op⟩] }
  else .error (.panicked (.outsideOu op.dn))

/-- Several operations on one object, in order. -/
def Planning.addAll (ctx : PlanCtx) (p : Planning) (about : Meant) (ops : List Op) :
    Except Stop Planning :=
  ops.foldlM (fun p op => p.add ctx about op) p

/-- A step taken only under a condition. -/
def Planning.onlyIf (p : Planning) (c : Bool) (step : Planning → Except Stop Planning) :
    Except Stop Planning :=
  if c then step p else .ok p

/-- What a plan is made from, and what was found before the first object. -/
structure Scene where
  desired : Desired
  current : Current
  ctx : PlanCtx
  /-- Whether no group the configuration names carries the admission marker. -/
  unmarked : Bool
  /-- The subjects whose identity is ambiguous. -/
  dupes : List Subject
  /-- The names of the objects with such a subject. -/
  dupeDns : List String

/-- The names an account gets, or the refusal of the cycle. -/
def Scene.alloc (s : Scene) (du : DesiredUser) (oid : Subject) (samKeys : List String) :
    Except Stop (String × String × String) :=
  (allocNames du oid samKeys s.ctx.upnSuffix).mapError .refused

/-- The conflict of a subject that cannot be encoded. -/
def noIdentity (oid : Subject) (why : IdentityError) : String :=
  oid ++ " has no encodable identity (" ++ why.text ++ ") - nothing created"

/-- A desired account that is not there yet. -/
def createUser (s : Scene) (p : Planning) (oid : Subject) (du : DesiredUser) :
    Except Stop Planning :=
  match s.ctx.identity oid with
  | .error why => .ok (p.conflict (noIdentity oid why))
  | .ok identity => do
    let (sam, upn, cn) ← s.alloc du oid p.samKeys
    let p := p.hold sam
    let (dn, taken) := freshDn cn oid s.ctx.idpOu p.takenDns
    let p := { p with takenDns := taken }.locate oid dn
    p.add s.ctx ⟨.user, oid⟩ (.createUser dn sam upn du.displayName du.enabled identity)

/-- An account that is back during its retention; whether it was renamed, and the plan
afterwards. -/
def reappearUser (s : Scene) (p : Planning) (oid : Subject) (du : DesiredUser)
    (cu : CurrentUser) : Except Stop (Bool × Planning) := do
  let p ← p.add s.ctx ⟨.user, oid⟩ (.clearMarker cu.dn stRetired)
  let p ← p.onlyIf (du.enabled && !cu.enabled) fun p =>
    p.add s.ctx ⟨.user, oid⟩ (.enableUser cu.dn)
  let p := p.release cu.sam
  let (sam, upn, plainCn) ← s.alloc du oid p.samKeys
  let p := p.hold sam
  let parent := parentOf cu.dn
  let plain := "CN=" ++ plainCn ++ "," ++ parent
  let cn := if plain ≠ cu.dn ∧ plain ∈ p.takenDns then plainCn ++ " (" ++ oid4 oid ++ ")"
    else plainCn
  let newdn := "CN=" ++ cn ++ "," ++ parent
  if sam ≠ cu.sam ∨ newdn ≠ cu.dn then
    let want := if cu.displayName = some du.displayName then none else some du.displayName
    let p ← (p.take newdn).add s.ctx ⟨.user, oid⟩ (.rename cu.dn cn want (some sam) (some upn))
    return (true, p.locate oid newdn)
  else return (false, p)

/-- The account is enabled exactly if the IdP says so. -/
def followEnabled (s : Scene) (p : Planning) (oid : Subject) (du : DesiredUser)
    (cu : CurrentUser) : Except Stop Planning :=
  if du.enabled ≠ cu.enabled then
    p.add s.ctx ⟨.user, oid⟩ (if du.enabled then .enableUser cu.dn else .disableUser cu.dn)
  else .ok p

/-- A live account's login name follows its display name. -/
def followSam (s : Scene) (p : Planning) (oid : Subject) (du : DesiredUser) (cu : CurrentUser) :
    Except Stop Planning := do
  let p := p.release cu.sam
  let (sam, upn, _) ← s.alloc du oid p.samKeys
  let p := p.hold sam
  if sam ≠ cu.sam then
    p.addAll s.ctx ⟨.user, oid⟩
      [.setAttr cu.dn "sAMAccountName" sam, .setAttr cu.dn "userPrincipalName" upn]
  else .ok p

/-- An account is renamed for its display name. -/
def moveUser (s : Scene) (p : Planning) (oid : Subject) (du : DesiredUser) (cu : CurrentUser)
    (newCn : String) : Except Stop Planning := do
  let newdn := "CN=" ++ newCn ++ "," ++ parentOf cu.dn
  let p ← (p.take newdn).add s.ctx ⟨.user, oid⟩
    (.rename cu.dn newCn (some du.displayName) none none)
  return p.locate oid newdn

/-- An account's common name follows its display name. -/
def followDisplayName (s : Scene) (p : Planning) (oid : Subject) (du : DesiredUser)
    (cu : CurrentUser) : Except Stop Planning :=
  let newCn := (safeName du.displayName).getD cu.sam
  let newdn := "CN=" ++ newCn ++ "," ++ parentOf cu.dn
  let shown := Op.setAttr cu.dn "displayName" du.displayName
  if newdn = cu.dn then p.add s.ctx ⟨.user, oid⟩ shown
  else if newdn ∈ p.takenDns then
    if "CN=" ++ newCn ++ " (" ++ oid4 oid ++ ")," ++ parentOf cu.dn = cu.dn then
      p.add s.ctx ⟨.user, oid⟩ shown
    else moveUser s p oid du cu (newCn ++ " (" ++ oid4 oid ++ ")")
  else moveUser s p oid du cu newCn

/-- Whether a marker with a prefix is among the values. -/
def hasMarker (markers : List String) (pre : String) : Bool :=
  markers.any fun m => startsWith m pre

/-- An account is back, or follows the IdP; whether it was renamed, and the plan
afterwards. -/
def restoreUser (s : Scene) (p : Planning) (oid : Subject) (du : DesiredUser)
    (cu : CurrentUser) : Except Stop (Bool × Planning) :=
  if hasMarker cu.markers stRetired then reappearUser s p oid du cu
  else (followEnabled s p oid du cu).map fun p => (false, p)

/-- A desired account that is there. -/
def existingUser (s : Scene) (p : Planning) (oid : Subject) (du : DesiredUser)
    (cu : CurrentUser) : Except Stop Planning := do
  let (restored, p) ← restoreUser s (p.locate oid cu.dn) oid du cu
  let pinned := hasMarker cu.markers stNamePinned
  let p ← p.onlyIf (!restored && s.ctx.automaticSamRenames && !pinned) fun p =>
    followSam s p oid du cu
  p.onlyIf (!restored && decide (cu.displayName ≠ some du.displayName)) fun p =>
    followDisplayName s p oid du cu

/-- One turn of the users loop. -/
def userTurn (s : Scene) (p : Planning) (entry : Subject × DesiredUser) : Except Stop Planning :=
  if entry.1 ∈ s.dupes then .ok p
  else
    match lookup s.current.users entry.1 with
    | none => createUser s p entry.1 entry.2
    | some cu => existingUser s p entry.1 entry.2 cu

/-- What releases the name of an object that is leaving. -/
def releaseName (s : Scene) (p : Planning) (about : Meant) (dn sam label : String)
    (setUpn : String → Option String) : Except Stop Planning :=
  if startsWith sam retiredPrefix then .ok p
  else
    let names := retiredNames dn sam label about.subject p.samKeys p.takenDns
    { p with samKeys := names.samKeys, takenDns := names.takenDns }.add s.ctx about
      (.rename dn names.cn none (some names.sam) (setUpn names.sam))

/-- A managed account the IdP no longer has. -/
def retireUser (s : Scene) (p : Planning) (oid : Subject) (cu : CurrentUser) :
    Except Stop Planning := do
  let p ← p.onlyIf (!hasMarker cu.markers stRetired) fun p =>
    p.addAll s.ctx ⟨.user, oid⟩ [.disableUser cu.dn, .setMarker cu.dn (stRetired ++ s.ctx.now)]
  let p ← p.onlyIf (hasMarker cu.markers DeviceGrants.grantPrefix) fun p =>
    p.add s.ctx ⟨.user, oid⟩ (.clearMarker cu.dn DeviceGrants.grantPrefix)
  releaseName s p ⟨.user, oid⟩ cu.dn cu.sam (cu.displayName.getD cu.sam)
    (fun sam => some (sam ++ "@" ++ s.ctx.upnSuffix))

/-- One turn of the loop over the accounts that are there. -/
def userLeaver (s : Scene) (p : Planning) (oid : Subject) : Except Stop Planning :=
  if oid ∈ s.desired.users ∨ oid ∈ s.dupes then .ok p
  else
    match lookup s.current.users oid with
    | none => .error (.panicked (.missingKey oid))
    | some cu => retireUser s p oid cu

/-- The groups to be created whose login name is held, by another object or by another
group to be created. -/
def collisions (s : Scene) (samKeys : List String) : List String :=
  (s.desired.groups.toList.foldl
    (fun (acc : List String × List String) entry =>
      if entry.1 ∈ s.dupes ∨ (lookup s.current.groups entry.1).isSome then acc
      else
        let key := fold (groupNames entry.2.displayName entry.1 s.ctx.groupSuffix).2
        if key ∈ samKeys ∨ key ∈ acc.2 then
          (acc.1 ++ [UnicodeTables.debug entry.2.displayName ++ " (group " ++ entry.1 ++ ")"],
            acc.2)
        else (acc.1, key :: acc.2))
    ([], [])).1

/-- The cycle is refused when a group to be created has no login name. -/
def refuseCollisions (s : Scene) (samKeys : List String) : Except Stop Unit :=
  if collisions s samKeys = [] then .ok ()
  else .error (.refused (.nameCollision (collisions s samKeys)))

/-- A desired group that is not there yet. -/
def createGroup (s : Scene) (p : Planning) (oid : Subject) (dg : DesiredGroup) :
    Except Stop Planning :=
  match s.ctx.identity oid with
  | .error why => .ok (p.conflict (noIdentity oid why))
  | .ok identity =>
    let (cn, sam) := groupNames dg.displayName oid s.ctx.groupSuffix
    let (dn, taken) := freshDn cn oid s.ctx.idpOu p.takenDns
    let p := { p with takenDns := taken }.locate oid dn
    if oid = s.ctx.admission then
      let p := if s.unmarked then p.alert .note ("admission group must be created and marked; " ++
          "requires empty-marker precondition re-check at apply time")
        else p
      p.add s.ctx ⟨.group, oid⟩ (.createGroup dn sam identity (some roleAdmission))
    else p.add s.ctx ⟨.group, oid⟩ (.createGroup dn sam identity none)

/-- A text from a byte offset on, if the offset is the start of a character. -/
def sliceFrom : ℕ → List Char → Option (List Char)
  | 0, cs => some cs
  | _ + 1, [] => none
  | n + 1, c :: cs => if c.utf8Size ≤ n + 1 then sliceFrom (n + 1 - c.utf8Size) cs else none

/-- A group's common name follows its display name. -/
def moveGroup (s : Scene) (p : Planning) (oid : Subject) (dg : DesiredGroup)
    (cg : CurrentGroup) : Except Stop Planning :=
  let (cn, sam) := groupNames dg.displayName oid s.ctx.groupSuffix
  let parent := parentOf cg.dn
  let plain := "CN=" ++ cn ++ "," ++ parent
  let newdn := if plain ≠ cg.dn ∧ plain ∈ p.takenDns then
      "CN=" ++ cn ++ " (" ++ oid4 oid ++ ")," ++ parent
    else plain
  if newdn = cg.dn then .ok p
  else
    let p := p.take newdn
    match sliceFrom 3 (beforeFirst ',' newdn).toList with
    | none => .error (.panicked (.sliceRange newdn))
    | some newCn => do
      let p ← p.add s.ctx ⟨.group, oid⟩
        (.rename cg.dn (String.ofList newCn) none (some sam) none)
      return p.locate oid newdn

/-- A desired group that is there. -/
def existingGroup (s : Scene) (p : Planning) (oid : Subject) (dg : DesiredGroup)
    (cg : CurrentGroup) : Except Stop Planning := do
  let p ← (p.locate oid cg.dn).onlyIf (hasMarker cg.markers stQuar) fun p =>
    p.add s.ctx ⟨.group, oid⟩ (.clearMarker cg.dn stQuar)
  let p ← p.onlyIf (decide (dg.displayName ≠ cg.displayName)) fun p => moveGroup s p oid dg cg
  p.onlyIf (decide (oid = s.ctx.admission) && s.unmarked) fun p =>
    p.add s.ctx ⟨.group, oid⟩ (.setRoleMarker cg.dn roleAdmission)

/-- One turn of the groups loop. -/
def groupTurn (s : Scene) (p : Planning) (entry : Subject × DesiredGroup) :
    Except Stop Planning :=
  if entry.1 ∈ s.dupes then .ok p
  else
    match lookup s.current.groups entry.1 with
    | none => createGroup s p entry.1 entry.2
    | some cg => existingGroup s p entry.1 entry.2 cg

/-- The members of a group that this source does not own. -/
def foreignMembers (s : Scene) (cg : CurrentGroup) : List String :=
  (cg.members.filter fun m => !dnIsAtOrWithin m s.ctx.idpOu).mergeSort fun a b => decide (a ≤ b)

/-- The members this source owns go, and the others are reported. -/
def emptyGroup (s : Scene) (p : Planning) (oid : Subject) (cg : CurrentGroup) :
    Except Stop Planning :=
  let keep := foreignMembers s cg
  let p := { p with conflicts := p.conflicts ++ keep.map fun m =>
    "foreign member " ++ m ++ " in quarantined group " ++ cg.dn ++ " - left in place, reported" }
  p.addAll s.ctx ⟨.group, oid⟩ [.clearMembers cg.dn keep, .setMarker cg.dn (stQuar ++ s.ctx.now)]

/-- A managed group the IdP no longer has. -/
def quarantineGroup (s : Scene) (p : Planning) (oid : Subject) (cg : CurrentGroup) :
    Except Stop Planning := do
  let p ← p.onlyIf (!hasMarker cg.markers stQuar) fun p => emptyGroup s p oid cg
  releaseName s p ⟨.group, oid⟩ cg.dn cg.sam cg.displayName (fun _ => none)

/-- One turn of the loop over the groups that are there. -/
def groupLeaver (s : Scene) (p : Planning) (oid : Subject) : Except Stop Planning :=
  if oid ∈ s.desired.groups ∨ oid ∈ s.dupes then .ok p
  else
    match lookup s.current.groups oid with
    | none => .error (.panicked (.missingKey oid))
    | some cg =>
      if oid = s.ctx.admission then
        .ok (p.alert .admissionGroup ("ADMISSION GROUP " ++ cg.dn ++
          " vanished from desired state: FROZEN, operator escalation"))
      else quarantineGroup s p oid cg

/-- The subjects of the groups that carry a role marker. -/
def carriers (current : Current) (role : String) : List Subject :=
  (current.groups.filter fun e => e.2.markers.contains role).map Prod.fst

/-- A role marker is taken off the group with a subject. -/
def clearRole (ctx : PlanCtx) (current : Current) (role : String) (p : Planning) (oid : Subject) :
    Except Stop Planning :=
  match lookup current.groups oid with
  | none => .error (.panicked (.missingKey oid))
  | some cg => p.add ctx ⟨.group, oid⟩ (.clearMarker cg.dn role)

/-- A list of texts as debug formatting prints it. -/
def debugList (texts : List String) : String :=
  "[" ++ ", ".intercalate (texts.map UnicodeTables.debug) ++ "]"

/-- The marker of the device-grant group is moved to the group the configuration names. -/
def grantPass (s : Scene) (p : Planning) : Except Stop Planning :=
  let marked := carriers s.current roleDeviceGrant
  match s.ctx.grant with
  | none =>
    if marked = [] then .ok p
    else .ok (p.alert .deviceGrantGroup ("DEVICE-GRANT GROUP unset while " ++ debugList marked ++
      " still carries " ++ roleDeviceGrant ++ ": device grants remain available to its members"))
  | some oid =>
    if oid ∉ s.desired.groups then
      .ok (p.alert .deviceGrantGroup ("DEVICE-GRANT GROUP " ++ oid ++ " is not in the " ++
        "synchronized set: no device grant can be created or used until it is"))
    else
      match p.dnOf[oid]? with
      | none => .ok p
      | some dn => do
        let p ← (marked.filter (· ≠ oid)).foldlM (clearRole s.ctx s.current roleDeviceGrant) p
        if oid ∈ marked then .ok p
        else p.add s.ctx ⟨.group, oid⟩ (.setRoleMarker dn roleDeviceGrant)

/-- The name a rename addresses, and what it becomes; the object keeps its parent. -/
def Op.move : Op → Option (String × String)
  | .rename dn newCn .. => some (dn, "CN=" ++ newCn ++ "," ++ parentOf dn)
  | _ => none

/-- What each planned rename makes of the name it addresses, the latest first. -/
def renames (planned : List Planned) : List (String × String) :=
  (planned.filterMap fun e => e.op.move).reverse

/-- A name after the planned renames. -/
def renamed (planned : List Planned) (dn : String) : String :=
  ((renames planned).lookup dn).getD dn

/-- The elements of a set of texts, in order. -/
def sortedTexts (texts : List String) : List String :=
  texts.dedup.mergeSort fun a b => decide (a ≤ b)

/-- A member nobody wants: frozen when ambiguous, removed when it is of the unit, and
reported otherwise. -/
def dropMember (s : Scene) (goid : Subject) (gdn : String) (p : Planning) (m : String) :
    Except Stop Planning :=
  if m ∈ s.dupeDns then
    .ok (p.conflict ("membership of conflicted object " ++ m ++ " in " ++ gdn ++ " frozen"))
  else if dnIsAtOrWithin m s.ctx.idpOu then
    p.add s.ctx ⟨.group, goid⟩ (.removeMember gdn m)
  else
    .ok (p.conflict ("foreign member " ++ m ++ " in managed group " ++ gdn ++
      " - left in place, reported"))

/-- One turn of the membership loop. -/
def memberTurn (s : Scene) (moves : List Planned) (p : Planning)
    (entry : Subject × List Subject) : Except Stop Planning :=
  if entry.1 ∈ s.dupes ∨ entry.1 ∉ s.desired.groups then .ok p
  else
    match p.dnOf[entry.1]? with
    | none => .ok p
    | some gdn => do
      let want := entry.2.filterMap fun m => p.dnOf[m]?
      let held := match lookup s.current.groups entry.1 with
        | some cg => cg.members.map (renamed moves)
        | none => []
      let p ← p.addAll s.ctx ⟨.group, entry.1⟩
        ((sortedTexts (want.filter (· ∉ held))).map (.addMember gdn))
      (sortedTexts (held.filter (· ∉ want))).foldlM (dropMember s entry.1 gdn) p

/-- The scan for ambiguous identities so far. -/
structure Scan where
  /-- The object each identity was last seen on, the latest first. -/
  seen : List (String × Subject) := []
  dupes : List Subject := []
  conflicts : List String := []

/-- One more object of the scan. -/
def scanObject (dnAt : Subject → Option String) (sc : Scan) (oid : Subject)
    (identity dn : String) : Except Stop Scan :=
  match sc.seen.lookup identity with
  | none => .ok { sc with seen := (identity, oid) :: sc.seen }
  | some prev =>
    match dnAt prev with
    | none => .error (.panicked (.missingKey prev))
    | some prevDn => .ok ⟨(identity, oid) :: sc.seen, oid :: prev :: sc.dupes,
        sc.conflicts ++ ["ambiguous identity value on " ++ dn ++ " and " ++ prevDn ++
          " - both excluded"]⟩

/-- The scan over all objects, accounts before groups. -/
def scan (current : Current) : Except Stop Scan := do
  let sc ← current.users.foldlM (fun sc e =>
    scanObject (fun oid => (lookup current.users oid).map CurrentUser.dn) sc e.1 e.2.identity
      e.2.dn) {}
  current.groups.foldlM (fun sc e =>
    scanObject (fun oid => (lookup current.groups oid).map CurrentGroup.dn) sc e.1 e.2.identity
      e.2.dn) sc

/-- The names of the objects with one of the subjects. -/
def dnsOf (current : Current) (oids : List Subject) : List String :=
  (current.users.filter fun e => oids.contains e.1).map (fun e => e.2.dn) ++
    (current.groups.filter fun e => oids.contains e.1).map (fun e => e.2.dn)

/-- The subjects of a list of entries, in order. -/
def sortedOids {α : Type} (entries : List (Subject × α)) : List Subject :=
  (entries.map Prod.fst).mergeSort fun a b => decide (a ≤ b)

/-- The alert of a desired state without its admission group. -/
def admissionMissing : Alert :=
  ⟨.admissionGroup, "ADMISSION GROUP missing from desired state: reconciliation FROZEN; broker " ++
    "will fail closed via role marker; operator escalation required"⟩

/-- The alert of a desired state of nobody. -/
def nobodyDesired (synchronized : ℕ) : Alert :=
  ⟨.admissionGroup, "ADMISSION GROUP expansion yields no users at all while " ++
    toString synchronized ++ " are synchronized: reconciliation FROZEN, operator escalation " ++
    "required. If this is deliberate, the accounts are removed one at a time with `kbmanage " ++
    "cloud delete` -- or stop the broker to cut access immediately; sync will not empty the " ++
    "realm directory in one cycle on the strength of an empty read"⟩

/-- Why no operation is planned at all. -/
def freeze (desired : Desired) (current : Current) (ctx : PlanCtx) : Option Alert :=
  if ctx.admission ∉ desired.groups then some admissionMissing
  else if desired.users.isEmpty ∧ current.users ≠ [] then
    some (nobodyDesired (current.users.map Prod.fst).dedup.length)
  else none

/-- The markers on groups the configuration does not name are taken off first. -/
def stalePass (current : Current) (ctx : PlanCtx) : Except Stop Planning :=
  ((carriers current roleAdmission).filter (· ≠ ctx.admission)).foldlM
    (clearRole ctx current roleAdmission) {}

/-- What the loops start from. -/
def opening (current : Current) (sc : Scan) (p : Planning) : Planning :=
  { p with
    conflicts := sc.conflicts ++ current.unmanagedDns.map fun dn =>
      "object in the OU with no kb1 identity for this source: " ++ dn ++ " - left untouched"
    takenDns := current.users.map (fun e => e.2.dn) ++ current.groups.map (fun e => e.2.dn) ++
      current.unmanagedDns
    samKeys := current.foreignSams.map fold ++ current.users.map (fun e => fold e.2.sam) ++
      current.groups.map (fun e => fold e.2.sam) }

/-- The loops, in order. -/
def passes (s : Scene) (p : Planning) : Except Stop Planning := do
  let p ← s.desired.users.toList.foldlM (userTurn s) p
  let p ← (sortedOids s.current.users).foldlM (userLeaver s) p
  refuseCollisions s p.samKeys
  let p ← s.desired.groups.toList.foldlM (groupTurn s) p
  let p ← (sortedOids s.current.groups).foldlM (groupLeaver s) p
  let p ← grantPass s p
  s.desired.membership.toList.foldlM (memberTurn s p.planned) p

/-- What is known before the loops. -/
def sceneOf (desired : Desired) (current : Current) (ctx : PlanCtx) (sc : Scan) : Scene where
  desired := desired
  current := current
  ctx := ctx
  unmarked := !(carriers current roleAdmission).contains ctx.admission
  dupes := sc.dupes
  dupeDns := dnsOf current sc.dupes

/-- A plan, with the objects its operations are planned for. -/
def planning (desired : Desired) (current : Current) (ctx : PlanCtx) : Except Stop Planning :=
  match freeze desired current ctx with
  | some alert => .ok { alerts := [alert] }
  | none => do
    let p ← stalePass current ctx
    let sc ← scan current
    passes (sceneOf desired current ctx sc) (opening current sc p)

/-- Compares desired and current state and produces the ordered plan. -/
def planSync (desired : Desired) (current : Current) (ctx : PlanCtx) : Except Stop Plan :=
  (planning desired current ctx).map Planning.plan

end Kerbridge.Planner

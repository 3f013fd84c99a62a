import Kerbridge.OuOwnership
import Kerbridge.RealmDirectory
import Kerbridge.RetentionClock
import Kerbridge.DeviceGrant
import Kerbridge.Worklist

/-!
# The doctor's snapshot

One read of the directory, as plain data: the objects under the IdP parent unit, the
groups outside it, and the walks over them. Nothing here asks the server again.
-/

namespace Kerbridge.StoredIdentity

/-- The name an operator reads for an identity. -/
def ExternalIdentity.label (id : ExternalIdentity) : String := id.source.name ++ "/" ++ id.subject

end Kerbridge.StoredIdentity

namespace Kerbridge.Doctor

open UnicodeText StoredIdentity DeviceGrants DistinguishedName RealmState RetentionClock
open RealmDirectory Worklist ConfigSet

/-- What an object is. -/
inductive Kind where
  | user
  | group
  deriving DecidableEq

/-- What a state marker says about an object sync no longer sees. -/
inductive State where
  | live
  /-- A user, disabled and held for its security identifier. -/
  | retired
  /-- A group, emptied and held for its security identifier. -/
  | quarantined
  deriving DecidableEq

/-- An object under the IdP parent unit. -/
structure CloudObject where
  dn : String
  sam : String
  kind : Kind
  upn : Option String
  /-- The stored identity as it stands, malformed or not. -/
  identity : Option String
  /-- Every value of the marker attribute, as it is stored. -/
  markers : List String
  uac : Option ℕ
  members : List String
  deriving DecidableEq

/-- A group outside the IdP parent unit. -/
structure ResourceGroup where
  dn : String
  sam : String
  /-- The group type as it is stored. -/
  groupType : Option String
  members : List String
  managedBy : Option String
  markers : List String
  deriving DecidableEq

/-- One read of the directory. -/
structure Snapshot where
  cloudIdpOu : String
  netbios : Option String
  /-- Seconds since the epoch. -/
  now : ℕ
  cloud : List CloudObject
  resources : List ResourceGroup

/-- An object carries the marker of the admission group. -/
def CloudObject.isAdmissionGroup (o : CloudObject) : Bool :=
  o.markers.any fun m => decide (m = roleAdmission)

/-- An object carries the marker of the device-grant group. -/
def CloudObject.isGrantGroup (o : CloudObject) : Bool :=
  o.markers.any fun m => decide (m = roleDeviceGrant)

/-- Every device grant on an object, with the stored value it came from. -/
def CloudObject.grants (o : CloudObject) : List (String × DeviceGrant) :=
  o.markers.filterMap fun m => (DeviceGrant.decode m).toOption.map fun g => (m, g)

/-- What the state markers of an object say. -/
def CloudObject.state (o : CloudObject) : State :=
  if o.markers.any fun m => startsWith m stRetired then .retired
  else if o.markers.any fun m => startsWith m stQuar then .quarantined
  else .live

/-- Whole days since the state marker was stamped. -/
def CloudObject.heldDays (o : CloudObject) (now : ℕ) : Option ℕ :=
  o.markers.findSome? fun m => retentionAgeDays m now

/-- Whether the account is enabled, where its flags can be read. -/
def CloudObject.enabled (o : CloudObject) : Option Bool :=
  o.uac.map fun u => decide (u &&& ufAccountDisable = 0)

/-- The identity an object stands for, where it stores one. -/
def CloudObject.identityOf (o : CloudObject) : Option (Except IdentityError ExternalIdentity) :=
  o.identity.map ExternalIdentity.decode

/-- The group type of a domain-local security group. -/
def groupTypeDomainLocalSecurity : String := "-2147483644"

/-- A group is domain-local. -/
def ResourceGroup.isDomainLocal (g : ResourceGroup) : Bool :=
  decide (g.groupType = some groupTypeDomainLocalSecurity)

/-- The account whose device grants the members of a group may authorize. -/
def ResourceGroup.delegatesFor (g : ResourceGroup) : Option String :=
  if g.markers.any fun m => decide (m = roleDelegates) then g.managedBy else none

/-- The first value of an attribute. -/
def first (e : Entry) (attr : String) : Option String := (e.attrs attr).head?

/-- An entry under the IdP parent unit, as the snapshot holds it. -/
def cloudObject (e : Entry) : CloudObject where
  dn := e.dn
  sam := (first e "sAMAccountName").getD ""
  kind := if (e.attrs "objectClass").any fun c => eqIgnoreAsciiCase c "group" then .group else .user
  upn := first e "userPrincipalName"
  identity := first e "msDS-ExternalDirectoryObjectId"
  markers := e.attrs "extensionName"
  uac := (first e "userAccountControl").bind (parseUnsigned (0x100000000))
  members := e.attrs "member"

/-- A group entry outside it, as the snapshot holds it. -/
def resourceGroup (e : Entry) : ResourceGroup where
  dn := e.dn
  sam := (first e "sAMAccountName").getD ""
  groupType := first e "groupType"
  members := e.attrs "member"
  managedBy := first e "managedBy"
  markers := e.attrs "extensionName"

section Walks

variable (snap : Snapshot)

/-- The account groups that delegate a user's devices. -/
def Snapshot.delegatesOf (userDn : String) : List ResourceGroup :=
  snap.resources.filter fun g => g.delegatesFor.any fun dn => eqIgnoreAsciiCase dn userDn

/-- The object of a name, in any letter case. -/
def Snapshot.findCloud (dn : String) : Option CloudObject :=
  snap.cloud.find? fun o => eqIgnoreAsciiCase o.dn dn

/-- The resource group of a name, in any letter case. -/
def Snapshot.findResource (dn : String) : Option ResourceGroup :=
  snap.resources.find? fun g => eqIgnoreAsciiCase g.dn dn

/-- A name with its letters in one case, as names are compared here. -/
def folded (dn : String) : List Char := dn.toList.map Char.toLower

/-- The name and the members of every group of the snapshot. -/
def Snapshot.groups : List (String × List String) :=
  snap.cloud.map (fun o => (o.dn, o.members)) ++ snap.resources.map (fun g => (g.dn, g.members))

/-- The groups that list a name among their members. -/
def Snapshot.parents (current : String) : List String :=
  (snap.cloud.filter fun o => o.members.any fun m => eqIgnoreAsciiCase m current).map (·.dn) ++
    (snap.resources.filter fun g => g.members.any fun m => eqIgnoreAsciiCase m current).map (·.dn)

variable {snap}

/-- Names are compared as their folded forms are. -/
theorem eqIgnoreAsciiCase_iff {a b : String} :
    eqIgnoreAsciiCase a b = true ↔ folded a = folded b := by
  unfold eqIgnoreAsciiCase folded
  exact decide_eq_true_iff

/-- Spellings of one name have the same groups. -/
theorem parents_of_folded {x y : String} (h : folded x = folded y) :
    snap.parents x = snap.parents y := by
  have heq : ∀ m, eqIgnoreAsciiCase m x = eqIgnoreAsciiCase m y := by
    intro m
    rw [Bool.eq_iff_iff, eqIgnoreAsciiCase_iff, eqIgnoreAsciiCase_iff, h]
  unfold Snapshot.parents
  simp only [heq]

/-- A name is listed by the groups that have one of its spellings as a member. -/
theorem mem_parents_iff {x y : String} : y ∈ snap.parents x ↔
    ∃ g ∈ snap.groups, g.1 = y ∧ ∃ m ∈ g.2, folded m = folded x := by
  unfold Snapshot.parents Snapshot.groups
  simp only [List.mem_append, List.mem_map, List.mem_filter, List.any_eq_true,
    eqIgnoreAsciiCase_iff]
  constructor
  · rintro (⟨o, ⟨ho, m, hm, heq⟩, rfl⟩ | ⟨o, ⟨ho, m, hm, heq⟩, rfl⟩)
    · exact ⟨_, Or.inl ⟨o, ho, rfl⟩, rfl, m, hm, heq⟩
    · exact ⟨_, Or.inr ⟨o, ho, rfl⟩, rfl, m, hm, heq⟩
  · rintro ⟨g, ⟨o, ho, rfl⟩ | ⟨o, ho, rfl⟩, rfl, m, hm, heq⟩
    · exact Or.inl ⟨o, ⟨ho, m, hm, heq⟩, rfl⟩
    · exact Or.inr ⟨o, ⟨ho, m, hm, heq⟩, rfl⟩

/-- Every name among the parents is a group's. -/
theorem folded_parents_mem (x : String) :
    ∀ y ∈ snap.parents x, folded y ∈ snap.groups.map fun g => folded g.1 := by
  intro y hy
  obtain ⟨g, hg, rfl, _⟩ := mem_parents_iff.mp hy
  exact List.mem_map.mpr ⟨g, hg, rfl⟩

variable (snap)

/-- The search for the groups above a name: one round for each group at most, and one
for the name. -/
def Snapshot.closureLoop (dn : String) : Option (List String) :=
  explore folded snap.parents (snap.groups.length + 1) [dn] []

/-- The search ends, whatever the nesting. -/
theorem Snapshot.closureLoop_isSome (dn : String) : (snap.closureLoop dn).isSome = true := by
  obtain ⟨out, hout⟩ := explore_ends (fun _ _ => parents_of_folded)
    (@folded_parents_mem snap) dn
  rw [List.length_map] at hout
  exact Option.isSome_iff_exists.mpr ⟨out, hout⟩

/-- Every group, at any depth, that a name ends up inside. -/
def Snapshot.closureOf (dn : String) : List String :=
  (snap.closureLoop dn).get (snap.closureLoop_isSome dn)

/-- One group, by its folded name, lists a name. -/
def Snapshot.Lists (x y : List Char) : Prop :=
  ∃ g ∈ snap.groups, folded g.1 = y ∧ ∃ m ∈ g.2, folded m = x

/-- The closure of a name holds exactly the groups that contain it, directly or
through any nesting. -/
theorem Snapshot.mem_closureOf_iff (dn : String) (k : List Char) :
    k ∈ (snap.closureOf dn).map folded ↔ Relation.TransGen snap.Lists (folded dn) k := by
  have hout : snap.closureLoop dn = some (snap.closureOf dn) :=
    (Option.some_get (snap.closureLoop_isSome dn)).symm
  have hlists : Leads folded snap.parents = snap.Lists := by
    funext x y
    refine propext ⟨?_, ?_⟩
    · rintro ⟨a, rfl, b, hb, rfl⟩
      obtain ⟨g, hg, rfl, m, hm, heq⟩ := mem_parents_iff.mp hb
      exact ⟨g, hg, rfl, m, hm, heq⟩
    · rintro ⟨g, hg, rfl, m, hm, rfl⟩
      exact ⟨m, rfl, g.1, mem_parents_iff.mpr ⟨g, hg, rfl, m, hm, rfl⟩, rfl⟩
  rw [mem_explore_iff (fun _ _ => parents_of_folded) hout, hlists]

end Walks

section Units

variable [UnicodeTables]

/-- The loop of `idpOuOf`: climb until the parent is the IdP parent unit. A parent is
shorter than its child, so the length of the name is enough of rounds. -/
def idpOuLoop (cloudIdpOu dn : String) : ℕ → String → Option String
  | 0, _ => none
  | rounds + 1, cur =>
    let parent := parentOf cur
    if parent.isEmpty then none
    else if dnEquals parent cloudIdpOu then if cur ≠ dn then some cur else none
    else idpOuLoop cloudIdpOu dn rounds parent

/-- The unit of one IdP that holds a name, however deep below it; a name that stands
in the IdP parent unit itself is in none. -/
def Snapshot.idpOuOf (snap : Snapshot) (dn : String) : Option String :=
  idpOuLoop snap.cloudIdpOu dn dn.toList.length dn

/-- Climbing from a name below a unit ends at the unit, in the spelling the name has. -/
theorem idpOuLoop_spec {cloudIdpOu dn : String} {c : List String}
    (hc : dnComponents cloudIdpOu = some c) {rounds : ℕ} {cur x : String} {q : List String}
    (hcur : dnComponents cur = some (q ++ x :: c)) (hlen : cur.toList.length ≤ rounds) :
    ∃ unit, dnComponents unit = some (x :: c) ∧ dnEquals (parentOf unit) cloudIdpOu = true ∧
      (q = [] → unit = cur) ∧
      idpOuLoop cloudIdpOu dn rounds cur = if unit ≠ dn then some unit else none := by
  have hpos := parentOf_length hcur
  induction rounds generalizing cur q with
  | zero => omega
  | succ rounds ih =>
    have hcne := dnComponents_ne_nil hc
    have hparent : dnComponents (parentOf cur) = some ((q ++ x :: c).tail) := by
      cases q with
      | nil =>
        obtain ⟨y, rest, rfl⟩ := List.exists_cons_of_ne_nil hcne
        exact dnComponents_parentOf hcur
      | cons y q =>
        cases q with
        | nil => exact dnComponents_parentOf hcur
        | cons z q => exact dnComponents_parentOf hcur
    have hsome : (parentOf cur).isEmpty = false := by
      rw [Bool.eq_false_iff, ne_eq, String.isEmpty_iff]
      intro hempty
      rw [hempty, dnComponents_empty] at hparent
      cases hparent
    cases q with
    | nil =>
      have heq : dnEquals (parentOf cur) cloudIdpOu = true := dnEquals_iff.mpr ⟨c, hparent, hc⟩
      refine ⟨cur, hcur, heq, fun _ => rfl, ?_⟩
      simp [idpOuLoop, hsome, heq]
    | cons y q =>
      have hne : dnEquals (parentOf cur) cloudIdpOu = false := by
        rw [Bool.eq_false_iff, ne_eq, dnEquals_iff]
        rintro ⟨c', hc', hc''⟩
        rw [hc] at hc''
        cases hc''
        rw [hparent] at hc'
        have hlength := congrArg (Option.map List.length) hc'
        simp only [List.cons_append, List.tail_cons, Option.map_some, List.length_append,
          List.length_cons, Option.some.injEq] at hlength
        omega
      have hshort : (parentOf cur).toList.length ≤ rounds := by omega
      obtain ⟨unit, hunit, hof, _, heq⟩ := ih hparent hshort (parentOf_length hparent)
      refine ⟨unit, hunit, hof, by simp, ?_⟩
      rw [← heq]
      simp [idpOuLoop, hsome, hne]

/-- Climbing from a name no longer than the IdP parent unit finds nothing. -/
theorem idpOuLoop_none {cloudIdpOu dn : String} {c : List String}
    (hc : dnComponents cloudIdpOu = some c) {rounds : ℕ} {cur : String} {d : List String}
    (hcur : dnComponents cur = some d) (hle : d.length ≤ c.length) :
    idpOuLoop cloudIdpOu dn rounds cur = none := by
  induction rounds generalizing cur d with
  | zero => rfl
  | succ rounds ih =>
    cases d with
    | nil => exact absurd rfl (dnComponents_ne_nil hcur)
    | cons x rest =>
      cases rest with
      | nil => simp [idpOuLoop, parentOf_single hcur]
      | cons y rest =>
        have hparent := dnComponents_parentOf hcur
        have hne : dnEquals (parentOf cur) cloudIdpOu = false := by
          rw [Bool.eq_false_iff, ne_eq, dnEquals_iff]
          rintro ⟨c', hc', hc''⟩
          rw [hc] at hc''
          cases hc''
          rw [hparent] at hc'
          cases hc'
          simp only [List.length_cons] at hle
          omega
        have hrest : (y :: rest).length ≤ c.length := by
          simp only [List.length_cons] at hle ⊢
          omega
        rw [idpOuLoop, hne, ih hparent hrest]
        simp

/-- The unit that is found for a name holds it, and stands in the IdP parent unit. -/
theorem idpOuOf_some {snap : Snapshot} {dn unit : String}
    (hin : dnIsAtOrWithin dn snap.cloudIdpOu = true) (h : snap.idpOuOf dn = some unit) :
    dnIsBelow dn unit = true ∧ dnEquals (parentOf unit) snap.cloudIdpOu = true := by
  obtain ⟨d, c, hd, hc, pre, rfl⟩ := dnIsAtOrWithin_iff.mp hin
  unfold Snapshot.idpOuOf at h
  rcases List.eq_nil_or_concat pre with rfl | ⟨q, x, rfl⟩
  · rw [idpOuLoop_none hc hd (by simp)] at h
    cases h
  · rw [List.concat_eq_append, List.append_assoc, List.singleton_append] at hd
    obtain ⟨ou, hou, hof, hself, hloop⟩ := @idpOuLoop_spec _ _ dn _ hc _ _ _ _ hd le_rfl
    rw [hloop] at h
    split at h
    · rename_i hne
      cases h
      refine ⟨dnIsBelow_iff.mpr ⟨q, x :: c, ?_, hd, hou⟩, hof⟩
      intro hq
      exact hne (hself hq)
    · cases h

/-- A name below a unit of the IdP parent unit has that unit found for it, in some
spelling. -/
theorem idpOuOf_of_below {snap : Snapshot} {dn ou : String}
    (hof : dnEquals (parentOf ou) snap.cloudIdpOu = true) (h : dnIsBelow dn ou = true) :
    ∃ unit, snap.idpOuOf dn = some unit ∧ dnEquals unit ou = true := by
  obtain ⟨q, u, hq, hd, hu⟩ := dnIsBelow_iff.mp h
  obtain ⟨c, _, hc⟩ := dnEquals_iff.mp hof
  obtain ⟨x, hx⟩ := components_of_parent hof hc (Option.isSome_iff_exists.mpr ⟨u, hu⟩)
  rw [hu] at hx
  cases hx
  obtain ⟨unit, hunit, _, _, hloop⟩ := @idpOuLoop_spec _ _ dn _ hc _ _ _ _ hd le_rfl
  have hne : unit ≠ dn := by
    rintro rfl
    rw [hd] at hunit
    exact hq (List.append_left_eq_self.mp (Option.some.inj hunit))
  refine ⟨unit, ?_, dnEquals_iff.mpr ⟨x :: c, hunit, hu⟩⟩
  unfold Snapshot.idpOuOf
  rw [hloop, if_pos hne]

/-- The first object of a unit that is marked. -/
def Snapshot.roleGroupIn (snap : Snapshot) (sourceOu : String) (marked : CloudObject → Bool) :
    Option CloudObject :=
  snap.cloud.find? fun o => marked o && dnIsAtOrWithin o.dn sourceOu

/-- The admission group of one unit. -/
def Snapshot.admissionGroupIn (snap : Snapshot) (sourceOu : String) : Option CloudObject :=
  snap.roleGroupIn sourceOu CloudObject.isAdmissionGroup

/-- The device-grant group of one unit. -/
def Snapshot.grantGroupIn (snap : Snapshot) (sourceOu : String) : Option CloudObject :=
  snap.roleGroupIn sourceOu CloudObject.isGrantGroup

end Units

end Kerbridge.Doctor

import Kerbridge.DeviceRequestRule
import Kerbridge.DistinguishedName
import Kerbridge.RealmState
import Kerbridge.RealmWrites

/-!
# The link of a delegate group

A group lends an account's device grants to its members when it names the account
in `managedBy` and carries the delegates marker. Setting the link clears every
other link of the account first, one modify a group, and writes the new one last;
the command stops at the first modify that fails.
-/

namespace Kerbridge.DelegateLinks

open UnicodeText StoredIdentity LdapFilter RealmDirectory RealmState RealmWrites
open DistinguishedName Fallible
open BrokerDirectory (Has)

/-- The configuration of the operator's tool. -/
structure Config where
  baseDn : String
  cloudIdpOu : String
  resourceOu : String

/-- Why a name or an object was refused. -/
inductive Refusal where
  /-- The object is inside the unit sync owns. -/
  | insideCloudIdp (dn cloudIdpOu : String)
  /-- The object is outside the unit of resource groups. -/
  | outsideResourceOu (dn resourceOu : String)
  | malformed (dn : String)
  | notAGroup (dn classes : String)
  | notAUser (dn classes : String)
  /-- The two arguments are the other way round. -/
  | reversedArguments (verb wanted first second : String)
  deriving DecidableEq

/-- Why a command failed. -/
inductive Failure where
  /-- Nothing under the base has the name. -/
  | unnamed (name : String)
  /-- Several objects have the name. -/
  | ambiguous (name : String) (dns : List String)
  /-- A search was refused. -/
  | unsearched (why : String)
  | refused (why : Refusal)
  /-- A change to the object was refused, or its answer did not arrive. -/
  | unwritten (dn : String)
  deriving DecidableEq

/-- The classes of an entry. -/
def objectClasses (e : Entry) : List String := e.attrs "objectClass"

/-- The state and role markers of an entry, and its device grants. -/
def markersOf (e : Entry) : List String := e.attrs "extensionName"

/-- The object's own account name, or its name in the directory. -/
def resolvedName (e : Entry) : String := (e.attrs "sAMAccountName").head?.getD e.dn

/-- The classes of an object, as a refusal words them. -/
def classesText (classes : List String) : String :=
  if classes.isEmpty then "an object with no objectClass" else ", ".intercalate classes

/-- The object must be a group. -/
def assertIsGroup (dn : String) (classes : List String) : Except Refusal Unit :=
  if classes.any (eqIgnoreAsciiCase · "group") then .ok ()
  else .error (.notAGroup dn (classesText classes))

/-- The account of a delegation must be a person. -/
def assertIsUser (dn : String) (classes : List String) : Except Refusal Unit :=
  if classes.any (eqIgnoreAsciiCase · "user") then .ok ()
  else .error (.notAUser dn (classesText classes))

section Guards

variable [UnicodeTables]

/-- The object must be outside the unit sync owns. -/
def assertOutsideCloudIdp (dn cloudIdpOu : String) : Except Refusal Unit :=
  if (dnComponents dn).isNone then .error (.malformed dn)
  else if dnIsAtOrWithin dn cloudIdpOu then .error (.insideCloudIdp dn cloudIdpOu)
  else .ok ()

/-- The object must be below the unit of resource groups. -/
def assertWithinResourceOu (dn resourceOu : String) : Except Refusal Unit :=
  if (dnComponents dn).isNone then .error (.malformed dn)
  else if !dnIsAtOrWithin dn resourceOu || dnEquals dn resourceOu then
    .error (.outsideResourceOu dn resourceOu)
  else .ok ()

end Guards

/-- One argument of a verb with two names: what was typed, and which of the two
places the object it names could fill. -/
structure Arg where
  given : String
  fitsFirst : Bool
  fitsSecond : Bool

/-- The two arguments must not be the other way round. -/
def assertArgumentOrder (verb wanted : String) (first second : Arg) : Except Refusal Unit :=
  if first.fitsFirst && second.fitsSecond then .ok ()
  else if second.fitsFirst && first.fitsSecond then
    .error (.reversedArguments verb wanted first.given second.given)
  else .ok ()

/-- A group that names an account in `managedBy`. -/
structure ManagedGroup where
  dn : String
  /-- Whether the group carries the delegates marker. -/
  isDelegate : Bool

/-- The links a command clears: every delegate group that names the account, but the
one it keeps. -/
def delegateLinksToClear [UnicodeTables] (managed : List ManagedGroup) (keeping : Option String) :
    List String :=
  (managed.filter fun g => g.isDelegate && !keeping.any (dnEquals g.dn)).map ManagedGroup.dn

/-- The filter of a name the operator typed. -/
def nameFilter (name : String) : String :=
  let e := escapeLdapFilterValue name
  "(&(|(objectClass=user)(objectClass=group))(|(sAMAccountName=" ++ e ++ ")(userPrincipalName=" ++
    e ++ ")(distinguishedName=" ++ e ++ ")(msDS-ExternalDirectoryObjectId=" ++ e ++ ")(cn=" ++ e ++
    ")))"

/-- The filter of the groups that name an account. -/
def managedFilter (userDn : String) : String :=
  "(&(objectClass=group)(managedBy=" ++ escapeLdapFilterValue userDn ++ "))"

/-- Point a group at an account, and mark the link where it is not marked. -/
def setDelegateLink (groupDn userDn : String) (addMarker : Bool) : Write :=
  ⟨groupDn, .replace "managedBy" userDn ::
    if addMarker then [.add "extensionName" roleDelegates] else []⟩

/-- Undo a link, both halves at once. -/
def clearDelegateLink (groupDn : String) : Write :=
  ⟨groupDn, [.clear "managedBy", .delete "extensionName" roleDelegates]⟩

variable {server : Server}

/-- A search whose refusal fails the command. -/
def searched : Except String (List Entry) → Except Failure (List Entry)
  | .ok es => .ok es
  | .error why => .error (.unsearched why)

/-- The one object of a name. -/
def resolve (cfg : Config) (r : Realm server) (name : String) : Except Failure Entry := do
  let entries ← searched (r.search cfg.baseDn .subtree (nameFilter name))
  match entries with
  | [e] => .ok e
  | [] => .error (.unnamed name)
  | es => .error (.ambiguous name (es.map Entry.dn))

/-- Every group that names an account, and whether its link is marked. -/
def groupsManagedBy (cfg : Config) (r : Realm server) (userDn : String) :
    Except Failure (List ManagedGroup) := do
  let found ← searched (r.search cfg.baseDn .subtree (managedFilter userDn))
  return found.map fun e => ⟨e.dn, (markersOf e).any (· == roleDelegates)⟩

section Command

variable [UnicodeTables]

/-- Whether an object can be the account of a delegation. -/
def fitsUser (e : Entry) : Bool := (assertIsUser e.dn (objectClasses e)).isOk

/-- Whether an object can be a delegate group. -/
def fitsGroup (cfg : Config) (e : Entry) : Bool :=
  (assertIsGroup e.dn (objectClasses e)).isOk && (assertOutsideCloudIdp e.dn cfg.cloudIdpOu).isOk &&
    (assertWithinResourceOu e.dn cfg.resourceOu).isOk

/-- What a command decided to do, from what it read. -/
structure Plan where
  target : Entry
  group : Entry
  managed : List ManagedGroup

/-- The reads and the guards of `delegate set`. -/
def delegatePlan (cfg : Config) (r : Realm server) (user delegateGroup : String) :
    Except Failure Plan := do
  let target ← resolve cfg r user
  let group ← resolve cfg r delegateGroup
  (do
    assertArgumentOrder "device delegate set" "user" ⟨user, fitsUser target, fitsGroup cfg target⟩
      ⟨delegateGroup, fitsUser group, fitsGroup cfg group⟩
    assertIsUser target.dn (objectClasses target)
    assertIsGroup group.dn (objectClasses group)
    assertOutsideCloudIdp group.dn cfg.cloudIdpOu
    assertWithinResourceOu group.dn cfg.resourceOu).mapError Failure.refused
  let managed ← groupsManagedBy cfg r target.dn
  return ⟨target, group, managed⟩

/-- The links the command clears. -/
def Plan.clears (p : Plan) : List String := delegateLinksToClear p.managed (some p.group.dn)

/-- Whether the group carries the marker before the command. -/
def Plan.marked (p : Plan) : Bool := (markersOf p.group).any (· == roleDelegates)

/-- The modifies of the command: the links to clear, and the new link after them. -/
def Plan.writes (p : Plan) : List Write :=
  p.clears.map clearDelegateLink ++ [setDelegateLink p.group.dn p.target.dn (!p.marked)]

/-- What the command says it changed. -/
def Plan.changed (p : Plan) : List String :=
  let link := "set managedBy on " ++ p.group.dn ++ " to " ++ p.target.dn
  let owners := (p.managed.filter fun g => !g.isDelegate).map ManagedGroup.dn
  p.clears.map (fun dn => "cleared managedBy and " ++ roleDelegates ++ " on " ++ dn) ++
    [match (p.group.attrs "managedBy").head? with
      | some prev => if dnEquals prev p.target.dn then link else link ++ " (was " ++ prev ++ ")"
      | none => link] ++
    (if p.marked then [] else ["added " ++ roleDelegates ++ " to " ++ p.group.dn]) ++
    if owners.isEmpty then []
    else ["left alone: " ++ ", ".intercalate owners ++ " also names this account in managedBy, " ++
      "without the marker -- an ownership record, which delegates nothing"]

/-- What the command prints when it is done. -/
def Plan.message (p : Plan) : String :=
  "\n".intercalate p.changed ++ "\nEveryone in " ++ resolvedName p.group ++
    " may now authorize a machine to obtain tickets as " ++ resolvedName p.target ++
    ". They are each still admitted to the realm in their own right: the delegate group is " ++
    "additional to admission, never instead of it.\nTo let a second team do the same, nest their " ++
    "synced group into this one. One delegate group per account is deliberate -- a second would be " ++
    "a right nobody remembers granting."

/-- A command as it went: the directory before it and after each of its modifies, and
how it ended. -/
structure Run (server : Server) where
  start : Realm server
  later : List (Realm server)
  ended : Except Failure String

/-- The directory at every moment of a command. -/
def Run.moments (run : Run server) : List (Realm server) := run.start :: run.later

/-- The directory a command leaves behind. -/
def Run.final (run : Run server) : Realm server := run.moments.getLast (by simp [Run.moments])

/-- `delegate set`, where each modify it sends has a fate of its own. -/
def delegateSet (cfg : Config) (r : Realm server) (user delegateGroup : String)
    (fates : ℕ → Fate) : Run server :=
  match delegatePlan cfg r user delegateGroup with
  | .error why => ⟨r, [], .error why⟩
  | .ok p =>
    let (later, failed) := perform fates r p.writes
    ⟨r, later, match failed with
      | some w => .error (.unwritten w.dn)
      | none => .ok p.message⟩

end Command

/-- A group below the base names an account and carries the marker. -/
def DelegateOf (server : Server) (cfg : Config) (e : Entry) (account : String) : Prop :=
  server.within e.dn cfg.baseDn = true ∧ Has server e "objectClass" "group" ∧
    Has server e "managedBy" account ∧ roleDelegates ∈ e.attrs "extensionName"

/-- How a directory compares names, links, markers and classes. -/
structure Naming [UnicodeTables] (r : Realm server) : Prop where
  /-- Objects whose names the tool reads as one are one. -/
  spelled : ∀ a ∈ r.entries, ∀ b ∈ r.entries, dnEquals a.dn b.dn = true → a = b
  /-- A link that holds an object's name names that object alone. -/
  linked : ∀ a ∈ r.entries, ∀ b ∈ r.entries,
    server.equal "managedBy" (utf8 a.dn.toList) b.dn = true ↔ a = b
  /-- The marker equals itself. -/
  marked : server.equal "extensionName" (utf8 roleDelegates.toList) roleDelegates = true
  /-- A class is found in any letter case. -/
  classed : ∀ e ∈ r.entries, ∀ c ∈ e.attrs "objectClass", eqIgnoreAsciiCase c "group" = true →
    server.equal "objectClass" (utf8 "group".toList) c = true

/-- What holds of the directory at a moment of a command that lends an account to a
group: the other groups that do not delegate the account are as they were, no other
group has come to delegate it, and the group itself only when no other does. -/
structure Moment (cfg : Config) (group target : Entry) (r m : Realm server) : Prop where
  spared : List.Forall₂ (fun e e' => e'.dn = e.dn ∧
    (e ≠ group → ¬ DelegateOf server cfg e target.dn → e' = e)) r.entries m.entries
  narrowed : List.Forall₂ (fun e e' => DelegateOf server cfg e' target.dn →
    e = group ∨ DelegateOf server cfg e target.dn) r.entries m.entries
  last : ¬ DelegateOf server cfg group target.dn →
    (∃ e ∈ m.entries, e.dn = group.dn ∧ DelegateOf server cfg e target.dn) →
      ∀ e ∈ m.entries, DelegateOf server cfg e target.dn → e.dn = group.dn

/-- What holds once the command is done: the group alone delegates the account, and
delegates no other. -/
structure Settled (cfg : Config) (group target : Entry) (r m : Realm server) : Prop where
  alone : ∀ e ∈ m.entries, DelegateOf server cfg e target.dn ↔ e.dn = group.dn
  released : ∀ v ∈ r.entries, v ≠ target →
    ∀ e ∈ m.entries, e.dn = group.dn → ¬ DelegateOf server cfg e v.dn

/-- A search below a base finds objects of the directory below the base. -/
theorem mem_of_search {r : Realm server} {base filter : String} {es : List Entry}
    (h : r.search base .subtree filter = .ok es) {e : Entry} (he : e ∈ es) :
    e ∈ r.entries ∧ server.within e.dn base = true := by
  unfold Realm.search at h
  split at h
  · cases h
  · cases h
    obtain ⟨hmem, hpass⟩ := List.mem_filter.mp he
    exact ⟨hmem, ((Bool.and_eq_true _ _).mp hpass).1⟩

/-- A search that does not fail the command was answered. -/
theorem searched_ok_iff {x : Except String (List Entry)} {es : List Entry} :
    searched x = .ok es ↔ x = .ok es := by
  cases x with
  | error why =>
    constructor
    · intro h
      cases h
    · intro h
      cases h
  | ok es' =>
    constructor
    · intro h
      cases h
      rfl
    · intro h
      cases h
      rfl

/-- The object of a name is an object below the base. -/
theorem resolve_ok {cfg : Config} {r : Realm server} {name : String} {e : Entry}
    (h : resolve cfg r name = .ok e) : e ∈ r.entries ∧ server.within e.dn cfg.baseDn = true := by
  unfold resolve at h
  obtain ⟨es, hes, hone⟩ := bind_ok_iff.mp h
  rw [searched_ok_iff] at hes
  split at hone
  · cases hone
    exact mem_of_search hes List.mem_cons_self
  · cases hone
  · cases hone

/-- The query of the groups that name an account. -/
def managedQuery (userDn : String) : Query :=
  .all [⟨"objectClass", none, "group"⟩, ⟨"managedBy", none, userDn⟩]

/-- The filter of managed groups is the text of its query. -/
theorem managedFilter_eq (userDn : String) :
    managedFilter userDn = (managedQuery userDn).render escapeLdapFilterValue := by
  have hgroup : (escapeLdapFilterValue "group").toList = "group".toList := by
    simp [escapeLdapFilterValue, escapeFilterChar]
  have htext : (managedFilter userDn).toList = "(&(objectClass=group)(managedBy=".toList ++
      ((escapeLdapFilterValue userDn).toList ++ "))".toList) := by
    unfold managedFilter
    rw [String.toList_append, String.toList_append, List.append_assoc]
  apply String.toList_injective
  rw [htext]
  simp only [managedQuery, Query.render, Item.render, Item.header, List.map_cons, List.map_nil,
    String.join_cons, String.join_nil, String.toList_append, hgroup]
  simp

/-- Every item of the query is named by program text. -/
theorem managedQuery_named (userDn : String) : ∀ i ∈ (managedQuery userDn).items, i.Named := by
  intro i hi
  simp only [managedQuery, Query.items, List.mem_cons, List.not_mem_nil, or_false] at hi
  rcases hi with rfl | rfl
  · exact Item.named_equality (by decide) _
  · exact Item.named_equality (by decide) _

/-- The groups found are those below the base that name the account, and a link is
marked when its group carries the marker. -/
theorem groupsManagedBy_ok {cfg : Config} {r : Realm server} {userDn : String}
    {managed : List ManagedGroup} (h : groupsManagedBy cfg r userDn = .ok managed) (dn : String) :
    (∃ g ∈ managed, g.isDelegate = true ∧ g.dn = dn) ↔
      ∃ e ∈ r.entries, DelegateOf server cfg e userDn ∧ e.dn = dn := by
  unfold groupsManagedBy at h
  obtain ⟨es, hes, hmap⟩ := bind_ok_iff.mp h
  rw [searched_ok_iff, managedFilter_eq, r.search_query (managedQuery_named userDn)] at hes
  cases hes
  cases hmap
  simp [managedQuery, Query.filter, Filter.holds, allHold, Item.holds_filter, Realm.answers,
    DelegateOf, Has, markersOf, and_assoc]

/-- What undoing the links of some names makes of an object. -/
structure Cleared (done : List String) (e e' : Entry) : Prop where
  dn : e'.dn = e.dn
  gone : e.dn ∈ done → e'.attrs "managedBy" = []
  kept : e.dn ∉ done → e' = e

/-- An object whose link is undone names no account. -/
theorem clear_attrs {dn : String} {attrs attrs' : String → List String}
    (h : modified server (clearDelegateLink dn).mods attrs = some attrs') :
    attrs' "managedBy" = [] := by
  obtain ⟨next, hnext, hrest⟩ := modified_cons h
  obtain ⟨_, vs, hvs, rfl⟩ := apply_ok hnext
  have hempty : vs = [] := by
    rw [Mod.values] at hvs
    split at hvs
    · cases hvs
    · cases hvs
      rfl
  rw [modified_other hrest (by simp [Mod.attr]), hempty]
  simp [Mod.attr]

/-- An object whose link is set names the account, and is marked when it was marked or
the marker is added. -/
theorem set_attrs {groupDn userDn : String} {add : Bool} {attrs attrs' : String → List String}
    (h : modified server (setDelegateLink groupDn userDn add).mods attrs = some attrs') :
    attrs' "managedBy" = [userDn] ∧ attrs' "objectClass" = attrs "objectClass" ∧
      ((add = false → roleDelegates ∈ attrs "extensionName") →
        roleDelegates ∈ attrs' "extensionName") := by
  have hclass : attrs' "objectClass" = attrs "objectClass" := by
    apply modified_other h
    cases add <;> simp [setDelegateLink, Mod.attr]
  obtain ⟨next, hnext, hrest⟩ := modified_cons h
  obtain ⟨_, vs, hvs, rfl⟩ := apply_ok hnext
  cases hvs
  cases add with
  | false =>
    cases hrest
    refine ⟨by simp [Mod.attr], hclass, ?_⟩
    intro hmarked
    simpa [Mod.attr] using hmarked rfl
  | true =>
    refine ⟨?_, hclass, ?_⟩
    · rw [modified_other hrest (by simp [Mod.attr])]
      simp [Mod.attr]
    · intro _
      obtain ⟨last, hlast, hend⟩ := modified_cons hrest
      obtain ⟨_, ws, hws, rfl⟩ := apply_ok hlast
      cases hend
      rw [Mod.values] at hws
      split at hws
      · cases hws
      · cases hws
        simp [Mod.attr]

/-- Undoing links one by one undoes them all and touches nothing else. -/
theorem cleared_performed {r m m' : Realm server} {f : Entry → Entry} {done links : List String}
    (hf : m.entries = r.entries.map f) (hcleared : ∀ e ∈ r.entries, Cleared done e (f e))
    (hlinks : ∀ dn ∈ links, ∃ e ∈ r.entries, e.dn = dn)
    (h : performed (links.map clearDelegateLink) m = some m') :
    ∃ f', m'.entries = r.entries.map f' ∧
      ∀ e ∈ r.entries, Cleared (done ++ links) e (f' e) := by
  induction links generalizing m f done with
  | nil =>
    cases h
    exact ⟨f, hf, by simpa using hcleared⟩
  | cons dn links ih =>
    obtain ⟨⟨a, ha, rfl⟩, hrest⟩ := List.forall_mem_cons.mp hlinks
    rw [List.map_cons, performed, List.foldlM_cons] at h
    obtain ⟨next, hnext, hperformed⟩ := Option.bind_eq_some_iff.mp h
    obtain ⟨attrs, f', hattrs, hf', hchanged, hkept⟩ :=
      write_map hf (fun e he => (hcleared e he).dn) ha hnext
    have hstep : ∀ e ∈ r.entries, Cleared (done ++ [a.dn]) e (f' e) := by
      intro e he
      by_cases hea : e = a
      · subst hea
        rw [hchanged]
        exact ⟨(hcleared e he).dn, fun _ => clear_attrs hattrs, fun hnot => absurd (by simp) hnot⟩
      · have hne : e.dn ≠ a.dn := by
          intro heq
          exact hea (r.eq_of_sameDn he ha (heq ▸ server.sameDn_self e.dn))
        rw [hkept e he hea]
        refine ⟨(hcleared e he).dn, ?_, ?_⟩
        · intro hmem
          exact (hcleared e he).gone (by simpa [hne] using hmem)
        · intro hnot
          exact (hcleared e he).kept fun hmem => hnot (List.mem_append_left _ hmem)
    obtain ⟨f'', hf'', hall⟩ := ih hf' hstep hrest hperformed
    exact ⟨f'', hf'', by simpa using hall⟩

section Runs

variable [UnicodeTables]

/-- What a plan is made from. -/
structure Planned (cfg : Config) (r : Realm server) (user delegateGroup : String) (p : Plan) :
    Prop where
  target : resolve cfg r user = .ok p.target
  group : resolve cfg r delegateGroup = .ok p.group
  isGroup : assertIsGroup p.group.dn (objectClasses p.group) = .ok ()
  outside : assertOutsideCloudIdp p.group.dn cfg.cloudIdpOu = .ok ()
  managed : groupsManagedBy cfg r p.target.dn = .ok p.managed

/-- A command that decides on a plan resolved both names and passed its guards. -/
theorem delegatePlan_ok {cfg : Config} {r : Realm server} {user delegateGroup : String} {p : Plan}
    (h : delegatePlan cfg r user delegateGroup = .ok p) : Planned cfg r user delegateGroup p := by
  unfold delegatePlan at h
  obtain ⟨target, htarget, h⟩ := bind_ok_iff.mp h
  obtain ⟨group, hgroup, h⟩ := bind_ok_iff.mp h
  obtain ⟨_, hguards, h⟩ := bind_ok_iff.mp h
  obtain ⟨managed, hmanaged, h⟩ := bind_ok_iff.mp h
  cases h
  rw [mapError_ok_iff] at hguards
  obtain ⟨_, _, hguards⟩ := bind_ok_iff.mp hguards
  obtain ⟨_, _, hguards⟩ := bind_ok_iff.mp hguards
  obtain ⟨_, hisGroup, hguards⟩ := bind_ok_iff.mp hguards
  obtain ⟨_, houtside, _⟩ := bind_ok_iff.mp hguards
  exact ⟨htarget, hgroup, hisGroup, houtside, hmanaged⟩

/-- The name of an object outside the unit sync owns reads as a name. -/
theorem reads_of_outside {dn cloudIdpOu : String}
    (h : assertOutsideCloudIdp dn cloudIdpOu = .ok ()) : Reads dn := by
  unfold assertOutsideCloudIdp at h
  rw [refuse_ok_iff, Option.isNone_iff_eq_none] at h
  exact Option.isSome_iff_ne_none.mpr h.1

/-- An object that passes as a group is a group to the server. -/
theorem has_class_of_group {r : Realm server} (hnaming : Naming r) {e : Entry}
    (he : e ∈ r.entries) (h : assertIsGroup e.dn (objectClasses e) = .ok ()) :
    Has server e "objectClass" "group" := by
  unfold assertIsGroup at h
  split at h
  · rename_i hany
    obtain ⟨c, hc, hgroup⟩ := List.any_eq_true.mp hany
    exact ⟨c, hc, hnaming.classed e he c hc hgroup⟩
  · cases h

variable {cfg : Config} {r : Realm server} {user delegateGroup : String} {p : Plan}

/-- The links a plan clears are those of the other groups that delegate the account. -/
theorem mem_clears (hnaming : Naming r) (h : Planned cfg r user delegateGroup p) (dn : String) :
    dn ∈ p.clears ↔
      ∃ e ∈ r.entries, DelegateOf server cfg e p.target.dn ∧ e ≠ p.group ∧ e.dn = dn := by
  have hreads := reads_of_outside h.outside
  have hgroup := (resolve_ok h.group).1
  have hother : ∀ e ∈ r.entries, (dnEquals e.dn p.group.dn = false ↔ e ≠ p.group) := by
    intro e he
    constructor
    · rintro hfalse rfl
      rw [dnEquals_self hreads] at hfalse
      cases hfalse
    · intro hne
      rw [Bool.eq_false_iff]
      intro heq
      exact hne (hnaming.spelled e he p.group hgroup heq)
  have hmanaged := groupsManagedBy_ok h.managed dn
  have hclears : dn ∈ p.clears ↔ (∃ g ∈ p.managed, g.isDelegate = true ∧ g.dn = dn) ∧
      dnEquals dn p.group.dn = false := by
    simp only [Plan.clears, delegateLinksToClear, List.mem_map, List.mem_filter,
      Option.any_some, Bool.and_eq_true, Bool.not_eq_true']
    constructor
    · rintro ⟨g, ⟨hg, hdelegate, hne⟩, rfl⟩
      exact ⟨⟨g, hg, hdelegate, rfl⟩, hne⟩
    · rintro ⟨⟨g, hg, hdelegate, rfl⟩, hne⟩
      exact ⟨g, ⟨hg, hdelegate, hne⟩, rfl⟩
  rw [hclears, hmanaged]
  constructor
  · rintro ⟨⟨e, he, hof, rfl⟩, hne⟩
    exact ⟨e, he, hof, (hother e he).mp hne, rfl⟩
  · rintro ⟨e, he, hof, hne, rfl⟩
    exact ⟨⟨e, he, hof, rfl⟩, (hother e he).mpr hne⟩

/-- A name of an object whose link is cleared is of no object that keeps its own. -/
theorem notMem_clears (hnaming : Naming r) (h : Planned cfg r user delegateGroup p) {e : Entry}
    (he : e ∈ r.entries) (hspare : e = p.group ∨ ¬ DelegateOf server cfg e p.target.dn) :
    e.dn ∉ p.clears := by
  intro hmem
  obtain ⟨o, ho, hof, hne, hdn⟩ := (mem_clears hnaming h e.dn).mp hmem
  obtain rfl := r.eq_of_sameDn ho he (hdn ▸ server.sameDn_self o.dn)
  rcases hspare with heq | hnot
  · exact hne heq
  · exact hnot hof

omit [UnicodeTables] in
/-- An object that still delegates an account was not touched. -/
theorem Cleared.eq_of_delegateOf {done : List String} {e e' : Entry} (h : Cleared done e e')
    {account : String} (hof : DelegateOf server cfg e' account) : e' = e := by
  apply h.kept
  intro hmem
  obtain ⟨_, _, ⟨v, hv, _⟩, _⟩ := hof
  rw [h.gone hmem] at hv
  cases hv

/-- What all the modifies of a plan make of the objects of a directory: every link is
undone, and the group is linked. -/
structure Linked (p : Plan) (r : Realm server) (f : Entry → Entry) : Prop where
  cleared : ∀ e ∈ r.entries, e ≠ p.group → Cleared p.clears e (f e)
  dn : (f p.group).dn = p.group.dn
  link : (f p.group).attrs "managedBy" = [p.target.dn]
  classes : (f p.group).attrs "objectClass" = p.group.attrs "objectClass"
  marker : roleDelegates ∈ (f p.group).attrs "extensionName"

/-- Every name a plan clears is of an object. -/
theorem clears_found (hnaming : Naming r) (h : Planned cfg r user delegateGroup p) :
    ∀ dn ∈ p.clears, ∃ e ∈ r.entries, e.dn = dn := by
  intro dn hdn
  obtain ⟨e, he, _, _, hedn⟩ := (mem_clears hnaming h dn).mp hdn
  exact ⟨e, he, hedn⟩

/-- The first links of a plan, undone one by one. -/
theorem clearing_performed (hnaming : Naming r) (h : Planned cfg r user delegateGroup p)
    {done : List String} (hdone : ∀ dn ∈ done, dn ∈ p.clears) {m : Realm server}
    (hm : performed (done.map clearDelegateLink) r = some m) :
    ∃ f, m.entries = r.entries.map f ∧ ∀ e ∈ r.entries, Cleared done e (f e) :=
  @cleared_performed _ _ _ _ id [] _ (by simp)
    (fun e _ => ⟨rfl, fun hmem => absurd hmem (by simp), fun _ => rfl⟩)
    (fun dn hdn => clears_found hnaming h dn (hdone dn hdn)) hm

/-- All the modifies of a plan undo every link and then link the group. -/
theorem linked_performed (hnaming : Naming r) (h : Planned cfg r user delegateGroup p)
    {m : Realm server} (hm : performed p.writes r = some m) :
    ∃ f, m.entries = r.entries.map f ∧ Linked p r f := by
  have hgroup := (resolve_ok h.group).1
  rw [Plan.writes, performed, List.foldlM_append] at hm
  obtain ⟨next, hnext, hlast⟩ := Option.bind_eq_some_iff.mp hm
  obtain ⟨f, hf, hcleared⟩ := clearing_performed hnaming h (fun _ hdn => hdn) hnext
  obtain ⟨m', hwrite, hend⟩ := Option.bind_eq_some_iff.mp hlast
  cases hend
  obtain ⟨attrs, f', hattrs, hf', hchanged, hkept⟩ :=
    write_map hf (fun e he => (hcleared e he).dn) hgroup hwrite
  have hsame : f p.group = p.group :=
    (hcleared p.group hgroup).kept (notMem_clears hnaming h hgroup (Or.inl rfl))
  rw [hsame] at hattrs hchanged
  obtain ⟨hlink, hclass, hmarker⟩ := set_attrs hattrs
  have hattrs' : (f' p.group).attrs = attrs := congrArg Entry.attrs hchanged
  refine ⟨f', hf', ?_, by rw [hchanged], by rw [hattrs', hlink],
    by rw [hattrs', hclass], ?_⟩
  · intro e he hne
    rw [hkept e he hne]
    exact hcleared e he
  · rw [hattrs']
    apply hmarker
    intro hadd
    simpa [Plan.marked, markersOf] using hadd

/-- While links are undone, the directory is as it should be at every moment. -/
theorem moment_of_cleared (hnaming : Naming r) (h : Planned cfg r user delegateGroup p)
    {done : List String} (hdone : ∀ dn ∈ done, dn ∈ p.clears) {m : Realm server}
    {f : Entry → Entry} (hf : m.entries = r.entries.map f)
    (hcleared : ∀ e ∈ r.entries, Cleared done e (f e)) : Moment cfg p.group p.target r m := by
  have hgroup := (resolve_ok h.group).1
  constructor
  · rw [hf, List.forall₂_map_right_iff, List.forall₂_same]
    intro e he
    refine ⟨(hcleared e he).dn, ?_⟩
    intro _ hnot
    exact (hcleared e he).kept fun hmem => notMem_clears hnaming h he (Or.inr hnot) (hdone _ hmem)
  · rw [hf, List.forall₂_map_right_iff, List.forall₂_same]
    intro e he hof
    exact Or.inr ((hcleared e he).eq_of_delegateOf hof ▸ hof)
  · rintro hnot ⟨e', he', hdn, hof⟩
    rw [hf] at he'
    obtain ⟨e, he, rfl⟩ := List.mem_map.mp he'
    rw [(hcleared e he).eq_of_delegateOf hof] at hdn hof
    obtain rfl := r.eq_of_sameDn he hgroup (hdn ▸ server.sameDn_self e.dn)
    exact absurd hof hnot

/-- Once the group is linked, no other delegates the account. -/
theorem Linked.eq_group (hnaming : Naming r) (h : Planned cfg r user delegateGroup p)
    {f : Entry → Entry} (hlinked : Linked p r f) {e : Entry} (he : e ∈ r.entries)
    (hof : DelegateOf server cfg (f e) p.target.dn) : e = p.group := by
  by_contra hne
  have hcleared := hlinked.cleared e he hne
  have hsame := hcleared.eq_of_delegateOf hof
  rw [hsame] at hof
  have hmem : e.dn ∈ p.clears := (mem_clears hnaming h e.dn).mpr ⟨e, he, hof, hne, rfl⟩
  obtain ⟨_, _, ⟨v, hv, _⟩, _⟩ := hof
  rw [← hsame, hcleared.gone hmem] at hv
  cases hv

/-- A linked group delegates the account, and the names of objects are kept. -/
theorem settled_of_linked (hnaming : Naming r) (h : Planned cfg r user delegateGroup p)
    {m : Realm server} {f : Entry → Entry} (hf : m.entries = r.entries.map f)
    (hlinked : Linked p r f) : Settled cfg p.group p.target r m := by
  obtain ⟨hgroup, hwithin⟩ := resolve_ok h.group
  have htarget := (resolve_ok h.target).1
  have hdn : ∀ e ∈ r.entries, (f e).dn = e.dn := by
    intro e he
    by_cases heq : e = p.group
    · rw [heq, hlinked.dn]
    · exact (hlinked.cleared e he heq).dn
  have hmember : ∀ e ∈ r.entries, (f e).dn = p.group.dn → e = p.group := by
    intro e he heq
    rw [hdn e he] at heq
    exact r.eq_of_sameDn he hgroup (heq ▸ server.sameDn_self e.dn)
  constructor
  · intro e' he'
    rw [hf] at he'
    obtain ⟨e, he, rfl⟩ := List.mem_map.mp he'
    constructor
    · intro hof
      rw [hlinked.eq_group hnaming h he hof, hlinked.dn]
    · intro heq
      rw [hmember e he heq]
      refine ⟨hlinked.dn ▸ hwithin, ?_, ?_, hlinked.marker⟩
      · obtain ⟨c, hc, hequal⟩ := has_class_of_group hnaming hgroup h.isGroup
        exact ⟨c, hlinked.classes ▸ hc, hequal⟩
      · exact ⟨p.target.dn, by rw [hlinked.link]; exact List.mem_singleton_self _,
          (hnaming.linked _ htarget _ htarget).mpr rfl⟩
  · intro v hv hne e' he' heq hof
    rw [hf] at he'
    obtain ⟨e, he, rfl⟩ := List.mem_map.mp he'
    rw [hmember e he heq] at hof
    obtain ⟨_, _, ⟨x, hx, hequal⟩, _⟩ := hof
    rw [hlinked.link, List.mem_singleton] at hx
    subst hx
    exact hne ((hnaming.linked v hv _ htarget).mp hequal)

/-- Once the group is linked, the directory is as it should be. -/
theorem moment_of_linked (hnaming : Naming r) (h : Planned cfg r user delegateGroup p)
    {m : Realm server} {f : Entry → Entry} (hf : m.entries = r.entries.map f)
    (hlinked : Linked p r f) : Moment cfg p.group p.target r m := by
  constructor
  · rw [hf, List.forall₂_map_right_iff, List.forall₂_same]
    intro e he
    by_cases heq : e = p.group
    · subst heq
      exact ⟨hlinked.dn, fun hne => absurd rfl hne⟩
    · have hcleared := hlinked.cleared e he heq
      exact ⟨hcleared.dn, fun _ hnot =>
        hcleared.kept (notMem_clears hnaming h he (Or.inr hnot))⟩
  · rw [hf, List.forall₂_map_right_iff, List.forall₂_same]
    intro e he hof
    exact Or.inl (hlinked.eq_group hnaming h he hof)
  · intro _ _ e he hof
    exact ((settled_of_linked hnaming h hf hlinked).alone e he).mp hof

/-- After some of the first modifies of a plan, the directory is as it should be. -/
theorem moment_of_performed (hnaming : Naming r) (h : Planned cfg r user delegateGroup p)
    {m : Realm server} {k : ℕ} (hm : performed (p.writes.take k) r = some m) :
    Moment cfg p.group p.target r m := by
  by_cases hk : k ≤ p.clears.length
  · have htake : p.writes.take k = (p.clears.take k).map clearDelegateLink := by
      rw [Plan.writes, List.take_append_of_le_length (by simpa using hk), List.map_take]
    rw [htake] at hm
    have hdone : ∀ dn ∈ p.clears.take k, dn ∈ p.clears := fun _ hdn => List.mem_of_mem_take hdn
    obtain ⟨f, hf, hcleared⟩ := clearing_performed hnaming h hdone hm
    exact moment_of_cleared hnaming h hdone hf hcleared
  · have htake : p.writes.take k = p.writes := by
      apply List.take_of_length_le
      simp only [Plan.writes, List.length_append, List.length_map, List.length_singleton]
      omega
    rw [htake] at hm
    obtain ⟨f, hf, hlinked⟩ := linked_performed hnaming h hm
    exact moment_of_linked hnaming h hf hlinked

omit [UnicodeTables] in
/-- A directory in which nothing changed is as it should be. -/
theorem moment_refl {group target : Entry} (hgroup : group ∈ r.entries) :
    Moment cfg group target r r := by
  constructor
  · rw [List.forall₂_same]
    intro e _
    exact ⟨rfl, fun _ _ => rfl⟩
  · rw [List.forall₂_same]
    intro e _ hof
    exact Or.inr hof
  · rintro hnot ⟨e, he, hdn, hof⟩
    obtain rfl := r.eq_of_sameDn he hgroup (hdn ▸ server.sameDn_self e.dn)
    exact absurd hof hnot

/-- Lending an account to a group: at every moment of the command, whatever becomes of
its modifies, no other group has come to delegate the account, the groups that do not
delegate it are as they were, and the group itself comes to only when no other does any
more; a command that ends well leaves the group alone delegating the account, and the
account alone delegated by the group. -/
theorem delegateSet_replaces (hnaming : Naming r) {target group : Entry}
    (htarget : resolve cfg r user = .ok target)
    (hgroup : resolve cfg r delegateGroup = .ok group) (fates : ℕ → Fate) :
    (∀ m ∈ (delegateSet cfg r user delegateGroup fates).moments, Moment cfg group target r m) ∧
      ∀ text, (delegateSet cfg r user delegateGroup fates).ended = .ok text →
        Settled cfg group target r (delegateSet cfg r user delegateGroup fates).final := by
  unfold delegateSet
  cases hplan : delegatePlan cfg r user delegateGroup with
  | error why =>
    refine ⟨?_, ?_⟩
    · intro m hm
      rw [Run.moments, List.mem_singleton] at hm
      rw [hm]
      exact moment_refl (resolve_ok hgroup).1
    · intro text htext
      cases htext
  | ok p =>
    have h := delegatePlan_ok hplan
    obtain rfl := Except.ok.inj (htarget.symm.trans h.target)
    obtain rfl := Except.ok.inj (hgroup.symm.trans h.group)
    refine ⟨?_, ?_⟩
    · intro m hm
      obtain ⟨k, hk⟩ := moment_performed hm
      exact moment_of_performed hnaming h hk
    · intro text htext
      have hnone : (perform fates r p.writes).2 = none := by
        cases hfailed : (perform fates r p.writes).2 with
        | none => rfl
        | some w =>
          simp only [hfailed] at htext
          cases htext
      obtain ⟨f, hf, hlinked⟩ := linked_performed hnaming h (performed_of_none hnone)
      exact settled_of_linked hnaming h hf hlinked

end Runs

section Lent

open BrokerDirectory (plainServer listed has_plainServer_iff)

/-- A person of the sample directory. -/
def person (dn sam : String) : Entry :=
  listed dn [] [("objectClass", ["user"]), ("sAMAccountName", [sam])]

/-- A delegate group of the sample directory. -/
def team (dn sam lends : String) : Entry :=
  listed dn [] [("objectClass", ["group"]), ("sAMAccountName", [sam]), ("managedBy", [lends]),
    ("extensionName", [roleDelegates])]

/-- The account that moves between the teams. -/
def bot : Entry := person "CN=bot,DC=x" "bot"

/-- The account of the other team. -/
def job : Entry := person "CN=job,DC=x" "job"

/-- The team the account is taken from. -/
def ops : Entry := team "CN=ops,OU=r,DC=x" "ops" "CN=bot,DC=x"

/-- The team the account is lent to. -/
def dev : Entry := team "CN=dev,OU=r,DC=x" "dev" "CN=job,DC=x"

/-- The objects of the sample directory. -/
def lentEntries : List Entry := [bot, job, ops, dev]

/-- The directory that holds them. -/
noncomputable def lentRealm : Realm plainServer where
  entries := lentEntries
  distinct := by
    simp [lentEntries, plainServer, bot, job, ops, dev, person, team, listed, eqIgnoreAsciiCase]
  backlinks := by
    intro e he g hg
    simp only [lentEntries, List.mem_cons, List.not_mem_nil, or_false] at he
    rcases he with rfl | rfl | rfl | rfl
    all_goals simp [bot, job, ops, dev, person, team, listed, List.lookup_cons] at hg

/-- The configuration of the sample directory. -/
def lentConfig : Config := ⟨"DC=x", "OU=c,DC=x", "OU=r,DC=x"⟩

/-- An object of the sample directory is known by its name. -/
theorem lent_ext {a b : Entry} (ha : a ∈ lentEntries) (hb : b ∈ lentEntries) (h : a.dn = b.dn) :
    a = b :=
  lentRealm.eq_of_sameDn ha hb (h ▸ plainServer.sameDn_self a.dn)

/-- A name resolves to the object it finds. -/
theorem lent_resolve {name : String} {e : Entry} (he : e ∈ lentEntries)
    (h : (resolve lentConfig lentRealm name).toOption.map Entry.dn = some e.dn) :
    resolve lentConfig lentRealm name = .ok e := by
  obtain ⟨o, ho, hdn⟩ := Option.map_eq_some_iff.mp h
  have hok := toOption_eq_some_iff.mp ho
  rwa [lent_ext (resolve_ok hok).1 he hdn] at hok

/-- The sample directory compares names, links, markers and classes as it should. -/
theorem lent_naming : @Naming plainServer asciiTables lentRealm := by
  refine @Naming.mk plainServer asciiTables lentRealm ?_ ?_ ?_ ?_
  · intro a ha b hb h
    have hdns : ∀ x ∈ lentEntries.map Entry.dn, ∀ y ∈ lentEntries.map Entry.dn,
        @dnEquals asciiTables x y = true → x = y := by decide +kernel
    exact lent_ext ha hb
      (hdns _ (List.mem_map.mpr ⟨a, ha, rfl⟩) _ (List.mem_map.mpr ⟨b, hb, rfl⟩) h)
  · intro a ha b hb
    have hequal : plainServer.equal "managedBy" (utf8 a.dn.toList) b.dn = true ↔
        utf8 a.dn.toList = utf8 b.dn.toList := decide_eq_true_iff
    rw [hequal]
    constructor
    · intro h
      exact lent_ext ha hb (String.toList_injective (utf8_injective h))
    · rintro rfl
      rfl
  · decide
  · intro e he c hc h
    have hclasses : ∀ c ∈ lentEntries.flatMap objectClasses,
        eqIgnoreAsciiCase c "group" = true → c = "group" := by decide
    rw [hclasses c (List.mem_flatMap.mpr ⟨e, he, hc⟩) h]
    decide

/-- An account moves from one team to another, which gives up the account it had, and
the command is as safe as it should be whatever becomes of its modifies. -/
theorem delegateSet_replaces_lent :
    (DelegateOf plainServer lentConfig ops bot.dn ∧ DelegateOf plainServer lentConfig dev job.dn ∧
      (@delegateSet plainServer asciiTables lentConfig lentRealm "bot" "dev"
        fun _ => .answered).ended.isOk = true) ∧
    ∀ fates, (∀ m ∈ (@delegateSet plainServer asciiTables lentConfig lentRealm "bot" "dev"
        fates).moments, Moment lentConfig dev bot lentRealm m) ∧
      ∀ text, (@delegateSet plainServer asciiTables lentConfig lentRealm "bot" "dev"
          fates).ended = .ok text → Settled lentConfig dev bot lentRealm
            (@delegateSet plainServer asciiTables lentConfig lentRealm "bot" "dev" fates).final := by
  refine ⟨⟨?_, ?_, by decide +kernel⟩, ?_⟩
  · rw [DelegateOf, has_plainServer_iff, has_plainServer_iff]
    decide
  · rw [DelegateOf, has_plainServer_iff, has_plainServer_iff]
    decide
  · intro fates
    exact @delegateSet_replaces plainServer asciiTables lentConfig lentRealm "bot" "dev"
      lent_naming bot dev (lent_resolve (by simp [lentEntries]) (by decide +kernel))
      (lent_resolve (by simp [lentEntries]) (by decide +kernel)) fates

end Lent

end Kerbridge.DelegateLinks

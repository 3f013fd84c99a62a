import Kerbridge.ApplyFrame
import Kerbridge.IdentitySpelling

/-!
# One cycle of the synchroniser

A cycle reads the unit, plans, and applies the plan. What it reads is described here entry by
entry: the objects of the directory that this source owns, each under the subject of its
identity, and nothing is owned that was not read.
-/

namespace Kerbridge.SyncCycle

open UnicodeText DirectorySource LdapFilter RealmDirectory RealmChanges StoredIdentity Attempts Planner
  PlanApply Fallible Runs
open PlannerNames (groupSuffixRejection)
open SyncDirectory (Provider sourceIdentity encodeIdentity ownIdentity readUser readGroup readEntry
  readCurrent first)

/-- What both reads of a cycle search for. -/
def objectFilter : String := "(|(objectClass=user)(objectClass=group))"

/-- The same, as what a client means. -/
def objectQuery : Query := .any [⟨"objectClass", none, "user"⟩, ⟨"objectClass", none, "group"⟩]

/-- One source's world: the server, the unit it owns, and how it names what it makes. -/
structure Deployment (server : Server) where
  naming : Naming server
  provider : Provider
  source : Source
  /-- The one unit a plan may write. -/
  idpOu : String
  /-- The name everything in the domain lies under. -/
  baseDn : String
  upnSuffix : String
  groupSuffix : String
  suffixAccepted : groupSuffixRejection groupSuffix = none
  automaticSamRenames : Bool
  dryRun : Bool := false

variable [UnicodeTables] {server : Server}

/-- What one cycle meets: a whole reading of the IdP, the clock, how the members of a group
read, and what becomes of its requests. -/
structure Cycle where
  desired : Desired
  admission : Subject
  grant : Option Subject := none
  now : String
  /-- The walk over the members of a group. -/
  membersOf : Entry → Except String (List String)
  /-- Why the directory did not answer a search, where it did not. -/
  unread : Option String := none
  fates : ℕ → ℕ → Fate String

omit [UnicodeTables] in
/-- A search that may go unanswered. -/
def searching (unread : Option String) (r : Realm server) (base : String) :
    Except String (List Entry) :=
  match unread with
  | some why => .error why
  | none => r.search base .subtree objectFilter

/-- One read of the unit, and of the login names of the domain. -/
def readRealm (d : Deployment server) (c : Cycle) (r : Realm server) : Except String Current := do
  let entries ← searching c.unread r d.idpOu
  let domain ← searching c.unread r d.baseDn
  readCurrent d.source c.membersOf entries domain

/-- What a plan is made for. -/
def planCtx (d : Deployment server) (c : Cycle) : PlanCtx where
  idpOu := d.idpOu
  admission := c.admission
  grant := c.grant
  upnSuffix := d.upnSuffix
  groupSuffix := d.groupSuffix
  suffixAccepted := d.suffixAccepted
  now := c.now
  automaticSamRenames := d.automaticSamRenames
  identity := sourceIdentity d.provider d.source

/-- How a cycle ends. -/
inductive Conclusion where
  /-- The directory could not be read. -/
  | unread (why : String)
  /-- There is no plan. -/
  | stopped (why : Stop)
  /-- The plan was only shown. -/
  | shown (plan : Plan)
  | applied (plan : Plan) (report : ApplyReport)

/-- The plan of a cycle, beside the markers that were read. -/
def planned (d : Deployment server) (c : Cycle) (r : Realm server) :
    Except Conclusion (Plan × List (String × List String)) := do
  let current ← (readRealm d c r).mapError .unread
  let plan ← (planSync c.desired current (planCtx d c)).mapError .stopped
  return (plan, markerIndex current)

/-- The difference between a whole reading of the IdP and the directory, applied. -/
def reconcile (d : Deployment server) (c : Cycle) (r : Realm server) : Realm server × Conclusion :=
  match planned d c r with
  | .error conclusion => (r, conclusion)
  | .ok (plan, markers) =>
    if d.dryRun then (r, .shown plan)
    else
      let (r', report) := apply d.naming d.idpOu markers plan c.fates r
      (r', .applied plan report)

/-- The directory at every moment of a cycle, the first before any request. -/
def cycleMoments (d : Deployment server) (c : Cycle) (r : Realm server) : List (Realm server) :=
  match planned d c r with
  | .error _ => [r]
  | .ok (plan, markers) =>
    if d.dryRun then [r] else momentsOf d.naming d.idpOu markers plan.ops c.fates r

/-- A cycle has a plan when it read the directory and planned. -/
theorem planned_ok {d : Deployment server} {c : Cycle} {r : Realm server} {plan : Plan}
    {markers : List (String × List String)} (h : planned d c r = .ok (plan, markers)) :
    ∃ current, readRealm d c r = .ok current ∧
      planSync c.desired current (planCtx d c) = .ok plan ∧ markers = markerIndex current := by
  obtain ⟨current, hread, h⟩ := bind_ok_iff.mp h
  obtain ⟨plan', hplan, h⟩ := bind_ok_iff.mp h
  cases h
  exact ⟨current, mapError_ok_iff.mp hread, mapError_ok_iff.mp hplan, rfl⟩

/-- A cycle changes the directory only by applying the plan of what it read. -/
theorem cycleMoments_cases (d : Deployment server) (c : Cycle) (r : Realm server) :
    cycleMoments d c r = [r] ∨ ∃ current plan, readRealm d c r = .ok current ∧
      planSync c.desired current (planCtx d c) = .ok plan ∧
      cycleMoments d c r = momentsOf d.naming d.idpOu (markerIndex current) plan.ops c.fates r := by
  unfold cycleMoments
  cases hplanned : planned d c r with
  | error conclusion => exact Or.inl rfl
  | ok made =>
    obtain ⟨plan, markers⟩ := made
    obtain ⟨current, hread, hplan, rfl⟩ := planned_ok hplanned
    dsimp only
    split
    · exact Or.inl rfl
    · exact Or.inr ⟨current, plan, hread, hplan, rfl⟩

/-- The directory a cycle leaves behind is that of its last moment. -/
theorem reconcile_last (d : Deployment server) (c : Cycle) (r : Realm server) :
    (reconcile d c r).1 ∈ cycleMoments d c r := by
  unfold reconcile cycleMoments
  cases hplanned : planned d c r with
  | error conclusion => exact List.mem_singleton.mpr rfl
  | ok made =>
    obtain ⟨plan, markers⟩ := made
    dsimp only
    split
    · exact List.mem_singleton.mpr rfl
    · exact lastOf_mem _ _

section Read

omit [UnicodeTables]

/-- The text of the filter is what is meant by it. -/
theorem objectFilter_eq : objectFilter = objectQuery.render escapeLdapFilterValue := by decide

/-- Whether an object is of a class the synchroniser reads. -/
def Classed (server : Server) (e : Entry) : Bool :=
  (e.attrs "objectClass").any (server.equal "objectClass" (utf8 "user".toList)) ||
    (e.attrs "objectClass").any (server.equal "objectClass" (utf8 "group".toList))

/-- A search that is answered finds the accounts and the groups under its base. -/
theorem searching_ok {unread : Option String} {r : Realm server} {base : String}
    {entries : List Entry} (h : searching unread r base = .ok entries) :
    entries = r.entries.filter fun e => server.within e.dn base && Classed server e := by
  unfold searching at h
  cases unread with
  | some why => cases h
  | none =>
    have hnamed : ∀ i ∈ objectQuery.items, i.Named := by decide
    rw [objectFilter_eq, Realm.search_query r hnamed] at h
    cases h
    refine List.filter_congr fun e _ => ?_
    simp [objectQuery, Query.filter, Filter.holds, anyHolds, Item.filter, Realm.answers, Classed]

/-- What a source owns an object as. -/
def meantBy (source : Source) (e : Entry) : Option Meant :=
  (ownIdentity source e).map fun own =>
    ⟨if "group" ∈ e.attrs "objectClass" then .group else .user, own.2.subject⟩

/-- An account of the source, as it is read. -/
def ownUser (source : Source) (e : Entry) : Option (Subject × CurrentUser) :=
  match ownIdentity source e with
  | none => none
  | some own =>
    if "group" ∈ e.attrs "objectClass" then none else some (own.2.subject, readUser e own.1)

/-- A group of the source, as it is read. -/
def ownGroup (source : Source) (membersOf : Entry → Except String (List String)) (e : Entry) :
    Option (Subject × CurrentGroup) :=
  match ownIdentity source e with
  | none => none
  | some own =>
    if "group" ∈ e.attrs "objectClass" then
      some (own.2.subject, readGroup e own.1 ((membersOf e).toOption.getD []))
    else none

/-- One entry more is entered where it belongs. -/
theorem readEntry_ok {source : Source} {membersOf : Entry → Except String (List String)}
    {c c' : Current} {e : Entry} (h : readEntry source membersOf c e = .ok c') :
    c'.users = c.users ++ (ownUser source e).toList ∧
      c'.groups = c.groups ++ (ownGroup source membersOf e).toList := by
  unfold readEntry at h
  unfold ownUser ownGroup
  cases hown : ownIdentity source e with
  | none =>
    rw [hown] at h
    cases h
    simp
  | some own =>
    obtain ⟨text, id⟩ := own
    rw [hown] at h
    dsimp only at h ⊢
    split at h
    · rename_i hgroup
      obtain ⟨members, hmembers, h⟩ := bind_ok_iff.mp h
      cases h
      rw [if_pos hgroup, if_pos hgroup, hmembers]
      exact ⟨(List.append_nil _).symm, rfl⟩
    · rename_i hgroup
      cases h
      rw [if_neg hgroup, if_neg hgroup]
      exact ⟨rfl, (List.append_nil _).symm⟩

/-- A read gives the accounts and the groups of the source, in the order of the entries. -/
theorem readEntries_ok {source : Source} {membersOf : Entry → Except String (List String)}
    {entries : List Entry} {c c' : Current}
    (h : entries.foldlM (readEntry source membersOf) c = .ok c') :
    c'.users = c.users ++ entries.filterMap (ownUser source) ∧
      c'.groups = c.groups ++ entries.filterMap (ownGroup source membersOf) := by
  induction entries generalizing c with
  | nil =>
    cases h
    simp
  | cons e entries ih =>
    obtain ⟨mid, hmid, hrest⟩ := foldlM_cons_ok h
    obtain ⟨husers, hgroups⟩ := readEntry_ok hmid
    obtain ⟨husers', hgroups'⟩ := ih hrest
    rw [husers', hgroups', husers, hgroups, List.filterMap_cons, List.filterMap_cons]
    constructor
    · cases ownUser source e with
      | none => simp
      | some u => simp
    · cases ownGroup source membersOf e with
      | none => simp
      | some g => simp

end Read

/-- A read of the realm gives the accounts and the groups that the source owns in its unit. -/
theorem readRealm_ok {d : Deployment server} {c : Cycle} {r : Realm server} {current : Current}
    (h : readRealm d c r = .ok current) : ∃ entries,
      entries = r.entries.filter (fun e => server.within e.dn d.idpOu && Classed server e) ∧
      current.users = entries.filterMap (ownUser d.source) ∧
      current.groups = entries.filterMap (ownGroup d.source c.membersOf) := by
  obtain ⟨entries, hentries, h⟩ := bind_ok_iff.mp h
  obtain ⟨domain, _, h⟩ := bind_ok_iff.mp h
  obtain ⟨mid, hmid, h⟩ := bind_ok_iff.mp h
  cases h
  obtain ⟨husers, hgroups⟩ := readEntries_ok hmid
  exact ⟨entries, searching_ok hentries, by rw [husers]; rfl, by rw [hgroups]; rfl⟩

end Kerbridge.SyncCycle

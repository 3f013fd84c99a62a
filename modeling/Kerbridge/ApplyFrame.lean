import Kerbridge.DeviceRequestRule
import Kerbridge.PlanApply
import Kerbridge.PlanShape
import Kerbridge.Succession

/-!
# What applying a plan leaves alone

Whatever the desired and the current state, whatever directory a plan meets and whatever
becomes of its requests, every object keeps what the plan is not about: its identity, its
class, and every marker that is none of the synchroniser's own. The frame is proved for one
request and carried through the run by the places the objects stand in.
-/

namespace Kerbridge.ApplyFrame

open UnicodeText DirectorySource LdapFilter RealmDirectory RealmChanges RealmState Attempts Planner
  PlanApply Succession Fallible
open DistinguishedName (parentOf)

/-- The attributes a plan may write, the links between objects apart. -/
def writtenAttrs : List String := settableAttrs ++ ["userAccountControl", "extensionName"]

/-- What an object keeps while its markers change: some may go, and some may come. -/
structure Spared (loses gains : String → Prop) (e e' : Entry) : Prop where
  binary : e'.binAttrs = e.binAttrs
  others : ∀ attr, attr ∉ writtenAttrs → attr ∉ linkAttrs → e'.attrs attr = e.attrs attr
  kept : ∀ v ∈ e.attrs "extensionName", v ∈ e'.attrs "extensionName" ∨ loses v
  known : ∀ v ∈ e'.attrs "extensionName", v ∈ e.attrs "extensionName" ∨ gains v

section Frame

variable {server : Server} {loses gains : String → Prop}

/-- An object keeps what it keeps when nothing happens to it. -/
theorem Spared.refl (e : Entry) : Spared loses gains e e :=
  ⟨rfl, fun _ _ _ => rfl, fun _ hv => Or.inl hv, fun _ hv => Or.inl hv⟩

/-- An object keeps through two changes what it keeps through each. -/
theorem Spared.trans {a b c : Entry} (h : Spared loses gains a b) (h' : Spared loses gains b c) :
    Spared loses gains a c := by
  refine ⟨h'.binary.trans h.binary, ?_, ?_, ?_⟩
  · intro attr hwritten hlink
    rw [h'.others attr hwritten hlink, h.others attr hwritten hlink]
  · intro v hv
    rcases h.kept v hv with hv | hlost
    · exact h'.kept v hv
    · exact Or.inr hlost
  · intro v hv
    rcases h'.known v hv with hv | hnew
    · exact h.known v hv
    · exact Or.inr hnew

/-- An object that keeps its markers keeps them whatever may go and come. -/
theorem Spared.of_markers {e e' : Entry} (hbinary : e'.binAttrs = e.binAttrs)
    (hothers : ∀ attr, attr ∉ writtenAttrs → attr ∉ linkAttrs → e'.attrs attr = e.attrs attr)
    (hmarkers : e'.attrs "extensionName" = e.attrs "extensionName") : Spared loses gains e e' := by
  refine ⟨hbinary, hothers, ?_, ?_⟩
  · intro v hv
    exact Or.inl (hmarkers ▸ hv)
  · intro v hv
    exact Or.inl (hmarkers ▸ hv)

/-- The values a directory takes for one of a list. -/
def TakenFor (server : Server) (values : List String) (v : String) : Prop :=
  ∃ w ∈ values, server.equal "extensionName" (utf8 w.toList) v = true

/-- A change writes a link, an attribute a plan may write, or markers that may come or go. -/
def Fits (server : Server) (loses gains : String → Prop) : Change → Prop
  | .add attr value => attr ∈ linkAttrs ∨ attr = "extensionName" ∧ gains value
  | .replace attr _ => attr ∈ linkAttrs ∨ attr ∈ writtenAttrs ∧ attr ≠ "extensionName"
  | .delete attr values => attr ∈ linkAttrs ∨
      attr = "extensionName" ∧ ∀ v, TakenFor server values v → loses v

/-- The attribute of a fitting change is a link or one a plan may write. -/
theorem fits_attr {c : Change} (h : Fits server loses gains c) :
    c.attr ∈ linkAttrs ∨ c.attr ∈ writtenAttrs := by
  have hmarkers : "extensionName" ∈ writtenAttrs := by decide
  cases c with
  | add attr value =>
    rcases h with hlink | ⟨hattr, _⟩
    · exact Or.inl hlink
    · exact Or.inr (hattr ▸ hmarkers)
  | replace attr values =>
    rcases h with hlink | ⟨hwritten, _⟩
    · exact Or.inl hlink
    · exact Or.inr hwritten
  | delete attr values =>
    rcases h with hlink | ⟨hattr, _⟩
    · exact Or.inl hlink
    · exact Or.inr (hattr ▸ hmarkers)

/-- Markers are no links. -/
theorem extensionName_no_link : "extensionName" ∉ linkAttrs := by decide

/-- The markers after a fitting change are those before it, without some that may go and
with some that may come. -/
theorem fits_markers {c : Change} {attrs attrs' : String → List String}
    (h : Fits server loses gains c) (hchanged : changed server c attrs = .ok attrs') :
    (∀ v ∈ attrs "extensionName", v ∈ attrs' "extensionName" ∨ loses v) ∧
      ∀ v ∈ attrs' "extensionName", v ∈ attrs "extensionName" ∨ gains v := by
  by_cases hattr : c.attr = "extensionName"
  · obtain ⟨_, vs, hvs, rfl⟩ := changed_ok hchanged
    rw [hattr, Function.update_self]
    rw [hattr] at hvs
    cases c with
    | add attr value =>
      obtain rfl : attr = "extensionName" := hattr
      have hgain : gains value := (h.resolve_left extensionName_no_link).2
      rw [(values_add hvs).2]
      refine ⟨fun v hv => Or.inl (List.mem_append_left _ hv), ?_⟩
      intro v hv
      rcases List.mem_append.mp hv with hv | hv
      · exact Or.inl hv
      · rw [List.mem_singleton.mp hv]
        exact Or.inr hgain
    | replace attr values =>
      obtain rfl : attr = "extensionName" := hattr
      exact absurd rfl (h.resolve_left extensionName_no_link).2
    | delete attr values =>
      obtain rfl : attr = "extensionName" := hattr
      have hloss := (h.resolve_left extensionName_no_link).2
      rw [(values_delete hvs).2]
      constructor
      · intro v hv
        by_cases hgone : values.any (fun w => server.equal "extensionName" (utf8 w.toList) v) = true
        · obtain ⟨w, hw, hequal⟩ := List.any_eq_true.mp hgone
          exact Or.inr (hloss v ⟨w, hw, hequal⟩)
        · exact Or.inl (List.mem_filter.mpr ⟨hv, by simpa using hgone⟩)
      · intro v hv
        exact Or.inl (List.mem_of_mem_filter hv)
  · rw [changed_other hchanged (Ne.symm hattr)]
    exact ⟨fun v hv => Or.inl hv, fun v hv => Or.inl hv⟩

/-- A fitting change leaves an object what it keeps. -/
theorem fits_spared {c : Change} {e : Entry} {attrs : String → List String}
    (h : Fits server loses gains c) (hchanged : changed server c e.attrs = .ok attrs) :
    Spared loses gains e { e with attrs := attrs } := by
  obtain ⟨hkept, hknown⟩ := fits_markers h hchanged
  refine ⟨rfl, ?_, hkept, hknown⟩
  intro attr hwritten hlink
  refine changed_other hchanged ?_
  rintro rfl
  rcases fits_attr h with hc | hc
  · exact hlink hc
  · exact hwritten hc

/-- Another object's new name leaves an object what it keeps. -/
theorem renamedEntry_spared (old new : String) (e : Entry) :
    Spared loses gains e (renamedEntry server old new e) := by
  refine .of_markers rfl ?_ ?_
  · intro attr _ hlink
    exact followed_other hlink
  · exact @followed_other server old new _ _ extensionName_no_link

/-- A request makes objects of a kind, or changes what it may. -/
def RequestFits (server : Server) (loses gains : String → Prop) (made : Entry → Prop) :
    Request → Prop
  | .add dn attrs => made (newEntry dn attrs)
  | .modify _ c => Fits server loses gains c
  | _ => True

/-- A fitting request leaves every object what it keeps, and the new ones are of the kind. -/
theorem make_spared {made : Entry → Prop} {naming : Naming server} {idpOu : String} {q : Request}
    {r r' : Realm server} (h : RequestFits server loses gains made q)
    (hmake : make naming idpOu q r = .ok r') :
    Succeeds (Spared loses gains) made r.entries r'.entries := by
  rcases make_ok hmake with ⟨dn, attrs, rfl, hadd⟩ | ⟨dn, c, rfl, hmodify⟩ | ⟨dn, rdn, rfl, hrename⟩ |
    ⟨rfl, _, rfl⟩
  · rw [(add_ok hadd).2]
    exact succeeds_concat Spared.refl h
  · obtain ⟨e, _, _, attrs, f, hattrs, hr', hfe, hfo⟩ := modify_ok hmodify
    rw [hr']
    refine succeeds_map ?_
    intro o ho
    by_cases hoe : o = e
    · rw [hoe, hfe]
      exact fits_spared h hattrs
    · rw [hfo o ho hoe]
      exact Spared.refl o
  · obtain ⟨e, _, _, new, _, _, hr'⟩ := modifyDn_ok hrename
    rw [hr']
    exact succeeds_map fun o _ => renamedEntry_spared e.dn new o
  · exact succeeds_refl Spared.refl _

/-- At every moment of a run of fitting requests every object has kept what it keeps. -/
theorem moments_spared {made : Entry → Prop} {naming : Naming server} {idpOu : String}
    {markers : List (String × List String)} {ops : List Op}
    (hfits : ∀ op ∈ ops, ∀ rs, requests markers op = .ok rs →
      ∀ q ∈ rs, RequestFits server loses gains made q)
    (hmade : ∀ e e', made e → Spared loses gains e e' → made e')
    (fates : ℕ → ℕ → Fate String) (r : Realm server) :
    ∀ m ∈ momentsOf naming idpOu markers ops fates r,
      Succeeds (Spared loses gains) made r.entries m.entries := by
  refine batch_keeps_of_requests (v := service naming idpOu) ?_ fates
    (succeeds_refl Spared.refl r.entries)
  intro rs hrs q hq s s' hs hstep
  obtain ⟨op, hop, hrequests⟩ := List.mem_map.mp hrs
  exact hs.trans_self (make_spared (hfits op hop rs hrequests q hq) hstep)
    (fun _ _ _ => Spared.trans) hmade

end Frame

section Plans

variable [UnicodeTables] {server : Server}

/-- The prefixes of the markers a plan takes off. -/
def ownPrefixes : List String :=
  [stRetired, stQuar, DeviceGrants.grantPrefix, roleAdmission, roleDeviceGrant]

/-- A marker a plan puts on an object. -/
def OwnMark (v : String) : Prop :=
  v = roleAdmission ∨ v = roleDeviceGrant ∨ startsWith v stRetired = true ∨
    startsWith v stQuar = true

/-- A value the directory takes for one that begins with a prefix of the synchroniser's. -/
def OwnValue (server : Server) (v : String) : Prop :=
  ∃ pre ∈ ownPrefixes, ∃ w, startsWith w pre = true ∧
    server.equal "extensionName" (utf8 w.toList) v = true

/-- An operation takes off markers with the synchroniser's prefixes alone, and puts on
markers of its own. -/
def OwnOp : Op → Prop
  | .clearMarker _ pre => pre ∈ ownPrefixes
  | .setMarker _ value => OwnMark value
  | .setRoleMarker _ value => OwnMark value
  | _ => True

omit [UnicodeTables] in
/-- A text begins with what it was made to begin with. -/
theorem startsWith_append (pre rest : String) : startsWith (pre ++ rest) pre = true := by
  unfold startsWith
  rw [String.toList_append]
  exact List.isPrefixOf_iff_prefix.mpr (List.prefix_append _ _)

/-- What a desired account gets is the synchroniser's own. -/
theorem liveUserOp_own {s : Scene} {cu : CurrentUser} {op : Op} (h : LiveUserOp s cu op) :
    OwnOp op := by
  cases h with
  | back => exact (by decide : stRetired ∈ ownPrefixes)
  | enable => trivial
  | disable => trivial
  | restore => trivial
  | login => trivial
  | principal => trivial
  | display => trivial
  | move => trivial

omit [UnicodeTables] in
/-- What a desired group gets is the synchroniser's own. -/
theorem liveGroupOp_own {cg : CurrentGroup} {op : Op} (h : LiveGroupOp cg op) : OwnOp op := by
  cases h with
  | back => exact (by decide : stQuar ∈ ownPrefixes)
  | move => trivial

/-- Marking the admission group is the synchroniser's own. -/
theorem admissionOps_own (s : Scene) (oid : Subject) (cg : CurrentGroup) :
    ∀ op ∈ admissionOps s oid cg, OwnOp op := by
  rcases admissionOps_cases s oid cg with hnil | ⟨_, _, hone⟩
  · rw [hnil]
    simp
  · rw [hone]
    exact List.forall_mem_singleton.mpr (Or.inl rfl)

/-- What an account that leaves gets is the synchroniser's own. -/
theorem leaveOps_own (s : Scene) (cu : CurrentUser) : ∀ op ∈ leaveOps s cu, OwnOp op := by
  unfold leaveOps
  refine List.forall_mem_append.mpr ⟨?_, ?_⟩
  · split
    · simp
    · simp only [List.forall_mem_cons, List.not_mem_nil, false_imp_iff, implies_true, and_true]
      exact ⟨trivial, Or.inr (Or.inr (Or.inl (startsWith_append _ _)))⟩
  · split
    · exact List.forall_mem_singleton.mpr (by decide : DeviceGrants.grantPrefix ∈ ownPrefixes)
    · simp

/-- What a group that leaves gets is the synchroniser's own. -/
theorem emptyOps_own (s : Scene) (cg : CurrentGroup) : ∀ op ∈ emptyOps s cg, OwnOp op := by
  unfold emptyOps
  split
  · simp
  · simp only [List.forall_mem_cons, List.not_mem_nil, false_imp_iff, implies_true, and_true]
    exact ⟨trivial, Or.inr (Or.inr (Or.inr (startsWith_append _ _)))⟩

omit [UnicodeTables] in
/-- Taking a role marker off is the synchroniser's own. -/
theorem clearOps_own {current : Current} {role : String} {oids : List Subject}
    (hrole : role ∈ ownPrefixes) : ∀ e ∈ clearOps current role oids, OwnOp e.op := by
  intro e he
  obtain ⟨oid, _, hfound⟩ := List.mem_filterMap.mp he
  obtain ⟨cg, _, rfl⟩ := Option.map_eq_some_iff.mp hfound
  exact hrole

/-- What a turn adds is the synchroniser's own. -/
theorem turnShape_own {s : Scene} {t : Turn} {es : List Planned} (h : TurnShape s t es) :
    ∀ e ∈ es, OwnOp e.op := by
  have hrename : ∀ (dn cn : String) (shown sam upn : Option String),
      OwnOp (.rename dn cn shown sam upn) := fun _ _ _ _ _ => trivial
  cases h with
  | idle => simp
  | create => exact List.forall_mem_map.mpr (by simp [OwnOp])
  | live _ _ hops => exact List.forall_mem_map.mpr fun op hop => liveUserOp_own (hops op hop)
  | leave _ _ _ hops =>
    refine List.forall_mem_map.mpr (List.forall_mem_append.mpr ⟨leaveOps_own s _, ?_⟩)
    rcases hops with ⟨_, rfl⟩ | ⟨cn, sam, rfl⟩
    · simp
    · exact List.forall_mem_singleton.mpr (hrename _ _ _ _ _)
  | createGroup => exact List.forall_mem_map.mpr (by simp [OwnOp])
  | liveGroup _ _ hops =>
    exact List.forall_mem_map.mpr (List.forall_mem_append.mpr
      ⟨fun op hop => liveGroupOp_own (hops op hop), admissionOps_own s _ _⟩)
  | leaveGroup _ _ _ hops =>
    refine List.forall_mem_map.mpr (List.forall_mem_append.mpr ⟨emptyOps_own s _, ?_⟩)
    rcases hops with ⟨_, rfl⟩ | ⟨cn, sam, rfl⟩
    · simp
    · exact List.forall_mem_singleton.mpr (hrename _ _ _ _ _)
  | grant dn _ =>
    refine List.forall_mem_append.mpr ⟨clearOps_own (by decide), ?_⟩
    unfold grantOps
    split
    · simp
    · exact List.forall_mem_map.mpr (List.forall_mem_singleton.mpr (Or.inr (Or.inl rfl)))
  | member gdn hops =>
    refine List.forall_mem_map.mpr fun op hop => ?_
    obtain ⟨m, rfl | rfl⟩ := hops op hop
    · trivial
    · trivial

/-- Every operation of a plan is the synchroniser's own. -/
theorem planned_own {desired : Desired} {current : Current} {ctx : PlanCtx} {p : Planning}
    (h : planning desired current ctx = .ok p) : ∀ e ∈ p.planned, OwnOp e.op :=
  planned_all h (clearOps_own (by decide)) fun _ _ _ hshape => turnShape_own hshape

/-- An object made by a creation of a list of operations: of its class, under its identity. -/
def MadeBy (ops : List Op) (e : Entry) : Prop :=
  ∃ cls identity, e.attrs "objectClass" = [cls] ∧
    e.attrs "msDS-ExternalDirectoryObjectId" = [identity] ∧
    ((∃ dn sam upn displayName enabled, cls = "user" ∧
        .createUser dn sam upn displayName enabled identity ∈ ops) ∨
      ∃ dn sam roleMarker, cls = "group" ∧ .createGroup dn sam identity roleMarker ∈ ops)

omit [UnicodeTables] in
/-- An object keeps its class and its identity, so a made one stays one. -/
theorem MadeBy.spared {loses gains : String → Prop} {ops : List Op} {e e' : Entry}
    (h : MadeBy ops e) (hspared : Spared loses gains e e') : MadeBy ops e' := by
  obtain ⟨cls, identity, hcls, hidentity, hop⟩ := h
  refine ⟨cls, identity, ?_, ?_, hop⟩
  · rw [hspared.others _ (by decide) (by decide), hcls]
  · rw [hspared.others _ (by decide) (by decide), hidentity]

omit [UnicodeTables] in
/-- The replacement of one attribute fits where the attribute does. -/
theorem replacing_fits {loses gains : String → Prop} {made : Entry → Prop} {dn attr : String}
    {value : Option String} (hwritten : attr ∈ writtenAttrs) (hother : attr ≠ "extensionName") :
    ∀ q ∈ replacing dn attr value, RequestFits server loses gains made q := by
  unfold replacing
  cases value with
  | none => simp
  | some v => exact List.forall_mem_singleton.mpr (Or.inr ⟨hwritten, hother⟩)

omit [UnicodeTables] in
/-- The requests of an own operation fit: what they make the operation creates, and what
they take off or put on is the synchroniser's own. -/
theorem requests_fit {ops : List Op} {op : Op} (hop : op ∈ ops) (hown : OwnOp op)
    {markers : List (String × List String)} {rs : List Request}
    (h : requests markers op = .ok rs) :
    ∀ q ∈ rs, RequestFits server (OwnValue server) OwnMark (MadeBy ops) q := by
  have hreplace : ∀ (dn attr : String) (values : List String), attr ∈ writtenAttrs →
      attr ≠ "extensionName" →
      RequestFits server (OwnValue server) OwnMark (MadeBy ops) (.modify dn (.replace attr values)) :=
    fun _ _ _ hwritten hother => Or.inr ⟨hwritten, hother⟩
  have hmember : "member" ∈ linkAttrs := by decide
  cases op with
  | createUser dn sam upn displayName enabled identity =>
    cases h
    refine List.forall_mem_singleton.mpr ⟨"user", identity, rfl, rfl, Or.inl ?_⟩
    exact ⟨dn, sam, upn, displayName, enabled, rfl, hop⟩
  | createGroup dn sam identity roleMarker =>
    cases roleMarker with
    | none =>
      cases h
      exact List.forall_mem_singleton.mpr
        ⟨"group", identity, rfl, rfl, Or.inr ⟨dn, sam, none, rfl, hop⟩⟩
    | some marker =>
      cases h
      refine List.forall_mem_cons.mpr ⟨trivial, List.forall_mem_singleton.mpr ?_⟩
      exact ⟨"group", identity, rfl, rfl, Or.inr ⟨dn, sam, some marker, rfl, hop⟩⟩
  | addMember dn member =>
    cases h
    exact List.forall_mem_singleton.mpr (Or.inl hmember)
  | removeMember dn member =>
    cases h
    exact List.forall_mem_singleton.mpr (Or.inl hmember)
  | enableUser dn =>
    cases h
    exact List.forall_mem_singleton.mpr (hreplace _ _ _ (by decide) (by decide))
  | disableUser dn =>
    cases h
    exact List.forall_mem_singleton.mpr (hreplace _ _ _ (by decide) (by decide))
  | rename dn newCn shown sam upn =>
    cases h
    refine List.forall_mem_append.mpr ⟨List.forall_mem_append.mpr ⟨?_, ?_⟩, ?_⟩
    · exact List.forall_mem_cons.mpr ⟨trivial, replacing_fits (by decide) (by decide)⟩
    · exact replacing_fits (by decide) (by decide)
    · exact replacing_fits (by decide) (by decide)
  | setAttr dn attr value =>
    unfold requests at h
    dsimp only at h
    split at h
    · rename_i hsettable
      cases h
      refine List.forall_mem_singleton.mpr (hreplace _ _ _ (List.mem_append_left _ hsettable) ?_)
      rintro rfl
      revert hsettable
      decide
    · cases h
  | setMarker dn value =>
    cases h
    exact List.forall_mem_singleton.mpr (Or.inr ⟨rfl, hown⟩)
  | setRoleMarker dn value =>
    cases h
    exact List.forall_mem_singleton.mpr (Or.inr ⟨rfl, hown⟩)
  | clearMarker dn pre =>
    unfold requests at h
    dsimp only at h
    split at h
    · cases h
      simp
    · cases h
      refine List.forall_mem_singleton.mpr (Or.inr ⟨rfl, ?_⟩)
      rintro v ⟨w, hw, hequal⟩
      unfold toDelete at hw
      exact ⟨pre, hown, w, (List.mem_filter.mp (List.mem_dedup.mp hw)).2, hequal⟩
  | clearMembers dn keep =>
    cases h
    exact List.forall_mem_singleton.mpr (Or.inl hmember)

/-- Whatever directory a plan is applied to, whatever becomes of its requests, at every
moment every object is still there, in its class and under its identity, with every
attribute that a plan does not write; it has lost no marker but such as the directory takes
for one with a prefix of the synchroniser's, and gained none but the synchroniser's own;
and every object that is new was made by a creation of the plan. -/
theorem apply_spares {desired : Desired} {current : Current} {ctx : PlanCtx} {plan : Plan}
    (h : planSync desired current ctx = .ok plan) (naming : Naming server) (idpOu : String)
    (markers : List (String × List String)) (fates : ℕ → ℕ → Fate String) (r : Realm server) :
    ∀ m ∈ momentsOf naming idpOu markers plan.ops fates r,
      Succeeds (Spared (OwnValue server) OwnMark) (MadeBy plan.ops) r.entries m.entries := by
  obtain ⟨p, hp, rfl⟩ := map_ok_iff.mp h
  refine moments_spared ?_ (fun _ _ hmade => hmade.spared) fates r
  intro op hop rs hrequests
  obtain ⟨e, he, rfl⟩ := List.mem_map.mp hop
  exact requests_fit hop (planned_own hp e he) hrequests

end Plans

/-- A server that compares as the plain one does, with names in a unit by their components. -/
noncomputable def unitServer : Server :=
  { BrokerDirectory.plainServer with
    within := fun dn base => @DistinguishedName.dnIsAtOrWithin asciiTables dn base }

/-- The unit of the sample. -/
def unitEntry : Entry :=
  ⟨"OU=idp,DC=x", fun attr => if attr = "objectClass" then ["organizationalUnit"] else [], fun _ => []⟩

/-- The directory of the sample. -/
noncomputable def unitRealm : Realm unitServer where
  entries := unitEntry :: sampleEntries
  distinct := by
    simp [sampleEntries, unitEntry, sampleObject, unitServer, BrokerDirectory.plainServer,
      eqIgnoreAsciiCase]
  backlinks := by
    intro e he g hg
    simp only [sampleEntries, List.mem_cons, List.not_mem_nil, or_false] at he
    rcases he with rfl | rfl | rfl | rfl | rfl
    all_goals
      simp [unitEntry, sampleObject] at hg

/-- A server gives a name when it still lies in the unit. -/
def unitNaming : Naming unitServer where
  named dn rdn :=
    let new := rdn ++ "," ++ parentOf dn
    if @DistinguishedName.dnIsAtOrWithin asciiTables new "OU=idp,DC=x" then some new else none

/-- The plan of the sample on its directory, with the first answer lost. -/
theorem apply_spares_sample : ∃ plan, @planSync asciiTables sampleDesired sampleCurrent sampleCtx =
    .ok plan ∧ plan.ops.length = 3 ∧
    ∀ m ∈ momentsOf unitNaming "OU=idp,DC=x" (markerIndex sampleCurrent) plan.ops
        (fun n _ => if n = 0 then .unanswered "timed out" else .answered) unitRealm,
      Succeeds (Spared (OwnValue unitServer) OwnMark) (MadeBy plan.ops) unitRealm.entries m.entries := by
  let _ := asciiTables
  obtain ⟨plan, hplan, hops⟩ := sample_planned
  exact ⟨plan, hplan, by rw [hops]; rfl, apply_spares hplan _ _ _ _ _⟩

end Kerbridge.ApplyFrame

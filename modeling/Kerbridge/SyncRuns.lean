import Kerbridge.ApplySteps
import Kerbridge.SyncCycle

/-!
# Runs of the synchroniser

The directory over many cycles, with what others do to it in between. A cycle never
gives a subject a second object: what a plan creates was not read, the read misses nothing
the source owns, and of two creations in one plan the subjects differ. This holds at every
moment, whatever requests are lost and whatever answers are.
-/

namespace Kerbridge.SyncRuns

open UnicodeText DirectorySource LdapFilter RealmDirectory RealmChanges RealmState StoredIdentity
  Attempts Planner PlanApply Succession ApplyFrame ApplySteps SyncCycle Fallible Runs
open SyncDirectory (sourceIdentity encodeIdentity ownIdentity first)
open DistinguishedName (dnIsAtOrWithin)

variable {server : Server}

/-- What a source owns in a directory, object by object. -/
def owned (source : Source) (entries : List Entry) : List Meant := entries.filterMap (meantBy source)

section Meaning

variable {source : Source}

/-- An object is owned by its identity and its class. -/
theorem meantBy_congr {e e' : Entry}
    (hid : e'.attrs "msDS-ExternalDirectoryObjectId" = e.attrs "msDS-ExternalDirectoryObjectId")
    (hclass : e'.attrs "objectClass" = e.attrs "objectClass") :
    meantBy source e' = meantBy source e := by
  unfold meantBy ownIdentity first
  rw [hid, hclass]

/-- A request of a plan that was carried out leaves an attribute that plans do not write. -/
theorem after_other {loses gains : String → Prop} {made : Entry → Prop} {naming : Naming server}
    {q : Request} {o o' : Entry} (h : After naming q o o')
    (hfits : RequestFits server loses gains made q) {attr : String} (hlink : attr ∉ linkAttrs)
    (hwritten : attr ∉ writtenAttrs) : o'.attrs attr = o.attrs attr := by
  rcases h.valued attr hlink with hsame | ⟨dn, c, rfl, rfl, _, _⟩
  · exact hsame
  · rcases fits_attr hfits with hc | hc
    · exact absurd hc hlink
    · exact absurd hc hwritten

/-- A request of a plan that was carried out leaves every object what it is. -/
theorem after_meant {loses gains : String → Prop} {made : Entry → Prop} {naming : Naming server}
    {q : Request} {o o' : Entry} (h : After naming q o o')
    (hfits : RequestFits server loses gains made q) :
    meantBy source o' = meantBy source o ∧ Classed server o' = Classed server o := by
  have hid := after_other h hfits (by decide : "msDS-ExternalDirectoryObjectId" ∉ linkAttrs)
    (by decide)
  have hclass := after_other h hfits (by decide : "objectClass" ∉ linkAttrs) (by decide)
  refine ⟨meantBy_congr hid hclass, ?_⟩
  unfold Classed
  rw [hclass]

/-- The identity an adapter encodes is read back as the source's, of that subject. -/
theorem ownIdentity_of_encoded {provider : SyncDirectory.Provider} {oid : Subject}
    {identity : String} (h : sourceIdentity provider source oid = .ok identity) {e : Entry}
    (he : e.attrs "msDS-ExternalDirectoryObjectId" = [identity]) :
    ∃ own, ownIdentity source e = some own ∧ own.2.subject = oid := by
  obtain ⟨id, hid, rfl⟩ := map_ok_iff.mp h
  have hmade : id.source = source ∧ id.subject = oid := by
    cases provider with
    | entra => exact (EntraToken.identity_ok hid).2
    | authentik => exact (AuthentikToken.identity_ok hid).2
  refine ⟨(id.encode, id), ?_, hmade.2⟩
  have hfirst : first e "msDS-ExternalDirectoryObjectId" = some id.encode := by
    unfold first
    rw [he]
    rfl
  unfold ownIdentity
  rw [hfirst]
  simp [ExternalIdentity.decode_of_encode, Except.toOption, hmade.1]

/-- An account that is read is owned as one, and read from its own values. -/
theorem ownUser_ok {e : Entry} {oid : Subject} {cu : CurrentUser}
    (h : ownUser source e = some (oid, cu)) :
    meantBy source e = some ⟨.user, oid⟩ ∧ ∃ identity, cu = SyncDirectory.readUser e identity := by
  unfold ownUser at h
  unfold meantBy
  cases hown : ownIdentity source e with
  | none =>
    rw [hown] at h
    cases h
  | some own =>
    rw [hown] at h
    dsimp only at h
    split at h
    · cases h
    · rename_i hclass
      cases h
      rw [Option.map_some, if_neg hclass]
      exact ⟨rfl, own.1, rfl⟩

/-- A group that is read is owned as one, and read from its own values. -/
theorem ownGroup_ok {membersOf : Entry → Except String (List String)} {e : Entry} {oid : Subject}
    {cg : CurrentGroup} (h : ownGroup source membersOf e = some (oid, cg)) :
    meantBy source e = some ⟨.group, oid⟩ ∧
      ∃ identity members, cg = SyncDirectory.readGroup e identity members := by
  unfold ownGroup at h
  unfold meantBy
  cases hown : ownIdentity source e with
  | none =>
    rw [hown] at h
    cases h
  | some own =>
    rw [hown] at h
    dsimp only at h
    split at h
    · rename_i hclass
      cases h
      rw [Option.map_some, if_pos hclass]
      exact ⟨rfl, own.1, _, rfl⟩
    · cases h

/-- An object that is owned as an account is read as one, and one owned as a group as one. -/
theorem read_of_meant {membersOf : Entry → Except String (List String)} {e : Entry} {who : Meant}
    (h : meantBy source e = some who) :
    (∃ cu, who.kind = .user ∧ ownUser source e = some (who.subject, cu)) ∨
      ∃ cg, who.kind = .group ∧ ownGroup source membersOf e = some (who.subject, cg) := by
  unfold meantBy at h
  obtain ⟨own, hown, rfl⟩ := Option.map_eq_some_iff.mp h
  unfold ownUser ownGroup
  rw [hown]
  dsimp only
  by_cases hclass : "group" ∈ e.attrs "objectClass"
  · exact Or.inr ⟨_, if_pos hclass, if_pos hclass⟩
  · exact Or.inl ⟨_, if_neg hclass, if_neg hclass⟩

end Meaning

section Running

variable [UnicodeTables]

/-- What the server of a source does with names in its unit, and with classes. -/
structure Rules (d : Deployment server) : Prop where
  /-- A name that is within the unit component by component is within it. -/
  within : ∀ dn, dnIsAtOrWithin dn d.idpOu = true → server.within dn d.idpOu = true
  /-- A new first component leaves an object of the unit in the unit. -/
  renamed : ∀ dn rdn new, d.naming.named dn rdn = some new → server.within dn d.idpOu = true →
    server.sameDn dn d.idpOu = false → server.within new d.idpOu = true
  user : server.equal "objectClass" (utf8 "user".toList) "user" = true
  group : server.equal "objectClass" (utf8 "group".toList) "group" = true

omit [UnicodeTables] in
/-- The unit is there and is no object of the source, and the source's objects are in it, in
the classes that are read. -/
structure Placed (d : Deployment server) (entries : List Entry) : Prop where
  unit : ∃ u ∈ entries, server.sameDn u.dn d.idpOu = true ∧ meantBy d.source u = none
  placed : ∀ e ∈ entries, meantBy d.source e ≠ none →
    server.within e.dn d.idpOu = true ∧ Classed server e = true

omit [UnicodeTables] in
/-- A directory in order: the source's objects are in their unit, and each subject has one at
most of each kind. -/
structure Orderly (d : Deployment server) (r : Realm server) : Prop extends Placed d r.entries where
  single : (owned d.source r.entries).Nodup

section Reading

variable {d : Deployment server} {c : Cycle} {r : Realm server} {current : Current}

/-- An account that was read is an object of the directory. -/
theorem user_read (h : readRealm d c r = .ok current) {oid : Subject} {cu : CurrentUser}
    (hcu : lookup current.users oid = some cu) :
    ∃ e ∈ r.entries, meantBy d.source e = some ⟨.user, oid⟩ ∧
      ∃ identity, cu = SyncDirectory.readUser e identity := by
  obtain ⟨entries, rfl, husers, _⟩ := readRealm_ok h
  have hmem := mem_of_lookup hcu
  rw [husers] at hmem
  obtain ⟨e, he, hown⟩ := List.mem_filterMap.mp hmem
  exact ⟨e, List.mem_of_mem_filter he, ownUser_ok hown⟩

/-- A group that was read is an object of the directory. -/
theorem group_read (h : readRealm d c r = .ok current) {oid : Subject} {cg : CurrentGroup}
    (hcg : lookup current.groups oid = some cg) :
    ∃ e ∈ r.entries, meantBy d.source e = some ⟨.group, oid⟩ ∧
      ∃ identity members, cg = SyncDirectory.readGroup e identity members := by
  obtain ⟨entries, rfl, _, hgroups⟩ := readRealm_ok h
  have hmem := mem_of_lookup hcg
  rw [hgroups] at hmem
  obtain ⟨e, he, hown⟩ := List.mem_filterMap.mp hmem
  exact ⟨e, List.mem_of_mem_filter he, ownGroup_ok hown⟩

/-- Nothing the source owns goes unread. -/
theorem owned_read (hr : Placed d r.entries) (h : readRealm d c r = .ok current) {who : Meant}
    (hwho : who ∈ owned d.source r.entries) :
    (who.kind = .user ∧ lookup current.users who.subject ≠ none) ∨
      who.kind = .group ∧ lookup current.groups who.subject ≠ none := by
  obtain ⟨e, he, hmeant⟩ := List.mem_filterMap.mp hwho
  obtain ⟨entries, rfl, husers, hgroups⟩ := readRealm_ok h
  have hread : e ∈ r.entries.filter fun e => server.within e.dn d.idpOu && Classed server e := by
    obtain ⟨hwithin, hclassed⟩ := hr.placed e he (by rw [hmeant]; simp)
    exact List.mem_filter.mpr ⟨he, by rw [hwithin, hclassed]; rfl⟩
  rcases @read_of_meant _ c.membersOf _ _ hmeant with ⟨cu, hkind, hown⟩ | ⟨cg, hkind, hown⟩
  · refine Or.inl ⟨hkind, ?_⟩
    obtain ⟨b, hb⟩ := lookup_isSome (husers ▸ List.mem_filterMap.mpr ⟨e, hread, hown⟩)
    simp [hb]
  · refine Or.inr ⟨hkind, ?_⟩
    obtain ⟨b, hb⟩ := lookup_isSome (hgroups ▸ List.mem_filterMap.mpr ⟨e, hread, hown⟩)
    simp [hb]

/-- A plan creates nothing the source owns already. -/
theorem creates_unowned (hr : Placed d r.entries) (h : readRealm d c r = .ok current) {e : Planned}
    (he : Creates current (planCtx d c) e) : e.about ∉ owned d.source r.entries := by
  intro howned
  rcases owned_read hr h howned with ⟨hkind, hsome⟩ | ⟨hkind, hsome⟩
  · cases he with
    | user _ _ _ _ _ hnone => exact hsome hnone
    | group => cases hkind
  · cases he with
    | user => cases hkind
    | group _ _ _ hnone => exact hsome hnone

/-- What a plan renames is an object of the source, under the name it was read with. -/
theorem moves_owned (h : readRealm d c r = .ok current) {e : Planned} (he : Moves current e) :
    ∃ o ∈ r.entries, meantBy d.source o = some e.about ∧ e.op.dn = o.dn := by
  cases he with
  | user hcu =>
    obtain ⟨o, ho, hmeant, identity, rfl⟩ := user_read h hcu
    exact ⟨o, ho, hmeant, rfl⟩
  | group hcg =>
    obtain ⟨o, ho, hmeant, identity, members, rfl⟩ := group_read h hcg
    exact ⟨o, ho, hmeant, rfl⟩

omit [UnicodeTables] in
/-- What is read of the objects of one kind is read once of each, in an orderly directory. -/
theorem read_once {β : Type} (hr : Orderly d r) (kind : Kind) {own : Entry → Option (Subject × β)}
    (hown : ∀ e oid b, own e = some (oid, b) → meantBy d.source e = some ⟨kind, oid⟩)
    {entries : List Entry} (hentries : entries.Sublist r.entries) :
    ((entries.filterMap own).map Prod.fst).Nodup := by
  have hmeant : (entries.filterMap fun e => (own e).map fun u => (⟨kind, u.1⟩ : Meant)).Sublist
      (owned d.source entries) := by
    refine filterMap_sublist fun e => ?_
    cases hu : own e with
    | none => exact Or.inl rfl
    | some u => exact Or.inr (hown e u.1 u.2 hu).symm
  have hnodup := hr.single.sublist (hmeant.trans (hentries.filterMap _))
  have hmap : (entries.filterMap fun e => (own e).map fun u => (⟨kind, u.1⟩ : Meant)) =
      ((entries.filterMap own).map Prod.fst).map fun oid => ⟨kind, oid⟩ := by
    rw [List.map_map, List.map_filterMap]
    rfl
  rw [hmap] at hnodup
  exact hnodup.of_map _

/-- In an orderly directory every account is read once. -/
theorem users_once (hr : Orderly d r) (h : readRealm d c r = .ok current) :
    (current.users.map Prod.fst).Nodup := by
  obtain ⟨entries, rfl, husers, _⟩ := readRealm_ok h
  rw [husers]
  exact read_once hr .user (fun _ _ _ hown => (ownUser_ok hown).1) List.filter_sublist

end Reading

section Cycles

variable {d : Deployment server} {c : Cycle} {r : Realm server} {current : Current}

/-- A plan that was made for a cycle, with the requests it is carried out by. -/
structure Carried (d : Deployment server) (c : Cycle) (r : Realm server) (current : Current)
    (p : Planning) : Prop where
  read : readRealm d c r = .ok current
  planning : planning c.desired current (planCtx d c) = .ok p

variable {p : Planning}

/-- A request of a cycle belongs to an operation of its plan, and fits. -/
theorem Carried.step (h : Carried d c r current p) {markers : List (String × List String)}
    {x : Planned × Request} (hx : x ∈ steps markers p.planned) :
    (∃ rs, requests markers x.1.op = .ok rs ∧ x.2 ∈ rs) ∧
      Addressed current (planCtx d c) x.1 ∧
      RequestFits server (OwnValue server) OwnMark (MadeBy (p.planned.map Planned.op)) x.2 := by
  obtain ⟨hplanned, rs, hrs, hmem⟩ := mem_steps hx
  refine ⟨⟨rs, hrs, hmem⟩, planned_addressed h.planning x.1 hplanned, ?_⟩
  exact requests_fit (List.mem_map.mpr ⟨x.1, hplanned, rfl⟩) (planned_own h.planning x.1 hplanned)
    hrs x.2 hmem

/-- What a creation of a plan makes is the source's, of the creation's subject, in the unit. -/
theorem made_meant (rules : Rules d) {e : Planned} (he : Creates current (planCtx d c) e)
    {markers : List (String × List String)} {rs : List Request}
    (hrs : requests markers e.op = .ok rs) {dn : String} {attrs : List (String × List String)}
    (hadd : .add dn attrs ∈ rs) : meantBy d.source (newEntry dn attrs) = some e.about ∧
      server.within dn d.idpOu = true ∧ Classed server (newEntry dn attrs) = true := by
  have hclassed : ∀ cls, cls = "user" ∨ cls = "group" →
      (newEntry dn attrs).attrs "objectClass" = [cls] → Classed server (newEntry dn attrs) = true := by
    intro cls hcls hattrs
    unfold Classed
    rw [hattrs, Bool.or_eq_true]
    rcases hcls with rfl | rfl
    · exact Or.inl (by simpa using rules.user)
    · exact Or.inr (by simpa using rules.group)
  have hmeant : ∀ {oid identity cls}, sourceIdentity d.provider d.source oid = .ok identity →
      (newEntry dn attrs).attrs "msDS-ExternalDirectoryObjectId" = [identity] →
      (newEntry dn attrs).attrs "objectClass" = [cls] →
      meantBy d.source (newEntry dn attrs) = some ⟨if "group" ∈ [cls] then .group else .user, oid⟩ := by
    intro oid identity cls hid hattrs hcls
    obtain ⟨own, hown, hsubject⟩ := ownIdentity_of_encoded hid hattrs
    unfold meantBy
    rw [hown, hcls, ← hsubject]
    rfl
  cases he with
  | user cn sam upn displayName enabled hnone hid hwithin =>
    cases hrs
    rw [List.mem_singleton, Request.add.injEq] at hadd
    obtain ⟨rfl, rfl⟩ := hadd
    exact ⟨hmeant hid rfl rfl, rules.within _ hwithin, hclassed _ (Or.inl rfl) rfl⟩
  | group cn sam roleMarker hnone hid hwithin =>
    cases roleMarker with
    | none =>
      cases hrs
      rw [List.mem_singleton, Request.add.injEq] at hadd
      obtain ⟨rfl, rfl⟩ := hadd
      exact ⟨hmeant hid rfl rfl, rules.within _ hwithin, hclassed _ (Or.inr rfl) rfl⟩
    | some marker =>
      cases hrs
      rw [List.mem_cons, List.mem_singleton] at hadd
      rcases hadd with hadd | hadd
      · cases hadd
      · rw [Request.add.injEq] at hadd
        obtain ⟨rfl, rfl⟩ := hadd
        exact ⟨hmeant hid rfl rfl, rules.within _ hwithin, hclassed _ (Or.inr rfl) rfl⟩

/-- The directory after some of the requests of a plan: everything stands where it should,
and the source owns what it did and what those requests made. -/
structure Grown (d : Deployment server) (r : Realm server) (pre : List (Planned × Request))
    (s : Realm server) : Prop extends Placed d s.entries where
  grown : ∃ made, owned d.source s.entries = owned d.source r.entries ++ made ∧
    made.Sublist (pre.filterMap madeBy)

variable {pre : List (Planned × Request)} {x : Planned × Request} {s s' : Realm server}
  {markers : List (String × List String)} {rs : List Request}

omit [UnicodeTables] in
/-- What one request more makes. -/
theorem makes_concat (pre : List (Planned × Request)) (x : Planned × Request) :
    (pre ++ [x]).filterMap madeBy = pre.filterMap madeBy ++ (madeBy x).toList := by
  rw [List.filterMap_append, List.filterMap_cons]
  cases madeBy x with
  | none => rfl
  | some _ => rfl

omit [UnicodeTables] in
/-- What some requests may have made, they may have made with one more. -/
theorem makes_sublist_concat {made : List Meant} (h : made.Sublist (pre.filterMap madeBy)) :
    made.Sublist ((pre ++ [x]).filterMap madeBy) := by
  rw [makes_concat]
  exact h.trans (List.sublist_append_left _ _)

/-- The creation of an object that was not read. -/
theorem Grown.created (rules : Rules d) (hs : Grown d r pre s)
    (hcreates : Creates current (planCtx d c) x.1) (hrs : requests markers x.1.op = .ok rs)
    (hmem : x.2 ∈ rs) {dn : String} {attrs : List (String × List String)} (hadd : x.2 = .add dn attrs)
    (hs' : s'.entries = s.entries ++ [newEntry dn attrs]) : Grown d r (pre ++ [x]) s' := by
  obtain ⟨made, howned, hmade⟩ := hs.grown
  obtain ⟨hmeant, hwithin, hclassed⟩ := made_meant rules hcreates hrs (hadd ▸ hmem)
  refine ⟨⟨?_, ?_⟩, made ++ [x.1.about], ?_, ?_⟩
  · obtain ⟨u, hu, hunit, hnone⟩ := hs.unit
    exact ⟨u, by rw [hs']; exact List.mem_append_left _ hu, hunit, hnone⟩
  · rw [hs']
    refine List.forall_mem_append.mpr ⟨hs.placed, List.forall_mem_singleton.mpr fun _ => ?_⟩
    exact ⟨hwithin, hclassed⟩
  · unfold owned at howned ⊢
    rw [hs', List.filterMap_append, howned, List.append_assoc]
    simp [hmeant]
  · have hone : madeBy x = some x.1.about := by
      unfold madeBy
      rw [hadd]
    rw [makes_concat, hone]
    exact hmade.append (List.Sublist.refl _)

/-- A change in place: only an object of the source is renamed, and it stays in the unit. -/
theorem Grown.changed (rules : Rules d) (hr : Placed d r.entries) (h : Carried d c r current p)
    (hs : Grown d r pre s) (hx : x ∈ steps markers p.planned) {f : Entry → Entry}
    (hs' : s'.entries = s.entries.map f) (hafter : ∀ o ∈ s.entries, After d.naming x.2 o (f o)) :
    Grown d r (pre ++ [x]) s' := by
  obtain ⟨⟨rs, hrs, hmem⟩, haddressed, hfits⟩ := h.step hx
  obtain ⟨made, howned, hmade⟩ := hs.grown
  have hsame : ∀ o ∈ s.entries, meantBy d.source (f o) = meantBy d.source o ∧
      Classed server (f o) = Classed server o := fun o ho => after_meant (hafter o ho) hfits
  have hnamed : ∀ o ∈ s.entries, (f o).dn = o.dn ∨ ∃ e ∈ r.entries,
      meantBy d.source e ≠ none ∧ server.sameDn o.dn e.dn = true ∧
        ∃ rdn, d.naming.named o.dn rdn = some (f o).dn := by
    intro o ho
    rcases (hafter o ho).named with hdn | ⟨dn, rdn, hq, haddress, hnew⟩
    · exact Or.inl hdn
    · obtain ⟨cn, shown, sam, upn, hop⟩ := (requests_mem hrs hmem).2 dn rdn hq
      have hmoves : Moves current x.1 := haddressed.of_rename (by rw [hop]; simp [Op.move])
      obtain ⟨e, he, hmeant, hdn⟩ := moves_owned h.read hmoves
      rw [hop] at hdn
      refine Or.inr ⟨e, he, by rw [hmeant]; simp, ?_, rdn, hnew⟩
      rw [← hdn]
      exact haddress
  have hunit : ∀ e ∈ r.entries, meantBy d.source e ≠ none →
      server.sameDn e.dn d.idpOu = false := by
    intro e he hmeant
    obtain ⟨u, hu, hunit, hnone⟩ := hr.unit
    rw [Bool.eq_false_iff]
    intro hdn
    rw [r.eq_of_sameDn he hu (server.sameDn_of_common _ _ _ hdn hunit)] at hmeant
    exact hmeant hnone
  have howned' : owned d.source s'.entries = owned d.source s.entries := by
    unfold owned
    rw [hs', List.filterMap_map]
    exact List.filterMap_congr fun o ho => (hsame o ho).1
  refine ⟨⟨?_, ?_⟩, made, howned'.trans howned, makes_sublist_concat hmade⟩
  · obtain ⟨u, hu, hdn, hnone⟩ := hs.unit
    refine ⟨f u, by rw [hs']; exact List.mem_map_of_mem hu, ?_, ((hsame u hu).1.trans hnone)⟩
    rcases hnamed u hu with hkeeps | ⟨e, he, hmeant, hue, _⟩
    · rw [hkeeps]
      exact hdn
    · have hbad := hunit e he hmeant
      rw [sameDn_comm] at hue
      rw [sameDn_trans hue hdn] at hbad
      cases hbad
  · intro o' ho' hmeant
    rw [hs'] at ho'
    obtain ⟨o, ho, rfl⟩ := List.mem_map.mp ho'
    obtain ⟨hmeant', hclassed⟩ := hsame o ho
    rw [hmeant'] at hmeant
    obtain ⟨hwithin, hclass⟩ := hs.placed o ho hmeant
    refine ⟨?_, hclassed.trans hclass⟩
    rcases hnamed o ho with hkeeps | ⟨e, he, hmeant, hoe, rdn, hnew⟩
    · rw [hkeeps]
      exact hwithin
    · refine rules.renamed o.dn rdn _ hnew hwithin ?_
      rw [sameDn_congr hoe]
      exact hunit e he hmeant

/-- Every request of a plan leaves everything where it should stand, and makes what its
operation creates. -/
theorem cycle_advances (rules : Rules d) (hr : Placed d r.entries) (h : Carried d c r current p)
    (markers : List (String × List String)) :
    Advances (service d.naming d.idpOu) Prod.snd (steps markers p.planned) (Grown d r) := by
  intro pre x post hall s hs
  have hx : x ∈ steps markers p.planned := by simp [hall]
  obtain ⟨made, howned, hmade⟩ := hs.grown
  refine ⟨⟨hs.toPlaced, made, howned, makes_sublist_concat hmade⟩, ?_⟩
  intro s' hmake
  rcases make_after hmake with ⟨dn, attrs, hadd, _, hs'⟩ | ⟨f, hs', hafter⟩
  · obtain ⟨⟨rs, hrs, hmem⟩, haddressed, _⟩ := h.step hx
    have hcreates : Creates current (planCtx d c) x.1 :=
      haddressed.of_creates ((requests_mem hrs hmem).1 dn attrs hadd)
    exact hs.created rules hcreates hrs hmem hadd hs'
  · exact hs.changed rules hr h hx hs' hafter

/-- A directory is in order at every moment of a cycle that starts in order. -/
theorem cycle_orderly (rules : Rules d) (hr : Orderly d r) (c : Cycle) :
    ∀ m ∈ cycleMoments d c r, Orderly d m := by
  rcases cycleMoments_cases d c r with hsame | ⟨current, plan, hread, hplan, hmoments⟩
  · rw [hsame]
    exact List.forall_mem_singleton.mpr hr
  · obtain ⟨p, hp, rfl⟩ := map_ok_iff.mp hplan
    have hcarried : Carried d c r current p := ⟨hread, hp⟩
    have hstart : Grown d r [] r := ⟨hr.toPlaced, [], (List.append_nil _).symm, List.Sublist.refl _⟩
    rw [hmoments]
    intro m hm
    obtain ⟨done, hdone, hm⟩ := moments_after (cycle_advances rules hr.toPlaced hcarried _)
      c.fates hstart m hm
    obtain ⟨made, howned, hmade⟩ := hm.grown
    have hmakes : made.Sublist ((steps (markerIndex current) p.planned).filterMap madeBy) :=
      hmade.trans (hdone.sublist.filterMap _)
    refine ⟨hm.toPlaced, ?_⟩
    rw [howned]
    refine List.nodup_append.mpr ⟨hr.single, ?_, ?_⟩
    · exact (planned_makes_nodup hp).sublist (hmakes.trans (steps_makes _))
    · rintro who hwho _ hnew rfl
      obtain ⟨x, hx, hxmade⟩ := List.mem_filterMap.mp (hmakes.subset hnew)
      obtain ⟨⟨rs, hrs, hmem⟩, haddressed, _⟩ := hcarried.step hx
      unfold madeBy at hxmade
      split at hxmade
      · rename_i dn attrs hadd
        cases hxmade
        exact creates_unowned hr.toPlaced hread
          (haddressed.of_creates ((requests_mem hrs hmem).1 dn attrs hadd)) hwho
      · cases hxmade

end Cycles

/-- What happens to the directory: a cycle, or something others do to it. -/
inductive Event (server : Server) where
  | cycle (c : Cycle)
  | outside (r : Realm server)

/-- The directory after an event. -/
def next (d : Deployment server) (r : Realm server) : Event server → Realm server
  | .cycle c => (reconcile d c r).1
  | .outside r' => r'

/-- The directory at every moment of an event. -/
def moments (d : Deployment server) (r : Realm server) : Event server → List (Realm server)
  | .cycle c => cycleMoments d c r
  | .outside r' => [r']

omit [UnicodeTables] in
/-- What others may do to the objects of a source: anything but take them out of the unit or
out of their classes, or make one for a subject. -/
structure Meanwhile (d : Deployment server) (r r' : Realm server) : Prop
    extends Placed d r'.entries where
  fewer : ∀ who, (owned d.source r'.entries).count who ≤ (owned d.source r.entries).count who

/-- What others do in a run is what they may do. -/
def Undisturbed (d : Deployment server) (r : Realm server) (event : Event server) : Prop :=
  ∀ r', event = .outside r' → Meanwhile d r r'

/-- An event leaves a directory in order. -/
theorem event_orderly {d : Deployment server} (rules : Rules d) (r : Realm server)
    (event : Event server) (hr : Orderly d r) (h : Undisturbed d r event) :
    (∀ m ∈ moments d r event, Orderly d m) ∧ Orderly d (next d r event) := by
  cases event with
  | cycle c =>
    have hmoments := cycle_orderly rules hr c
    exact ⟨hmoments, hmoments _ (reconcile_last d c r)⟩
  | outside r' =>
    have hr' : Orderly d r' := by
      refine ⟨(h r' rfl).toPlaced, List.nodup_iff_count_le_one.mpr fun who => ?_⟩
      exact ((h r' rfl).fewer who).trans (List.nodup_iff_count_le_one.mp hr.single who)
    exact ⟨List.forall_mem_singleton.mpr hr', hr'⟩

/-- In every run of cycles, whatever requests are lost, refused or carried out without an
answer, and whatever others do to the directory in between short of taking the source's
objects out of their place or making one, every object of the source stands in its unit at
every moment, and no subject ever has two of one kind. -/
theorem run_orderly {d : Deployment server} (rules : Rules d) {r : Realm server} (hr : Orderly d r)
    {events : List (Event server)} (h : Everywhere (next d) (Undisturbed d) r events) :
    Everywhere (next d) (fun r event => ∀ m ∈ moments d r event, Orderly d m) r events :=
  (everywhere_of_invariant (event_orderly rules) hr h).1

end Running

/-- The unit of the sample with its source. -/
def unitDeployment : Deployment unitServer where
  naming := unitNaming
  provider := .entra
  source := sampleOwner
  idpOu := "OU=idp,DC=x"
  baseDn := "DC=x"
  upnSuffix := "x"
  groupSuffix := ""
  suffixAccepted := PlannerNames.emptySuffix_accepted
  automaticSamRenames := false

/-- A cycle that reads the sample from its IdP, with the first answer lost. -/
def unitCycle : @Cycle asciiTables :=
  let _ := asciiTables
  { desired := sampleDesired
    admission := sampleAdmission
    now := "now"
    membersOf := fun _ => .ok []
    fates := fun n _ => if n = 0 then .unanswered "timed out" else .answered }

/-- The server of the sample keeps the rules. -/
theorem unitRules : @Rules unitServer asciiTables unitDeployment := by
  refine @Rules.mk unitServer asciiTables unitDeployment ?_ ?_ ?_ ?_
  · exact fun _ h => h
  · intro dn rdn new hnamed _ _
    unfold unitDeployment unitNaming at hnamed
    dsimp only at hnamed
    split at hnamed
    · rename_i hwithin
      cases hnamed
      exact hwithin
    · cases hnamed
  · simp [unitServer, BrokerDirectory.plainServer]
  · simp [unitServer, BrokerDirectory.plainServer]

/-- What the source of the sample owns. -/
theorem unitRealm_owned : owned sampleOwner unitRealm.entries =
    [⟨.group, sampleAdmission⟩, ⟨.user, sampleStayer⟩, ⟨.user, "a,bc"⟩] := by
  decide +kernel

/-- The directory of the sample is in order. -/
theorem unitRealm_orderly : Orderly unitDeployment unitRealm := by
  refine ⟨⟨⟨unitEntry, List.mem_cons_self, ?_, ?_⟩, ?_⟩, ?_⟩
  · simp [unitServer, unitDeployment, unitEntry, BrokerDirectory.plainServer, eqIgnoreAsciiCase]
  · decide
  · intro e he hmeant
    rcases List.mem_cons.mp he with rfl | he
    · exact absurd (by decide) hmeant
    · refine ⟨@Searched.within asciiTables _ _ sampleEntries_searched e he, ?_⟩
      have hclasses : ∀ e ∈ sampleEntries,
          e.attrs "objectClass" = ["user"] ∨ e.attrs "objectClass" = ["group"] := by decide
      have hclass := hclasses e he
      rcases hclass with hclass | hclass
      · simp [Classed, hclass, unitServer, BrokerDirectory.plainServer]
      · simp [Classed, hclass, unitServer, BrokerDirectory.plainServer]
  · change (owned sampleOwner unitRealm.entries).Nodup
    rw [unitRealm_owned]
    decide

/-- Two cycles of the sample, after others left its directory as it is. -/
noncomputable def unitRun : List (@Event asciiTables unitServer) :=
  let _ := asciiTables
  [.outside unitRealm, .cycle unitCycle, .cycle unitCycle]

/-- Nothing disturbs the run of the sample. -/
theorem unitRun_undisturbed : Everywhere (@next unitServer asciiTables unitDeployment)
    (@Undisturbed unitServer asciiTables unitDeployment) unitRealm unitRun := by
  let _ := asciiTables
  refine ⟨?_, ?_, ?_, trivial⟩
  · intro r' h
    cases h
    exact ⟨unitRealm_orderly.toPlaced, fun _ => Nat.le_refl _⟩
  · intro r' h
    cases h
  · intro r' h
    cases h

/-- Both cycles of the sample, each with an answer lost, keep its directory in order. -/
theorem run_orderly_sample : Everywhere (@next unitServer asciiTables unitDeployment)
    (fun r event => ∀ m ∈ @moments unitServer asciiTables unitDeployment r event,
      Orderly unitDeployment m) unitRealm unitRun :=
  @run_orderly unitServer asciiTables unitDeployment unitRules unitRealm unitRealm_orderly unitRun
    unitRun_undisturbed

end Kerbridge.SyncRuns

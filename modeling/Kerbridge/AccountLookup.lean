import Kerbridge.BrokerDirectory

/-!
# What the broker's directory reads decide

Each read of the broker, as a statement about the entries of the directory: one
object alone answers a search, a role is held by one group alone, and membership
is transitive. The filters are read back as the queries they mean.
-/

namespace Kerbridge.BrokerDirectory

open UnicodeText StoredIdentity DeviceGrants LdapFilter RealmDirectory RealmState Fallible

variable {server : Server}

/-- An object has a value that the server takes for the asserted one. -/
def Has (server : Server) (e : Entry) (attr value : String) : Prop :=
  ∃ v ∈ e.attrs attr, server.equal attr (utf8 value.toList) v = true

/-- What an object carries when a target names it. -/
def Target.Names (server : Server) (e : Entry) : Target → Prop
  | .identity id => Has server e "msDS-ExternalDirectoryObjectId" id.encode
  | .sam name => Has server e "objectClass" "user" ∧ Has server e "sAMAccountName" name

/-- One object alone below a base has a property. -/
def Sole (r : Realm server) (base : String) (p : Entry → Prop) (e : Entry) : Prop :=
  (e ∈ r.entries ∧ server.within e.dn base = true ∧ p e) ∧
    ∀ o ∈ r.entries, server.within o.dn base = true → p o → o = e

/-- The one group under the source's unit that carries a role marker. -/
def RoleGroup (d : Directory) (r : Realm server) (marker : String) (g : Entry) : Prop :=
  Sole r d.roleBaseDn (fun o => Has server o "extensionName" marker) g

/-- An object is in the one group that carries a role marker, through any nesting. -/
def InRole (d : Directory) (r : Realm server) (marker : String) (e : Entry) : Prop :=
  ∃ g, RoleGroup d r marker g ∧ Relation.TransGen (MemberOf r.entries) e.dn g.dn

/-- A caller is in a marked group that a target lists, through any nesting. -/
def Delegates (r : Realm server) (caller target : Entry) : Prop :=
  ∃ dn ∈ target.attrs "managedObjects",
    (∃ g ∈ r.entries, server.sameDn g.dn dn = true ∧
      Has server g "extensionName" roleDelegates) ∧
    Relation.TransGen (MemberOf r.entries) caller.dn dn

/-- An object reads as an enabled account with every attribute an account needs. -/
structure Usable (e : Entry) (a : Account) : Prop where
  enabled : ∃ text uac, one e "userAccountControl" = some text ∧
    parseUnsigned (0x100000000) text = some uac ∧ uac &&& ufAccountDisable = 0
  sid : decodeSidAttr (e.binAttrs "objectSid") (e.attrs "objectSid") = some a.sid
  samAccountName : one e "sAMAccountName" = some a.samAccountName
  identity : one e "msDS-ExternalDirectoryObjectId" = some a.identity
  dn : a.dn = e.dn
  managedObjects : a.managedObjects = e.attrs "managedObjects"
  grants : a.grants =
    (e.attrs "extensionName").filterMap fun v => (DeviceGrant.decode v).toOption

/-- An entry is read as an account exactly when it is a usable one. -/
theorem readAccount_ok_iff {e : Entry} {a : Account} :
    readAccount e = .ok a ↔ Usable e a := by
  simp only [readAccount, bind_ok_iff, refuse_ok_iff, require_ok_iff, ne_eq, not_not]
  constructor
  · rintro ⟨text, huac, uac, hnum, hflag, sid, hsid, sam, hsam, identity, hid, h⟩
    cases h
    exact ⟨⟨text, uac, huac, hnum, hflag⟩, hsid, hsam, hid, rfl, rfl, rfl⟩
  · rintro ⟨⟨text, uac, huac, hnum, hflag⟩, hsid, hsam, hid, hdn, hmanaged, hgrants⟩
    refine ⟨text, huac, uac, hnum, hflag, a.sid, hsid, a.samAccountName, hsam, a.identity, hid, ?_⟩
    rw [← hdn, ← hmanaged, ← hgrants]
    rfl

/-- A search below a base finds one entry when one alone passes. -/
theorem filter_eq_singleton_iff (r : Realm server) {p : Entry → Bool} {e : Entry} :
    r.entries.filter p = [e] ↔
      (e ∈ r.entries ∧ p e = true) ∧ ∀ o ∈ r.entries, p o = true → o = e := by
  have hnodup := r.nodup.filter p
  constructor
  · intro h
    have hmem : ∀ o, o ∈ r.entries.filter p ↔ o = e := by simp [h]
    refine ⟨List.mem_filter.mp ((hmem e).mpr rfl), ?_⟩
    intro o ho hp
    exact (hmem o).mp (List.mem_filter.mpr ⟨ho, hp⟩)
  · rintro ⟨⟨he, hpe⟩, hall⟩
    have hperm : (r.entries.filter p).Perm [e] := by
      rw [List.perm_ext_iff_of_nodup hnodup (List.pairwise_singleton _ e)]
      intro o
      rw [List.mem_filter, List.mem_singleton]
      constructor
      · rintro ⟨ho, hp⟩
        exact hall o ho hp
      · rintro rfl
        exact ⟨he, hpe⟩
    exact List.perm_singleton.mp hperm

/-- A query passed by exactly the objects with a property finds the sole one. -/
theorem search_subtree_iff (r : Realm server) {q : Query} (hq : ∀ i ∈ q.items, i.Named)
    {p : Entry → Prop} (hp : ∀ o, q.filter.holds (r.answers o) = true ↔ p o) (base : String)
    {e : Entry} :
    r.search base .subtree (q.render escapeLdapFilterValue) = .ok [e] ↔ Sole r base p e := by
  rw [r.search_query hq, Except.ok.injEq, filter_eq_singleton_iff]
  simp only [Bool.and_eq_true, hp, Sole, and_imp]

/-- The query of a role marker. -/
def markerQuery (marker : String) : Query := .item ⟨"extensionName", none, marker⟩

/-- The item of membership through any nesting. -/
def chainItem (group : String) : Item := ⟨"memberOf", some inChainRule, group⟩

/-- The query of a target. -/
def Target.query : Target → Query
  | .identity id => .item ⟨"msDS-ExternalDirectoryObjectId", none, id.encode⟩
  | .sam name => .all [⟨"objectClass", none, "user"⟩, ⟨"sAMAccountName", none, name⟩]

/-- The marker filter is the text of its query. -/
theorem markerFilter_eq (marker : String) :
    markerFilter marker = (markerQuery marker).render escapeLdapFilterValue := rfl

/-- The membership filter is the text of its item. -/
theorem chainFilter_eq (group : String) :
    chainFilter group = (chainItem group).render escapeLdapFilterValue := by
  apply String.toList_injective
  simp [chainFilter, chainItem, Item.render, Item.header]

/-- The filter of a target that is an identity. -/
theorem Target.ldapFilter_identity (id : ExternalIdentity) :
    Target.ldapFilter (.identity id) = id.ldapFilter := by
  delta Target.ldapFilter
  dsimp only

/-- The filter of a target that is a login name. -/
theorem Target.ldapFilter_sam (name : String) :
    Target.ldapFilter (.sam name) =
      "(&(objectClass=user)(sAMAccountName=" ++ escapeLdapFilterValue name ++ "))" := by
  delta Target.ldapFilter
  dsimp only

/-- A target's filter is the text of its query. -/
theorem Target.ldapFilter_eq (t : Target) :
    t.ldapFilter = t.query.render escapeLdapFilterValue := by
  cases t with
  | identity id =>
    have hhead : "(" ++ "msDS-ExternalDirectoryObjectId" ++ "=" =
        "(msDS-ExternalDirectoryObjectId=" := by decide
    rw [Target.ldapFilter_identity, Target.query, Query.render, Item.render, Item.header, hhead]
    unfold ExternalIdentity.ldapFilter
    rfl
  | sam name =>
    have huser : (escapeLdapFilterValue "user").toList = "user".toList := by
      simp [escapeLdapFilterValue, escapeFilterChar]
    rw [Target.ldapFilter_sam]
    apply String.toList_injective
    simp only [Target.query, Query.render, Item.render, Item.header, List.map_cons, List.map_nil,
      String.join_cons, String.join_nil, String.toList_append, huser]
    simp

/-- A target's query holds of the objects the target names. -/
theorem Target.holds_query (r : Realm server) (t : Target) (e : Entry) :
    t.query.filter.holds (r.answers e) = true ↔ t.Names server e := by
  cases t with
  | identity id =>
    simp [Target.query, Query.filter, Item.holds_filter, Realm.answers, Target.Names, Has]
  | sam name =>
    simp [Target.query, Query.filter, Item.holds_filter, Realm.answers, Target.Names, Has,
      Filter.holds, allHold]

/-- Every item of a target's query is named by program text. -/
theorem Target.query_named (t : Target) : ∀ i ∈ t.query.items, i.Named := by
  intro i hi
  cases t with
  | identity id =>
    rw [Target.query, Query.items, List.mem_singleton] at hi
    subst hi
    exact Item.named_equality (by decide) _
  | sam name =>
    simp only [Target.query, Query.items, List.mem_cons, List.not_mem_nil, or_false] at hi
    rcases hi with rfl | rfl
    · exact Item.named_equality (by decide) _
    · exact Item.named_equality (by decide) _

/-- A marker's query holds of the objects that carry the marker. -/
theorem holds_markerQuery (r : Realm server) (marker : String) (e : Entry) :
    (markerQuery marker).filter.holds (r.answers e) = true ↔
      Has server e "extensionName" marker := by
  simp [markerQuery, Query.filter, Item.holds_filter, Realm.answers, Has]

/-- The item of a marker's query is named by program text. -/
theorem markerQuery_named (marker : String) : ∀ i ∈ (markerQuery marker).items, i.Named := by
  intro i hi
  rw [markerQuery, Query.items, List.mem_singleton] at hi
  subst hi
  exact Item.named_equality (by decide) _

/-- The item of nested membership is named by program text. -/
theorem chainItem_named (group : String) : (chainItem group).Named := by
  refine ⟨⟨by simp only [chainItem]; decide, by simp [chainItem]⟩, ?_⟩
  intro rule hrule
  simp only [chainItem, Option.mem_def, Option.some.injEq] at hrule
  subst hrule
  decide

/-- The item of nested membership holds of the objects in the group. -/
theorem holds_chainItem (r : Realm server) (group : String) (e : Entry) :
    r.answers e (chainItem group).attr (chainItem group).rule
      [utf8 (chainItem group).value.toList] = true ↔
      Relation.TransGen (MemberOf r.entries) e.dn group := by
  rw [← server.inChain_iff]
  simp [chainItem, Realm.answers]

/-- A role names the one group that carries its marker, and else is refused. -/
theorem roleDn_ok_iff (d : Directory) (r : Realm server) {marker dn : String} :
    roleDn d r marker = .ok dn ↔ ∃ g, RoleGroup d r marker g ∧ g.dn = dn := by
  have hone : ∀ g, _ ↔ RoleGroup d r marker g := fun g =>
    search_subtree_iff r (markerQuery_named marker) (holds_markerQuery r marker) d.roleBaseDn
  have hsearch := r.search_query (markerQuery_named marker) d.roleBaseDn
  unfold roleDn
  rw [markerFilter_eq]
  rw [hsearch] at hone ⊢
  cases hes : r.entries.filter fun e => server.within e.dn d.roleBaseDn &&
      (markerQuery marker).filter.holds (r.answers e) with
  | nil =>
    rw [hes] at hone
    constructor
    · intro h
      cases h
    · rintro ⟨g, hg, _⟩
      have h := (hone g).mpr hg
      simp at h
  | cons g gs =>
    rw [hes] at hone
    cases gs with
    | nil =>
      constructor
      · intro h
        exact ⟨g, (hone g).mp rfl, Except.ok.inj h⟩
      · rintro ⟨o, ho, hdn⟩
        have h := (hone o).mpr ho
        simp only [Except.ok.injEq, List.cons.injEq, and_true] at h
        subst h
        exact congrArg Except.ok hdn
    | cons g' gs =>
      constructor
      · intro h
        cases h
      · rintro ⟨o, ho, _⟩
        have h := (hone o).mpr ho
        simp at h

/-- What a base search for membership of one group answers. -/
theorem search_chainFilter (r : Realm server) {e : Entry} (he : e ∈ r.entries) (group : String) :
    r.search e.dn .base (chainFilter group) =
      .ok (if r.answers e (chainItem group).attr (chainItem group).rule
        [utf8 (chainItem group).value.toList] then [e] else []) := by
  have hnamed : ∀ i ∈ (Query.item (chainItem group)).items, i.Named := by
    intro i hi
    rw [Query.items, List.mem_singleton] at hi
    exact hi ▸ chainItem_named group
  have h := r.search_base hnamed he (server.sameDn_self e.dn)
  rw [Query.filter, Item.holds_filter, Query.render] at h
  rw [chainFilter_eq]
  exact h

/-- An object is found in a role group exactly when it is in the one that carries
the marker. -/
theorem inRoleGroup_true_iff (d : Directory) (r : Realm server) {e : Entry} (he : e ∈ r.entries)
    {marker : String} : inRoleGroup d r e.dn marker = .ok true ↔ InRole d r marker e := by
  have hanswer : ∀ group, (answered "role-group membership search was refused"
      (r.search e.dn .base (chainFilter group)) >>= fun entries =>
        (pure (!entries.isEmpty) : Except LookupError Bool)) = .ok true ↔
      Relation.TransGen (MemberOf r.entries) e.dn group := by
    intro group
    rw [search_chainFilter r he, ← holds_chainItem r group e]
    cases r.answers e (chainItem group).attr (chainItem group).rule
      [utf8 (chainItem group).value.toList] with
    | false => simp [answered, bind, Except.bind, pure, Except.pure]
    | true => simp [answered, bind, Except.bind, pure, Except.pure]
  unfold inRoleGroup
  rw [bind_ok_iff]
  simp only [hanswer, roleDn_ok_iff]
  constructor
  · rintro ⟨_, ⟨g, hg, rfl⟩, h⟩
    exact ⟨g, hg, h⟩
  · rintro ⟨g, hg, h⟩
    exact ⟨g.dn, ⟨g, hg, rfl⟩, h⟩

/-- The checks on the one object a search found. -/
theorem admit_ok_iff (d : Directory) (r : Realm server) {e : Entry} (he : e ∈ r.entries)
    (needGrantGroup : Bool) {a : Account} :
    (do
      let account ← readAccount e
      if !(← inRoleGroup d r e.dn roleAdmission) then
        .error (.denied .notAdmitted)
      else if needGrantGroup then
        if !(← inRoleGroup d r e.dn roleDeviceGrant) then .error (.denied .notGranted)
        else .ok account
      else .ok account) = .ok a ↔
      Usable e a ∧ InRole d r roleAdmission e ∧
        (needGrantGroup = true → InRole d r roleDeviceGrant e) := by
  simp only [bind_ok_iff, refuse_ok_iff, Bool.not_eq_true', Bool.not_eq_false,
    readAccount_ok_iff]
  constructor
  · rintro ⟨b, hb, admitted, hin, rfl, h⟩
    cases needGrantGroup with
    | false =>
      cases h
      exact ⟨hb, (inRoleGroup_true_iff d r he).mp hin, by simp⟩
    | true =>
      simp only [if_true, bind_ok_iff, refuse_ok_iff, Bool.not_eq_false] at h
      obtain ⟨granted, hgrant, rfl, h⟩ := h
      cases h
      exact ⟨hb, (inRoleGroup_true_iff d r he).mp hin,
        fun _ => (inRoleGroup_true_iff d r he).mp hgrant⟩
  · rintro ⟨hb, hin, hgrant⟩
    refine ⟨a, hb, true, (inRoleGroup_true_iff d r he).mpr hin, rfl, ?_⟩
    cases needGrantGroup with
    | false => rfl
    | true =>
      have hok := (inRoleGroup_true_iff d r he).mpr (hgrant rfl)
      simp only [if_true, bind_ok_iff, refuse_ok_iff, Bool.not_eq_false]
      exact ⟨true, hok, by simp⟩

/-- A lookup yields an account exactly when one object alone is named, it reads as
that account, and it is in every group that is asked for. -/
theorem findAccount_ok_iff (d : Directory) (r : Realm server) (t : Target)
    (needGrantGroup : Bool) {a : Account} :
    findAccount d r t.ldapFilter needGrantGroup = .ok a ↔
      ∃ e, Sole r d.baseDn (fun o => t.Names server o) e ∧ Usable e a ∧
        InRole d r roleAdmission e ∧
        (needGrantGroup = true → InRole d r roleDeviceGrant e) := by
  have hone : ∀ e, _ ↔ Sole r d.baseDn (fun o => t.Names server o) e := fun e =>
    search_subtree_iff r t.query_named (t.holds_query r) d.baseDn
  have hsearch := r.search_query t.query_named d.baseDn
  unfold findAccount
  rw [t.ldapFilter_eq]
  rw [hsearch] at hone ⊢
  cases hes : r.entries.filter fun e => server.within e.dn d.baseDn &&
      t.query.filter.holds (r.answers e) with
  | nil =>
    rw [hes] at hone
    constructor
    · intro h
      cases h
    · rintro ⟨e, he, _⟩
      have h := (hone e).mpr he
      simp at h
  | cons e es =>
    rw [hes] at hone
    cases es with
    | cons e' es =>
      constructor
      · intro h
        cases h
      · rintro ⟨o, ho, _⟩
        have h := (hone o).mpr ho
        simp at h
    | nil =>
      have hsole := (hone e).mp rfl
      have hadmit := admit_ok_iff d r hsole.1.1 needGrantGroup (a := a)
      constructor
      · intro h
        exact ⟨e, hsole, hadmit.mp h⟩
      · rintro ⟨o, ho, h⟩
        rw [hsole.2 o ho.1.1 ho.1.2.1 ho.1.2.2] at h
        exact hadmit.mpr h

end Kerbridge.BrokerDirectory

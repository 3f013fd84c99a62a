import Kerbridge.AccountLookup

/-!
# The device-request authorization rule

Which account a device request may act on, as a statement about the directory:
the target resolves with every device-grant check, the caller with admission
alone, and the two are one object or the caller is a delegate of the target.
-/

namespace Kerbridge.BrokerDirectory

open UnicodeText StoredIdentity DeviceGrants LdapFilter RealmDirectory RealmState Fallible

variable {server : Server}

/-- A name is one entry's exactly when two objects are one. -/
theorem eqIgnoreAsciiCase_iff (r : Realm server) {a b : Entry} (ha : a ∈ r.entries)
    (hb : b ∈ r.entries) : eqIgnoreAsciiCase a.dn b.dn = true ↔ a = b := by
  constructor
  · intro h
    exact r.eq_of_sameDn ha hb (server.sameDn_of_case _ _ h)
  · rintro rfl
    simp [eqIgnoreAsciiCase]

/-- The marked groups of a list of existing groups are found, in order. -/
theorem delegateGroups_ok (r : Realm server) {managed : List String}
    (h : ∀ dn ∈ managed, ∃ g ∈ r.entries, server.sameDn g.dn dn = true) :
    ∃ groups, delegateGroups r managed = .ok groups ∧
      ∀ dn, dn ∈ groups ↔ dn ∈ managed ∧ ∃ g ∈ r.entries, server.sameDn g.dn dn = true ∧
        Has server g "extensionName" roleDelegates := by
  induction managed with
  | nil => exact ⟨[], rfl, by simp⟩
  | cons dn managed ih =>
    obtain ⟨groups, hgroups, hmem⟩ := ih fun o ho => h o (List.mem_cons_of_mem _ ho)
    obtain ⟨g, hg, hdn⟩ := h dn List.mem_cons_self
    have hsearch := r.search_base (markerQuery_named roleDelegates) hg hdn
    have hcarries := holds_markerQuery r roleDelegates g
    have hsole : (∃ o ∈ r.entries, server.sameDn o.dn dn = true ∧
        Has server o "extensionName" roleDelegates) ↔
          Has server g "extensionName" roleDelegates := by
      constructor
      · rintro ⟨o, ho, hodn, hmarked⟩
        rwa [r.eq_of_sameDn ho hg (server.sameDn_of_common _ _ _ hodn hdn)] at hmarked
      · intro hmarked
        exact ⟨g, hg, hdn, hmarked⟩
    unfold delegateGroups
    rw [markerFilter_eq, hsearch, hgroups]
    cases hholds : (markerQuery roleDelegates).filter.holds (r.answers g) with
    | true =>
      have hmarked := hcarries.mp hholds
      refine ⟨dn :: groups, rfl, ?_⟩
      intro o
      rw [List.mem_cons, List.mem_cons, hmem, or_and_right]
      constructor
      · rintro (rfl | ho)
        · exact Or.inl ⟨rfl, hsole.mpr hmarked⟩
        · exact Or.inr ho
      · rintro (⟨rfl, _⟩ | ho)
        · exact Or.inl rfl
        · exact Or.inr ho
    | false =>
      have hmarked : ¬ Has server g "extensionName" roleDelegates := by
        rw [← hcarries, hholds]
        decide
      refine ⟨groups, rfl, ?_⟩
      intro o
      rw [List.mem_cons, hmem, or_and_right]
      constructor
      · exact Or.inr
      · rintro (⟨rfl, ho⟩ | ho)
        · exact absurd (hsole.mp ho) hmarked
        · exact ho

/-- The delegate question is answered: whether the caller is in a marked group
that the target lists. -/
theorem isDelegate_ok (r : Realm server) {caller target : Entry} (hc : caller ∈ r.entries)
    (ht : target ∈ r.entries) :
    ∃ b, isDelegate r caller.dn (target.attrs "managedObjects") = .ok b ∧
      (b = true ↔ Delegates r caller target) := by
  obtain ⟨groups, hgroups, hmem⟩ := delegateGroups_ok r (r.backlinks target ht)
  have hdelegates : Delegates r caller target ↔
      ∃ dn ∈ groups, Relation.TransGen (MemberOf r.entries) caller.dn dn := by
    simp only [hmem, Delegates, and_assoc]
  have hfilter : "(|" ++ String.join (groups.map chainFilter) ++ ")" =
      (Query.any (groups.map chainItem)).render escapeLdapFilterValue := by
    rw [Query.render, List.map_map]
    congr 3
  have hnamed : ∀ i ∈ (Query.any (groups.map chainItem)).items, i.Named := by
    intro i hi
    obtain ⟨group, _, rfl⟩ := List.mem_map.mp hi
    exact chainItem_named group
  have hholds : (Query.any (groups.map chainItem)).filter.holds (r.answers caller) = true ↔
      Delegates r caller target := by
    rw [hdelegates, Query.filter, Filter.holds, anyHolds_items]
    simp only [List.any_map, List.any_eq_true, Function.comp_apply, holds_chainItem]
  have hsearch := r.search_base hnamed hc (server.sameDn_self caller.dn)
  unfold isDelegate
  rw [hgroups]
  cases hempty : groups.isEmpty with
  | true =>
    rw [List.isEmpty_iff] at hempty
    refine ⟨false, by simp [hempty, bind, Except.bind, pure, Except.pure], ?_⟩
    rw [hdelegates, hempty]
    simp
  | false =>
    refine ⟨(Query.any (groups.map chainItem)).filter.holds (r.answers caller), ?_, hholds⟩
    simp only [bind, Except.bind, hempty, hfilter, hsearch]
    cases (Query.any (groups.map chainItem)).filter.holds (r.answers caller) <;> rfl

/-- Two accounts read from the directory are one object exactly when one entry was
read. -/
theorem sameObject_iff (r : Realm server) {c t : Entry} (hc : c ∈ r.entries) (ht : t ∈ r.entries)
    {a b : Account} (ha : Usable c a) (hb : Usable t b) : sameObject a b = true ↔ c = t := by
  unfold sameObject
  rw [ha.dn, hb.dn]
  exact eqIgnoreAsciiCase_iff r hc ht

/-- The verdict permits the target itself, and a delegate of it. -/
theorem verdict_ok_iff {a b account : Account} {delegated : Bool} :
    (∃ delegate, (verdict a b delegated).mapError LookupError.denied = .ok ⟨account, delegate⟩) ↔
      b = account ∧ (sameObject a b = true ∨ delegated = true) := by
  simp only [mapError_ok_iff, verdict]
  cases hs : sameObject a b with
  | true => simp
  | false =>
    cases delegated with
    | true => simp
    | false => simp

/-- Between two objects, the verdict permits exactly one object or a delegate. -/
theorem delegation_ok (r : Realm server) {c t : Entry} (hc : c ∈ r.entries) (ht : t ∈ r.entries)
    {a b : Account} (ha : Usable c a) (hb : Usable t b) :
    ∃ delegated, delegation r a b = .ok delegated ∧
      ((sameObject a b = true ∨ delegated = true) ↔ (c = t ∨ Delegates r c t)) := by
  have hsame := sameObject_iff r hc ht ha hb
  unfold delegation
  by_cases hct : c = t
  · refine ⟨false, by simp [hsame.mpr hct], ?_⟩
    simp [hsame.mpr hct, hct]
  · have hdiffer : sameObject a b = false := by simpa [hct] using hsame
    obtain ⟨answer, hanswer, hiff⟩ := isDelegate_ok r hc ht
    refine ⟨answer, by simp [hdiffer, ha.dn, hb.managedObjects, hanswer], ?_⟩
    simp [hdiffer, hct, hiff]

/-- A caller and a target the authorization rule permits, and the account that is
acted on. -/
def Permitted (d : Directory) (r : Realm server) (caller : ExternalIdentity) (target : Target)
    (account : Account) : Prop :=
  ∃ c t, (Sole r d.baseDn (fun o => Target.Names server o (.identity caller)) c ∧
      (∃ a, Usable c a) ∧ InRole d r roleAdmission c) ∧
    (Sole r d.baseDn (fun o => target.Names server o) t ∧ Usable t account ∧
      InRole d r roleAdmission t ∧ InRole d r roleDeviceGrant t) ∧
    (c = t ∨ Delegates r c t)

/-- A request for a named account is authorized exactly when the rule permits it. -/
theorem authorize_some_iff (d : Directory) (r : Realm server) {caller : ExternalIdentity}
    {target : Target} {account : Account} :
    (∃ delegate, authorize d r caller (some target) = .ok ⟨account, delegate⟩) ↔
      Permitted d r caller target account := by
  unfold authorize
  rw [← Target.ldapFilter_identity caller]
  simp only [bind_ok_iff, findAccount_ok_iff]
  constructor
  · rintro ⟨delegate, a, ⟨c, hc, hca, hcin, _⟩, b, ⟨t, ht, htb, htin, htgrant⟩, answer, hd, hv⟩
    obtain ⟨delegated, hdelegated, hrule⟩ := delegation_ok r hc.1.1 ht.1.1 hca htb
    rw [hdelegated, Except.ok.injEq] at hd
    subst hd
    obtain ⟨rfl, hallowed⟩ := verdict_ok_iff.mp ⟨delegate, hv⟩
    exact ⟨c, t, ⟨hc, ⟨a, hca⟩, hcin⟩, ⟨ht, htb, htin, htgrant trivial⟩, hrule.mp hallowed⟩
  · rintro ⟨c, t, ⟨hc, ⟨a, hca⟩, hcin⟩, ⟨ht, htb, htin, htgrant⟩, hallowed⟩
    obtain ⟨delegated, hdelegated, hrule⟩ := delegation_ok r hc.1.1 ht.1.1 hca htb
    obtain ⟨delegate, hv⟩ := verdict_ok_iff.mpr ⟨rfl, hrule.mpr hallowed⟩
    exact ⟨delegate, a, ⟨c, hc, hca, hcin, by simp⟩, account,
      ⟨t, ht, htb, htin, fun _ => htgrant⟩, delegated, hdelegated, hv⟩

/-- A request with no target is a request for the caller's own identity. -/
theorem authorize_none_iff (d : Directory) (r : Realm server) {caller : ExternalIdentity}
    {account : Account} :
    (∃ delegate, authorize d r caller none = .ok ⟨account, delegate⟩) ↔
      Permitted d r caller (.identity caller) account := by
  unfold authorize
  rw [← Target.ldapFilter_identity caller]
  simp only [bind_ok_iff, findAccount_ok_iff]
  constructor
  · rintro ⟨delegate, b, ⟨t, ht, htb, htin, htgrant⟩, hv⟩
    cases hv
    exact ⟨t, t, ⟨ht, ⟨account, htb⟩, htin⟩, ⟨ht, htb, htin, htgrant trivial⟩, Or.inl rfl⟩
  · rintro ⟨_, t, _, ⟨ht, htb, htin, htgrant⟩, _⟩
    exact ⟨none, account, ⟨t, ht, htb, htin, fun _ => htgrant⟩, rfl⟩

/-- Why a device request is turned down before anything is written. -/
inductive Refusal where
  /-- The target is spelled in no way the broker reads. -/
  | malformed (why : String)
  | lookup (why : LookupError)

/-- A role is marked on no group under the source's unit, or on several. -/
def RoleUnsettled (d : Directory) (r : Realm server) (marker : String) : Prop :=
  (∀ g ∈ r.entries, server.within g.dn d.roleBaseDn = true →
      ¬ Has server g "extensionName" marker) ∨
    ∃ g ∈ r.entries, ∃ g' ∈ r.entries, g ≠ g' ∧
      (server.within g.dn d.roleBaseDn = true ∧ Has server g "extensionName" marker) ∧
      server.within g'.dn d.roleBaseDn = true ∧ Has server g' "extensionName" marker

/-- Nobody is in a role that is not settled. -/
theorem not_inRole_of_unsettled {d : Directory} {r : Realm server} {marker : String}
    (h : RoleUnsettled d r marker) (e : Entry) : ¬ InRole d r marker e := by
  rintro ⟨g, ⟨⟨hg, hwithin, hhas⟩, hsole⟩, _⟩
  rcases h with hnone | ⟨a, ha, b, hb, hne, ⟨haw, hah⟩, hbw, hbh⟩
  · exact hnone g hg hwithin hhas
  · exact hne ((hsole a ha haw hah).trans (hsole b hb hbw hbh).symm)

/-- The filter a target is searched by is read as equality with the target's value,
whatever characters that value holds. -/
theorem parse_ldapFilter (t : Target) :
    parse t.ldapFilter = some (match t with
      | .sam name => .all [.item "objectClass" none [utf8 "user".toList],
          .item "sAMAccountName" none [utf8 name.toList]]
      | .identity id => .item "msDS-ExternalDirectoryObjectId" none [utf8 id.encode.toList]) := by
  rw [t.ldapFilter_eq, parse_render escaping_escapeLdapFilterValue t.query_named]
  cases t with
  | sam name => rfl
  | identity id => rfl

section Request

variable [UnicodeTables]

/-- The directory decision on a device request: the target is parsed, then the
request is authorized. -/
def deviceRequest (d : Directory) (r : Realm server) (caller : ExternalIdentity)
    (target : Option String) : Except Refusal Authorized :=
  match target with
  | none => (authorize d r caller none).mapError .lookup
  | some text => do
    let target ← (Target.parse text).mapError .malformed
    (authorize d r caller (some target)).mapError .lookup

/-- The target a request names: the caller's own identity when it names none. -/
def Requests (caller : ExternalIdentity) (target : Option String) (t : Target) : Prop :=
  match target with
  | none => t = .identity caller
  | some text => Target.parse text = .ok t

/-- A device request is decided by the authorization rule on the target it names. -/
theorem deviceRequest_ok_iff (d : Directory) (r : Realm server) {caller : ExternalIdentity}
    {target : Option String} {account : Account} :
    (∃ delegate, deviceRequest d r caller target = .ok ⟨account, delegate⟩) ↔
      ∃ t, Requests caller target t ∧ Permitted d r caller t account := by
  cases target with
  | none =>
    simp only [deviceRequest, mapError_ok_iff, authorize_none_iff, Requests, exists_eq_left]
  | some text =>
    simp only [deviceRequest, Requests, bind_ok_iff, mapError_ok_iff, ← authorize_some_iff]
    constructor
    · rintro ⟨delegate, t, ht, h⟩
      exact ⟨t, ht, delegate, h⟩
    · rintro ⟨t, ht, delegate, h⟩
      exact ⟨delegate, t, ht, h⟩

/-- A text that is a target is a stored identity, or a login name as it stands
between its outer blanks. -/
theorem parse_ok {text : String} {t : Target} (h : Target.parse text = .ok t) :
    t = .sam (trim text) ∨
      ∃ id, t = .identity id ∧ ExternalIdentity.decode (trim text) = .ok id := by
  unfold Target.parse at h
  simp only [refuse_ok_iff] at h
  obtain ⟨_, h⟩ := h
  split at h
  · right
    cases hid : ExternalIdentity.decode (trim text) with
    | error e => simp [hid] at h
    | ok id =>
      simp only [hid, Except.ok.injEq] at h
      exact ⟨id, h.symm, rfl⟩
  · left
    obtain ⟨_, h⟩ := refuse_ok_iff.mp h
    exact (Except.ok.inj h).symm

/-- The device-request rule. An account is yielded exactly when the request's target
names one object alone that reads as that account and is in both role groups, and
the caller's identity names one object alone that is an account and admitted, and
the two are one object or the caller is a delegate. A role on no group, or on
several, refuses every request. A target is searched by equality with its trimmed
text, or with the stored form of the identity it spells, and with nothing else. -/
theorem device_request_rule (d : Directory) (r : Realm server) (caller : ExternalIdentity)
    (target : Option String) :
    (∀ account, (∃ delegate, deviceRequest d r caller target = .ok ⟨account, delegate⟩) ↔
      ∃ t, Requests caller target t ∧ Permitted d r caller t account) ∧
    (RoleUnsettled d r roleAdmission ∨ RoleUnsettled d r roleDeviceGrant →
      ∀ authorized, deviceRequest d r caller target ≠ .ok authorized) ∧
    ∀ text t, Target.parse text = .ok t →
      (t = .sam (trim text) ∧ parse t.ldapFilter =
        some (.all [.item "objectClass" none [utf8 "user".toList],
          .item "sAMAccountName" none [utf8 (trim text).toList]])) ∨
      ∃ id, t = .identity id ∧ ExternalIdentity.decode (trim text) = .ok id ∧
        parse t.ldapFilter =
          some (.item "msDS-ExternalDirectoryObjectId" none [utf8 id.encode.toList]) := by
  refine ⟨fun account => deviceRequest_ok_iff d r, ?_, ?_⟩
  · rintro hroles ⟨account, delegate⟩ hok
    obtain ⟨t, _, c, o, _, ⟨_, _, hin, hgrant⟩, _⟩ :=
      (deviceRequest_ok_iff d r).mp ⟨delegate, hok⟩
    rcases hroles with hrole | hrole
    · exact not_inRole_of_unsettled hrole o hin
    · exact not_inRole_of_unsettled hrole o hgrant
  · intro text t h
    rcases parse_ok h with rfl | ⟨id, rfl, hid⟩
    · exact Or.inl ⟨rfl, parse_ldapFilter _⟩
    · exact Or.inr ⟨id, rfl, hid, parse_ldapFilter _⟩

end Request

section Unlinked

open Classical in
/-- A server that compares values and names character by character. -/
noncomputable def plainServer : Server where
  equal _ value stored := decide (value = utf8 stored.toList)
  fits _ _ _ := false
  sameDn := eqIgnoreAsciiCase
  within dn base := base.toList.isSuffixOf dn.toList
  inChain entries dn group := decide (∃ g : String, utf8 g.toList = group ∧
    Relation.TransGen (MemberOf entries) dn g)
  sameDn_of_case := fun _ _ h => h
  sameDn_of_common := by
    intro a b c hac hbc
    simp only [eqIgnoreAsciiCase, decide_eq_true_eq] at hac hbc ⊢
    exact hac.trans hbc.symm
  inChain_iff := by
    intro entries dn group
    rw [decide_eq_true_eq]
    constructor
    · rintro ⟨g, hg, h⟩
      rwa [← String.toList_injective (utf8_injective hg)]
    · intro h
      exact ⟨group, rfl, h⟩

/-- On the plain server an object has the values it lists. -/
theorem has_plainServer_iff {e : Entry} {attr value : String} :
    Has plainServer e attr value ↔ value ∈ e.attrs attr := by
  have hequal : ∀ stored : String, plainServer.equal attr (utf8 value.toList) stored = true ↔
      value = stored := by
    intro stored
    change decide (utf8 value.toList = utf8 stored.toList) = true ↔ _
    rw [decide_eq_true_eq]
    constructor
    · intro h
      exact String.toList_injective (utf8_injective h)
    · rintro rfl
      rfl
  simp [Has, hequal]

/-- An entry from its security identifiers and a list of its text attributes. -/
def listed (dn : String) (sids : List (List UInt8)) (attrs : List (String × List String)) :
    Entry where
  dn := dn
  attrs := fun name => (attrs.lookup name).getD []
  binAttrs := fun name => if name = "objectSid" then sids else []

/-- An enabled user in both role groups that carries no identity. -/
def unlinked : Entry :=
  listed "CN=b,O" [[1, 1, 0, 0, 0, 0, 0, 5, 19, 0, 0, 0]] [("objectClass", ["user"]), ("sAMAccountName", ["b"]),
    ("userAccountControl", ["512"]), ("memberOf", ["CN=r,O", "CN=g,O"]),
    ("managedObjects", ["CN=d,O"])]

/-- An admitted user in the delegate group of the other one. -/
def asking : Entry :=
  listed "CN=a,O" [[1, 1, 0, 0, 0, 0, 0, 5, 18, 0, 0, 0]] [("objectClass", ["user"]), ("sAMAccountName", ["a"]),
    ("userAccountControl", ["512"]), ("msDS-ExternalDirectoryObjectId", ["kb1|s|a"]),
    ("memberOf", ["CN=r,O", "CN=d,O"])]

/-- A group that carries one marker. -/
def roleEntry (dn marker : String) : Entry := listed dn [] [("extensionName", [marker])]

/-- The two users, the role groups and the delegate group. -/
def unlinkedEntries : List Entry :=
  [unlinked, asking, roleEntry "CN=r,O" roleAdmission, roleEntry "CN=g,O" roleDeviceGrant,
    roleEntry "CN=d,O" roleDelegates]

/-- The directory that holds them. -/
noncomputable def unlinkedRealm : Realm plainServer where
  entries := unlinkedEntries
  distinct := by
    simp [unlinkedEntries, plainServer, unlinked, asking, roleEntry, listed, eqIgnoreAsciiCase]
  backlinks := by
    intro e he g hg
    refine ⟨roleEntry "CN=d,O" roleDelegates, by simp [unlinkedEntries], ?_⟩
    have hd : g = "CN=d,O" := by
      simp only [unlinkedEntries, List.mem_cons, List.not_mem_nil, or_false] at he
      rcases he with rfl | rfl | rfl | rfl | rfl
      · simpa [unlinked, listed, List.lookup_cons] using hg
      all_goals
        simp [asking, roleEntry, listed, List.lookup_cons] at hg
    rw [hd]
    exact plainServer.sameDn_self _

/-- One source's view of that directory. -/
def unlinkedDirectory : Directory := ⟨"O", "O"⟩

/-- The identity of the asking user. -/
def askingIdentity : ExternalIdentity := ⟨⟨"s", by decide⟩, "a", by decide, by decide⟩

/-- A caller and a target with everything the rule speaks of, and the request is
refused: the target, named by its login name, carries no identity. -/
theorem device_request_refuses_unlinked :
    (Sole unlinkedRealm "O" (fun o => Target.Names plainServer o (.sam "b")) unlinked ∧
      (∃ uac, (one unlinked "userAccountControl").bind (parseUnsigned (0x100000000)) = some uac ∧
        uac &&& ufAccountDisable = 0) ∧
      InRole unlinkedDirectory unlinkedRealm roleAdmission unlinked ∧
      InRole unlinkedDirectory unlinkedRealm roleDeviceGrant unlinked) ∧
    (Sole unlinkedRealm "O" (fun o => Target.Names plainServer o (.identity askingIdentity))
        asking ∧
      (∃ account, Usable asking account) ∧
      InRole unlinkedDirectory unlinkedRealm roleAdmission asking) ∧
    Delegates unlinkedRealm asking unlinked ∧
    ∀ authorized, @deviceRequest _ asciiTables unlinkedDirectory unlinkedRealm askingIdentity
      (some "b") ≠ .ok authorized := by
  have hmember : ∀ e ∈ unlinkedEntries, ∀ g ∈ e.attrs "memberOf",
      Relation.TransGen (MemberOf unlinkedRealm.entries) e.dn g := by
    intro e he g hg
    exact Relation.TransGen.single ⟨e, he, rfl, hg⟩
  have hrole : ∀ marker dn, roleEntry dn marker ∈ unlinkedEntries →
      plainServer.within dn "O" = true →
      (∀ o ∈ unlinkedEntries, marker ∈ o.attrs "extensionName" → o = roleEntry dn marker) →
      RoleGroup unlinkedDirectory unlinkedRealm marker (roleEntry dn marker) := by
    intro marker dn hg hwithin hsole
    refine ⟨⟨hg, hwithin, ?_⟩, ?_⟩
    · simp [has_plainServer_iff, roleEntry, listed, List.lookup_cons]
    · intro o ho _ hhas
      exact hsole o ho (has_plainServer_iff.mp hhas)
  have hadmission := hrole roleAdmission "CN=r,O" (by simp [unlinkedEntries]) (by decide) (by
    simp [unlinkedEntries, unlinked, asking, roleEntry, listed, List.lookup_cons, roleAdmission,
      roleDeviceGrant, roleDelegates])
  have hgrant := hrole roleDeviceGrant "CN=g,O" (by simp [unlinkedEntries]) (by decide) (by
    simp [unlinkedEntries, unlinked, asking, roleEntry, listed, List.lookup_cons, roleAdmission,
      roleDeviceGrant, roleDelegates])
  have hunlinked : Sole unlinkedRealm "O" (fun o => Target.Names plainServer o (.sam "b"))
      unlinked := by
    refine ⟨⟨List.mem_cons_self, by decide, ?_⟩, ?_⟩
    · simp [Target.Names, has_plainServer_iff, unlinked, listed, List.lookup_cons]
    · intro o ho _ hnames
      simp only [unlinkedRealm, unlinkedEntries, List.mem_cons, List.not_mem_nil, or_false] at ho
      rcases ho with rfl | rfl | rfl | rfl | rfl
      · rfl
      all_goals
        simp [Target.Names, has_plainServer_iff, asking, roleEntry, listed,
          List.lookup_cons] at hnames
  have hasking : Sole unlinkedRealm "O"
      (fun o => Target.Names plainServer o (.identity askingIdentity)) asking := by
    have hencode : askingIdentity.encode = "kb1|s|a" := by decide
    refine ⟨⟨List.mem_cons_of_mem _ List.mem_cons_self, by decide, ?_⟩, ?_⟩
    · simp [Target.Names, has_plainServer_iff, hencode, asking, listed, List.lookup_cons]
    · intro o ho _ hnames
      simp only [unlinkedRealm, unlinkedEntries, List.mem_cons, List.not_mem_nil, or_false] at ho
      rcases ho with rfl | rfl | rfl | rfl | rfl
      · simp [Target.Names, has_plainServer_iff, unlinked, listed, List.lookup_cons] at hnames
      · rfl
      all_goals
        simp [Target.Names, has_plainServer_iff, roleEntry, listed, List.lookup_cons] at hnames
  have hin : ∀ e ∈ unlinkedEntries, ∀ marker dn,
      RoleGroup unlinkedDirectory unlinkedRealm marker (roleEntry dn marker) →
      dn ∈ e.attrs "memberOf" → InRole unlinkedDirectory unlinkedRealm marker e := by
    intro e he marker dn hgroup hg
    exact ⟨_, hgroup, hmember e he dn hg⟩
  have husable : Usable asking ⟨"S-1-5-18", "a", "kb1|s|a", "CN=a,O", [], []⟩ := by
    refine ⟨⟨"512", 512, ?_, ?_, ?_⟩, ?_, ?_, ?_, rfl, ?_, ?_⟩ <;> decide
  refine ⟨⟨hunlinked, ⟨512, by decide, by decide⟩, ?_, ?_⟩,
    ⟨hasking, ⟨_, husable⟩, ?_⟩, ?_, ?_⟩
  · exact hin _ hunlinked.1.1 _ _ hadmission (by simp [unlinked, listed, List.lookup_cons])
  · exact hin _ hunlinked.1.1 _ _ hgrant (by simp [unlinked, listed, List.lookup_cons])
  · exact hin _ hasking.1.1 _ _ hadmission (by simp [asking, listed, List.lookup_cons])
  · refine ⟨"CN=d,O", by simp [unlinked, listed, List.lookup_cons], ⟨roleEntry "CN=d,O" roleDelegates,
      by simp [unlinkedRealm, unlinkedEntries], plainServer.sameDn_self _, ?_⟩, ?_⟩
    · simp [has_plainServer_iff, roleEntry, listed, List.lookup_cons]
    · exact hmember _ hasking.1.1 _ (by simp [asking, listed, List.lookup_cons])
  · rintro ⟨account, delegate⟩ hok
    let _ := asciiTables
    obtain ⟨t, ht, c, o, _, ⟨ho, husable, _⟩, _⟩ :=
      (deviceRequest_ok_iff unlinkedDirectory unlinkedRealm).mp ⟨delegate, hok⟩
    have hparse : Target.parse "b" = .ok (.sam "b") := rfl
    have hname : t = .sam "b" := by
      have hboth := hparse.symm.trans ht
      exact (Except.ok.inj hboth).symm
    subst hname
    obtain rfl : o = unlinked := hunlinked.2 o ho.1.1 ho.1.2.1 ho.1.2.2
    have hid := husable.identity
    simp [one, unlinked, listed, List.lookup_cons] at hid

end Unlinked

end Kerbridge.BrokerDirectory

import Kerbridge.AccountLookup
import Kerbridge.DeviceRequestRule
import Kerbridge.DoctorReport

/-!
# Where the doctor and the broker agree

Two walks of one authorization chain: the doctor's over a snapshot, by first matches,
and the broker's over searches that demand exactly one match. They agree on nesting
and on placement; they part where something answers twice, or is spelled otherwise.
-/

namespace Kerbridge.Doctor

open UnicodeText StoredIdentity LdapFilter DistinguishedName RealmState RealmDirectory
open BrokerDirectory ConfigSet Relation

section Directory

variable {server : Server}

/-- An entry is one of the users and groups under the IdP parent unit. -/
def IsCloud (server : Server) (snap : Snapshot) (e : Entry) : Prop :=
  server.within e.dn snap.cloudIdpOu = true ∧
    (Has server e "objectClass" "user" ∨ Has server e "objectClass" "group")

/-- A snapshot holds every object and every group of a directory, in any order. -/
structure Holds (snap : Snapshot) (r : Realm server) : Prop where
  cloud : ∀ o, o ∈ snap.cloud ↔ ∃ e ∈ r.entries, IsCloud server snap e ∧ o = cloudObject e
  resource : ∀ g ∈ snap.resources,
    ∃ e ∈ r.entries, Has server e "objectClass" "group" ∧ g = resourceGroup e
  group : ∀ e ∈ r.entries, Has server e "objectClass" "group" →
    IsCloud server snap e ∨ resourceGroup e ∈ snap.resources

/-- What a server keeps true of the membership links, and of values and itself. -/
structure Linked (r : Realm server) : Prop where
  /-- A value equals itself. -/
  equal_self : ∀ attr value : String, server.equal attr (utf8 value.toList) value = true
  /-- `memberOf` is the back-link of `member`, and names the group as it is spelled. -/
  backlink : ∀ e ∈ r.entries, ∀ name, name ∈ e.attrs "memberOf" ↔
    ∃ g ∈ r.entries, g.dn = name ∧ ∃ m ∈ g.attrs "member", eqIgnoreAsciiCase m e.dn = true
  /-- Only a group has members. -/
  holder : ∀ g ∈ r.entries, g.attrs "member" ≠ [] → Has server g "objectClass" "group"

variable {r : Realm server} {snap : Snapshot}

/-- Entries whose names differ by letter case at most are one. -/
theorem entry_eq_of_folded {a b : Entry} (ha : a ∈ r.entries) (hb : b ∈ r.entries)
    (h : folded a.dn = folded b.dn) : a = b :=
  r.eq_of_sameDn ha hb (server.sameDn_of_case _ _ (eqIgnoreAsciiCase_iff.mpr h))

/-- A group of the snapshot is an entry with its members. -/
theorem Holds.entry_of_group (hholds : Holds snap r) {g : String × List String}
    (hg : g ∈ snap.groups) : ∃ e ∈ r.entries, g = (e.dn, e.attrs "member") := by
  rcases List.mem_append.mp hg with hg | hg
  · obtain ⟨o, ho, rfl⟩ := List.mem_map.mp hg
    obtain ⟨e, he, _, rfl⟩ := (hholds.cloud o).mp ho
    exact ⟨e, he, rfl⟩
  · obtain ⟨o, ho, rfl⟩ := List.mem_map.mp hg
    obtain ⟨e, he, _, rfl⟩ := hholds.resource o ho
    exact ⟨e, he, rfl⟩

/-- Every group entry stands in the snapshot with its members. -/
theorem Holds.group_of_entry (hholds : Holds snap r) {e : Entry} (he : e ∈ r.entries)
    (hgroup : Has server e "objectClass" "group") : (e.dn, e.attrs "member") ∈ snap.groups := by
  rcases hholds.group e he hgroup with hcloud | hresource
  · have hmem := (hholds.cloud (cloudObject e)).mpr ⟨e, he, hcloud, rfl⟩
    exact List.mem_append_left _ (List.mem_map.mpr ⟨_, hmem, rfl⟩)
  · exact List.mem_append_right _ (List.mem_map.mpr ⟨_, hresource, rfl⟩)

/-- A group of the snapshot lists an entry exactly when it is a group the entry is a
direct member of. -/
theorem lists_iff (hholds : Holds snap r) (hlinked : Linked r) {e : Entry} (he : e ∈ r.entries)
    {y : List Char} : snap.Lists (folded e.dn) y ↔
      ∃ g ∈ r.entries, folded g.dn = y ∧ MemberOf r.entries e.dn g.dn := by
  constructor
  · rintro ⟨group, hgroup, rfl, m, hm, heq⟩
    obtain ⟨g, hg, rfl⟩ := hholds.entry_of_group hgroup
    have hname : g.dn ∈ e.attrs "memberOf" :=
      (hlinked.backlink e he g.dn).mpr ⟨g, hg, rfl, m, hm, eqIgnoreAsciiCase_iff.mpr heq⟩
    exact ⟨g, hg, rfl, e, he, rfl, hname⟩
  · rintro ⟨g, hg, rfl, e', he', hdn, hname⟩
    have hsame : e' = e := entry_eq_of_folded he' he (congrArg folded hdn)
    subst hsame
    obtain ⟨g', hg', hdn', m, hm, heq⟩ := (hlinked.backlink e' he' g.dn).mp hname
    have hsame : g' = g := entry_eq_of_folded hg' hg (congrArg folded hdn')
    subst hsame
    have hgroup := hlinked.holder g' hg' (List.ne_nil_of_mem hm)
    exact ⟨_, hholds.group_of_entry hg' hgroup, rfl, m, hm, eqIgnoreAsciiCase_iff.mp heq⟩

/-- Nesting in the snapshot is nesting in the directory. -/
theorem nested_iff (hholds : Holds snap r) (hlinked : Linked r) {e g : Entry}
    (he : e ∈ r.entries) (hg : g ∈ r.entries) :
    TransGen snap.Lists (folded e.dn) (folded g.dn) ↔
      TransGen (MemberOf r.entries) e.dn g.dn := by
  constructor
  · intro h
    have hpath : ∀ y, TransGen snap.Lists (folded e.dn) y →
        ∃ o ∈ r.entries, folded o.dn = y ∧ TransGen (MemberOf r.entries) e.dn o.dn := by
      intro y hy
      induction hy with
      | single hstep =>
        obtain ⟨o, ho, hdn, hmember⟩ := (lists_iff hholds hlinked he).mp hstep
        exact ⟨o, ho, hdn, TransGen.single hmember⟩
      | tail _ hstep ih =>
        obtain ⟨o, ho, rfl, hmember⟩ := ih
        obtain ⟨o', ho', hdn, hlast⟩ := (lists_iff hholds hlinked ho).mp hstep
        exact ⟨o', ho', hdn, hmember.tail hlast⟩
    obtain ⟨o, ho, hdn, hmember⟩ := hpath _ h
    exact entry_eq_of_folded ho hg hdn ▸ hmember
  · intro h
    have hpath : ∀ name, TransGen (MemberOf r.entries) e.dn name →
        ∃ o ∈ r.entries, o.dn = name ∧ TransGen snap.Lists (folded e.dn) (folded o.dn) := by
      intro name hname
      have hnamed : ∀ {a b : String}, MemberOf r.entries a b → ∃ o ∈ r.entries, o.dn = b := by
        rintro a b ⟨o, ho, rfl, hb⟩
        obtain ⟨o', ho', hdn, _⟩ := (hlinked.backlink o ho b).mp hb
        exact ⟨o', ho', hdn⟩
      induction hname with
      | single hstep =>
        obtain ⟨o, ho, rfl⟩ := hnamed hstep
        exact ⟨o, ho, rfl, TransGen.single ((lists_iff hholds hlinked he).mpr ⟨o, ho, rfl, hstep⟩)⟩
      | tail _ hstep ih =>
        obtain ⟨o, ho, rfl, hlists⟩ := ih
        obtain ⟨o', ho', rfl⟩ := hnamed hstep
        exact ⟨o', ho', rfl,
          hlists.tail ((lists_iff hholds hlinked ho).mpr ⟨o', ho', rfl, hstep⟩)⟩
    obtain ⟨o, ho, hdn, hlists⟩ := hpath _ h
    exact congrArg folded hdn ▸ hlists

/-- The closure of an entry names the groups it is in, through any nesting. -/
theorem holds_closureOf_iff (hholds : Holds snap r) (hlinked : Linked r) {e g : Entry}
    (he : e ∈ r.entries) (hg : g ∈ r.entries) :
    holds (snap.closureOf e.dn) g.dn = true ↔ TransGen (MemberOf r.entries) e.dn g.dn := by
  rw [← nested_iff hholds hlinked he hg, ← snap.mem_closureOf_iff]
  unfold holds
  rw [List.any_eq_true, List.mem_map]
  simp only [eqIgnoreAsciiCase_iff]

end Directory

section Agreement

variable [UnicodeTables] {server : Server}

/-- The server places the entries under the IdP parent unit and under a source's unit
as their names read. -/
def Placed (snap : Snapshot) (d : Directory) (r : Realm server) : Prop :=
  ∀ e ∈ r.entries, ∀ ou, ou = snap.cloudIdpOu ∨ ou = d.roleBaseDn →
    server.within e.dn ou = dnIsAtOrWithin e.dn ou

/-- The broker of the source an object belongs to: its unit stands in the IdP parent
unit, and no other unit there holds the object. -/
structure SourceBroker (snap : Snapshot) (d : Directory) (dn : String) : Prop where
  parent : dnEquals (parentOf d.roleBaseDn) snap.cloudIdpOu = true
  own : ∀ ou, dnEquals (parentOf ou) snap.cloudIdpOu = true → dnIsBelow dn ou = true →
    dnEquals ou d.roleBaseDn = true

variable {r : Realm server} {snap : Snapshot} {d : Directory} {e : Entry}

/-- Spellings of one unit hold the same names. -/
theorem within_of_dnEquals {a b : String} (h : dnEquals a b = true) (dn : String) :
    dnIsAtOrWithin dn a = dnIsAtOrWithin dn b := by
  obtain ⟨c, ha, hb⟩ := dnEquals_iff.mp h
  unfold dnIsAtOrWithin
  rw [ha, hb]

/-- Spellings of one unit have the same admission group. -/
theorem admissionGroupIn_of_dnEquals {a b : String} (h : dnEquals a b = true) :
    snap.admissionGroupIn a = snap.admissionGroupIn b := by
  unfold Snapshot.admissionGroupIn Snapshot.roleGroupIn
  simp only [within_of_dnEquals h]

/-- An object stands beneath the source's unit and is in the first of its marked groups,
through any nesting. -/
def Admitted (snap : Snapshot) (d : Directory) (r : Realm server) (e : Entry) : Prop :=
  dnIsBelow e.dn d.roleBaseDn = true ∧ ∃ g ∈ r.entries,
    snap.admissionGroupIn d.roleBaseDn = some (cloudObject g) ∧
      TransGen (MemberOf r.entries) e.dn g.dn

/-- The first marked group of a unit is an entry. -/
theorem Holds.entry_of_admissionGroup (hholds : Holds snap r) {ou : String} {o : CloudObject}
    (h : snap.admissionGroupIn ou = some o) : ∃ g ∈ r.entries, o = cloudObject g := by
  obtain ⟨g, hg, _, ho⟩ := (hholds.cloud o).mp (List.mem_of_find?_eq_some h)
  exact ⟨g, hg, ho⟩

/-- The server takes the first marked group for marked, and finds it in the unit. -/
theorem marked_of_admissionGroup (hlinked : Linked r) (hplaced : Placed snap d r) {g : Entry}
    (hg : g ∈ r.entries) (h : snap.admissionGroupIn d.roleBaseDn = some (cloudObject g)) :
    server.within g.dn d.roleBaseDn = true ∧ Has server g "extensionName" roleAdmission := by
  have hfound := List.find?_some h
  rw [Bool.and_eq_true] at hfound
  obtain ⟨m, hm, heq⟩ := List.any_eq_true.mp hfound.1
  have hmarker : m = roleAdmission := of_decide_eq_true heq
  refine ⟨(hplaced g hg _ (Or.inr rfl)).trans hfound.2, m, hm, ?_⟩
  rw [hmarker]
  exact hlinked.equal_self _ _

/-- The doctor finds the unit of an object, and the admission group in it, exactly as the
names place it. -/
theorem admission_fail_iff (hholds : Holds snap r) (hlinked : Linked r)
    (hbroker : SourceBroker snap d e.dn) (he : e ∈ r.entries)
    (hin : dnIsAtOrWithin e.dn snap.cloudIdpOu = true) :
    (admissionCheck snap (snap.closureOf e.dn) (snap.idpOuOf e.dn)).status = .fail ↔
      ¬ Admitted snap d r e := by
  rw [admissionCheck_fail_iff, not_iff_not]
  constructor
  · rintro ⟨ou, o, hou, hgroup, hclosure⟩
    obtain ⟨hbelow, hparent⟩ := idpOuOf_some hin hou
    have heq := hbroker.own ou hparent hbelow
    obtain ⟨g, hg, rfl⟩ := hholds.entry_of_admissionGroup hgroup
    rw [admissionGroupIn_of_dnEquals heq] at hgroup
    refine ⟨?_, g, hg, hgroup, (holds_closureOf_iff hholds hlinked he hg).mp hclosure⟩
    obtain ⟨q, c, hq, hd, hc⟩ := dnIsBelow_iff.mp hbelow
    obtain ⟨c', hc', hunit⟩ := dnEquals_iff.mp heq
    rw [hc] at hc'
    cases hc'
    exact dnIsBelow_iff.mpr ⟨q, c, hq, hd, hunit⟩
  · rintro ⟨hbelow, g, hg, hgroup, hmember⟩
    obtain ⟨ou, hou, heq⟩ := idpOuOf_of_below hbroker.parent hbelow
    rw [← admissionGroupIn_of_dnEquals heq] at hgroup
    exact ⟨ou, cloudObject g, hou, hgroup, (holds_closureOf_iff hholds hlinked he hg).mpr hmember⟩

/-- What the four checks ask of a user, one by one. -/
structure Healthy (snap : Snapshot) (d : Directory) (r : Realm server) (e : Entry)
    (id : ExternalIdentity) : Prop where
  identity : (cloudObject e).identityOf = some (.ok id)
  live : (cloudObject e).state = .live
  enabled : (cloudObject e).enabled ≠ some false
  admitted : Admitted snap d r e

/-- What an account is read from, its flags being no refusal. -/
structure Readable (e : Entry) : Prop where
  uac : ∃ text n, one e "userAccountControl" = some text ∧
    parseUnsigned (0x100000000) text = some n
  sid : ∃ sid, decodeSidAttr (e.binAttrs "objectSid") (e.attrs "objectSid") = some sid
  samAccountName : ∃ name, one e "sAMAccountName" = some name

omit [UnicodeTables] in
/-- An object with an identity that does not read as disabled is a usable account exactly
when it is readable. -/
theorem readable_iff {id : ExternalIdentity}
    (hid : (cloudObject e).identityOf = some (.ok id))
    (henabled : (cloudObject e).enabled ≠ some false) : Readable e ↔ ∃ a, Usable e a := by
  constructor
  · rintro ⟨⟨text, n, htext, hn⟩, ⟨sid, hsid⟩, ⟨name, hname⟩⟩
    obtain ⟨stored, hstored, _⟩ := Option.map_eq_some_iff.mp hid
    have huac : (cloudObject e).uac = some n := by
      change (first e "userAccountControl").bind _ = _
      rw [show first e "userAccountControl" = some text from htext]
      exact hn
    have hflag : n &&& ufAccountDisable = 0 := by
      by_contra hflag
      apply henabled
      unfold CloudObject.enabled
      rw [huac, Option.map_some, decide_eq_false hflag]
    exact ⟨⟨sid, name, stored, e.dn, _, _⟩, ⟨text, n, htext, hn, hflag⟩, hsid, hname, hstored,
      rfl, rfl, rfl⟩
  · rintro ⟨a, ha⟩
    obtain ⟨text, n, htext, hn, _⟩ := ha.enabled
    exact ⟨⟨text, n, htext, hn⟩, ⟨_, ha.sid⟩, ⟨_, ha.samAccountName⟩⟩

/-- One object alone answers to an identity, as the broker spells it. -/
def Alone (d : Directory) (r : Realm server) (id : ExternalIdentity) (o : Entry) : Prop :=
  Sole r d.baseDn (fun o => Has server o "msDS-ExternalDirectoryObjectId" id.encode) o

/-- What the broker admits an object on: it alone answers to the identity, it is a usable
account, and it is in the one marked group of the unit. -/
def Passes (d : Directory) (r : Realm server) (id : ExternalIdentity) (o : Entry) : Prop :=
  Alone d r id o ∧ (∃ a, Usable o a) ∧ InRole d r roleAdmission o

omit [UnicodeTables] in
/-- The broker resolves an identity to the account of an object that passes. -/
theorem resolve_ok_iff {id : ExternalIdentity} {a : Account} : resolve d r id = .ok a ↔
    ∃ o, Alone d r id o ∧ Usable o a ∧ InRole d r roleAdmission o := by
  unfold resolve
  rw [← Target.ldapFilter_identity, findAccount_ok_iff]
  simp [Alone, Target.Names]

/-- The doctor's answer on a user and the broker's on its identity agree. -/
def Agrees (snap : Snapshot) (d : Directory) (r : Realm server) (subject : String) (e : Entry) :
    Prop :=
  ((∀ label ∈ chainLabels, ¬ (diagnoseUser snap subject).Fails label) →
    ∃ id a, (cloudObject e).identityOf = some (.ok id) ∧ resolve d r id = .ok a ∧ a.dn = e.dn) ∧
  ((diagnoseUser snap subject).Fails "realm admission" →
    ∀ id, (cloudObject e).identityOf = some (.ok id) → ∀ a, resolve d r id ≠ .ok a)

/-- What a directory must be for the two to agree on a user. -/
structure Concordant (snap : Snapshot) (d : Directory) (r : Realm server) (e : Entry) :
    Prop where
  /-- A healthy user alone answers to its identity. -/
  alone : ∀ id, Healthy snap d r e id → Alone d r id e
  /-- A healthy user has flags that are a number, a security identifier and a login name. -/
  readable : ∀ id, Healthy snap d r e id → Readable e
  /-- The group a healthy user is admitted by is the only object of the unit that the
  server takes for marked. -/
  settled : ∀ id, Healthy snap d r e id → ∀ g ∈ r.entries,
    snap.admissionGroupIn d.roleBaseDn = some (cloudObject g) → ∀ o ∈ r.entries,
      server.within o.dn d.roleBaseDn = true → Has server o "extensionName" roleAdmission → o = g
  /-- No other object passes on the identity of a user that is not admitted. -/
  stranger : ∀ id, (cloudObject e).identityOf = some (.ok id) → ¬ Admitted snap d r e →
    ∀ o, o ≠ e → ¬ Passes d r id o
  /-- A user that stands in no unit does not pass by membership alone. -/
  unplaced : ∀ id, (cloudObject e).identityOf = some (.ok id) →
    dnIsBelow e.dn d.roleBaseDn = false → ¬ Passes d r id e
  /-- A user does not pass by a group the doctor does not take for the marked one. -/
  unseen : ∀ id, (cloudObject e).identityOf = some (.ok id) →
    (∀ g, RoleGroup d r roleAdmission g →
      snap.admissionGroupIn d.roleBaseDn ≠ some (cloudObject g)) → ¬ Passes d r id e

/-- Where one group alone is marked to the server, the first one the doctor takes is it. -/
theorem eq_of_roleGroup (hlinked : Linked r) (hplaced : Placed snap d r) {g g' : Entry}
    (hg : g ∈ r.entries) (h : snap.admissionGroupIn d.roleBaseDn = some (cloudObject g))
    (hrole : RoleGroup d r roleAdmission g') : g = g' := by
  obtain ⟨hwithin, hmarked⟩ := marked_of_admissionGroup hlinked hplaced hg h
  exact hrole.2 g hg hwithin hmarked

/-- The four checks of a user pass exactly for a healthy one. -/
theorem chain_clean_iff (hholds : Holds snap r) (hlinked : Linked r)
    (hbroker : SourceBroker snap d e.dn) (he : e ∈ r.entries)
    (hin : dnIsAtOrWithin e.dn snap.cloudIdpOu = true) :
    (∀ c ∈ chainOf snap (cloudObject e), c.status ≠ .fail) ↔ ∃ id, Healthy snap d r e id := by
  have hadmission := admission_fail_iff hholds hlinked hbroker he hin
  have hdn : (cloudObject e).dn = e.dn := rfl
  simp only [chainOf, List.forall_mem_cons, ne_eq, identityCheck_fail_iff, stateCheck_fail_iff,
    enabledCheck_fail_iff, hdn, hadmission, not_not, List.not_mem_nil, false_imp_iff,
    implies_true, and_true]
  constructor
  · rintro ⟨⟨id, hid⟩, hlive, henabled, hadmitted⟩
    exact ⟨id, hid, hlive, henabled, hadmitted⟩
  · rintro ⟨id, hid, hlive, henabled, hadmitted⟩
    exact ⟨⟨id, hid⟩, hlive, henabled, hadmitted⟩

/-- In a concordant directory a healthy user passes. -/
theorem Concordant.passes (hc : Concordant snap d r e) (hlinked : Linked r)
    (hplaced : Placed snap d r) {id : ExternalIdentity} (h : Healthy snap d r e id) :
    Passes d r id e := by
  obtain ⟨hbelow, g, hg, hfirst, hmember⟩ := h.admitted
  have husable := (readable_iff h.identity h.enabled).mp (hc.readable id h)
  obtain ⟨hwithin, hmarked⟩ := marked_of_admissionGroup hlinked hplaced hg hfirst
  have hrole : RoleGroup d r roleAdmission g :=
    ⟨⟨hg, hwithin, hmarked⟩, hc.settled id h g hg hfirst⟩
  exact ⟨hc.alone id h, husable, g, hrole, hmember⟩

/-- In a concordant directory nobody passes on the identity of a user that is not
admitted. -/
theorem Concordant.refused (hc : Concordant snap d r e) {id : ExternalIdentity}
    (hid : (cloudObject e).identityOf = some (.ok id)) (h : ¬ Admitted snap d r e) (o : Entry) :
    ¬ Passes d r id o := by
  intro hpasses
  by_cases hoe : o = e
  · subst hoe
    cases hbelow : dnIsBelow o.dn d.roleBaseDn with
    | false => exact hc.unplaced id hid hbelow hpasses
    | true =>
      refine hc.unseen id hid ?_ hpasses
      intro g hrole hfirst
      obtain ⟨g', hrole', hmember⟩ := hpasses.2.2
      have heq : g' = g := hrole.2 g' hrole'.1.1 hrole'.1.2.1 hrole'.1.2.2
      subst heq
      exact h ⟨hbelow, g', hrole'.1.1, hfirst, hmember⟩
  · exact hc.stranger id hid h o hoe hpasses

/-- The two agree on a user exactly when every healthy user passes, and nobody passes on
the identity of one that is not admitted. -/
theorem agrees_iff_passes (hholds : Holds snap r) (hlinked : Linked r)
    (hbroker : SourceBroker snap d e.dn) (he : e ∈ r.entries)
    (hin : dnIsAtOrWithin e.dn snap.cloudIdpOu = true) {subject : String}
    (hres : resolveUser snap subject = some (cloudObject e)) :
    Agrees snap d r subject e ↔
      (∀ id, Healthy snap d r e id → Passes d r id e) ∧
      (∀ id, (cloudObject e).identityOf = some (.ok id) → ¬ Admitted snap d r e →
        ∀ o, ¬ Passes d r id o) := by
  unfold Agrees
  rw [diagnoseUser_clean_iff hres, diagnoseUser_fails_admission_iff hres,
    chain_clean_iff hholds hlinked hbroker he hin]
  have hadmission := admission_fail_iff hholds hlinked hbroker he hin
  have hdn : (cloudObject e).dn = e.dn := rfl
  rw [hdn, hadmission]
  refine and_congr ?_ ?_
  · constructor
    · intro h id hhealthy
      obtain ⟨id', a, hid', hok, hsame⟩ := h ⟨id, hhealthy⟩
      have hid := hhealthy.identity.symm.trans hid'
      cases hid
      obtain ⟨o, halone, husable, hrole⟩ := resolve_ok_iff.mp hok
      have hoe : o = e := entry_eq_of_folded halone.1.1 he
        (congrArg folded (husable.dn.symm.trans hsame))
      subst hoe
      exact ⟨halone, ⟨a, husable⟩, hrole⟩
    · rintro h ⟨id, hhealthy⟩
      obtain ⟨halone, ⟨a, husable⟩, hrole⟩ := h id hhealthy
      exact ⟨id, a, hhealthy.identity, resolve_ok_iff.mpr ⟨e, halone, husable, hrole⟩, husable.dn⟩
  · constructor
    · intro h id hid hnot o hpasses
      obtain ⟨halone, ⟨a, husable⟩, hrole⟩ := hpasses
      exact h hnot id hid a (resolve_ok_iff.mpr ⟨o, halone, husable, hrole⟩)
    · intro h hnot id hid a hok
      obtain ⟨o, halone, husable, hrole⟩ := resolve_ok_iff.mp hok
      exact h id hid hnot o ⟨halone, ⟨a, husable⟩, hrole⟩

/-- Where the two agree, the directory is concordant. -/
theorem concordant_of_passes (hlinked : Linked r) (hplaced : Placed snap d r)
    (hhealthy : ∀ id, Healthy snap d r e id → Passes d r id e)
    (hrefused : ∀ id, (cloudObject e).identityOf = some (.ok id) → ¬ Admitted snap d r e →
      ∀ o, ¬ Passes d r id o) : Concordant snap d r e := by
  constructor
  · intro id h
    exact (hhealthy id h).1
  · intro id h
    exact (readable_iff h.identity h.enabled).mpr (hhealthy id h).2.1
  · intro id h g hg hfirst
    obtain ⟨g', hrole, _⟩ := (hhealthy id h).2.2
    rw [eq_of_roleGroup hlinked hplaced hg hfirst hrole]
    exact hrole.2
  · intro id hid hnot o _
    exact hrefused id hid hnot o
  · intro id hid hbelow
    refine hrefused id hid ?_ e
    rintro ⟨hbelow', _⟩
    rw [hbelow] at hbelow'
    cases hbelow'
  · intro id hid hunseen hpasses
    refine hrefused id hid ?_ e hpasses
    rintro ⟨_, g, hg, hfirst, _⟩
    obtain ⟨g', hrole, _⟩ := hpasses.2.2
    rw [eq_of_roleGroup hlinked hplaced hg hfirst hrole] at hfirst
    exact hunseen g' hrole hfirst

/-- One unit at most holds a name, so the broker of a unit is the source's for every name
beneath the unit. -/
theorem sourceBroker_of_below {dn : String}
    (hparent : dnEquals (parentOf d.roleBaseDn) snap.cloudIdpOu = true)
    (hbelow : dnIsBelow dn d.roleBaseDn = true) : SourceBroker snap d dn := by
  refine ⟨hparent, ?_⟩
  intro ou hou hin
  obtain ⟨c, _, hc⟩ := dnEquals_iff.mp hparent
  obtain ⟨q, u, _, hd, hu⟩ := dnIsBelow_iff.mp hbelow
  obtain ⟨q', u', _, hd', hu'⟩ := dnIsBelow_iff.mp hin
  obtain ⟨x, hx⟩ := components_of_parent hparent hc (Option.isSome_iff_exists.mpr ⟨u, hu⟩)
  obtain ⟨x', hx'⟩ := components_of_parent hou hc (Option.isSome_iff_exists.mpr ⟨u', hu'⟩)
  rw [hu] at hx
  rw [hu'] at hx'
  cases hx
  cases hx'
  rw [hd] at hd'
  have hend : x :: c = x' :: c := (List.append_inj' (Option.some.inj hd') rfl).2
  exact dnEquals_iff.mpr ⟨x' :: c, hu', hend ▸ hu⟩

end Agreement

section Marked

/-- An enabled user in the first of the marked groups. -/
def markedUser : Entry :=
  listed "CN=a,OU=s,OU=c" [[1, 1, 0, 0, 0, 0, 0, 5, 18, 0, 0, 0]] [("objectClass", ["user"]),
    ("sAMAccountName", ["a"]), ("userAccountControl", ["512"]),
    ("msDS-ExternalDirectoryObjectId", ["kb1|s|a"]), ("memberOf", ["CN=g,OU=s,OU=c"])]

/-- A group of the unit that carries the admission marker. -/
def markedGroup (dn : String) (members : List String) : Entry :=
  listed dn [] [("objectClass", ["group"]), ("extensionName", [roleAdmission]),
    ("member", members)]

/-- The user and two marked groups. -/
def markedEntries : List Entry :=
  [markedUser, markedGroup "CN=g,OU=s,OU=c" ["CN=a,OU=s,OU=c"],
    markedGroup "CN=h,OU=s,OU=c" []]

/-- The directory that holds them. -/
noncomputable def markedRealm : Realm plainServer where
  entries := markedEntries
  distinct := by
    simp [markedEntries, plainServer, markedUser, markedGroup, listed, eqIgnoreAsciiCase]
  backlinks := by
    intro e he g hg
    simp only [markedEntries, List.mem_cons, List.not_mem_nil, or_false] at he
    rcases he with rfl | rfl | rfl
    all_goals
      simp [markedUser, markedGroup, listed, List.lookup_cons] at hg

/-- The doctor's read of it. -/
def markedSnapshot : Snapshot where
  cloudIdpOu := "OU=c"
  netbios := none
  now := 0
  cloud := markedEntries.map cloudObject
  resources := []

/-- The broker of the one source. -/
def markedBroker : Directory := ⟨"OU=c", "OU=s,OU=c"⟩

/-- Every entry is a user or a group under the IdP parent unit. -/
theorem isCloud_marked : ∀ e ∈ markedEntries, IsCloud plainServer markedSnapshot e := by
  intro e he
  simp only [markedEntries, List.mem_cons, List.not_mem_nil, or_false] at he
  refine ⟨?_, ?_⟩
  · rcases he with rfl | rfl | rfl
    all_goals
      decide
  · rw [has_plainServer_iff, has_plainServer_iff]
    rcases he with rfl | rfl | rfl
    · exact Or.inl (by decide)
    · exact Or.inr (by decide)
    · exact Or.inr (by decide)

/-- The snapshot holds the directory. -/
theorem holds_marked : Holds markedSnapshot markedRealm := by
  constructor
  · intro o
    constructor
    · intro ho
      obtain ⟨e, he, rfl⟩ := List.mem_map.mp ho
      exact ⟨e, he, isCloud_marked e he, rfl⟩
    · rintro ⟨e, he, _, rfl⟩
      exact List.mem_map.mpr ⟨e, he, rfl⟩
  · intro g hg
    cases hg
  · intro e he _
    exact Or.inl (isCloud_marked e he)

/-- Its links are kept. -/
theorem linked_marked : Linked markedRealm := by
  constructor
  · intro attr value
    exact decide_eq_true rfl
  · have hlist : ∀ e ∈ markedEntries, ∀ g ∈ markedEntries,
        (g.dn ∈ e.attrs "memberOf" ↔ ∃ m ∈ g.attrs "member", eqIgnoreAsciiCase m e.dn = true) := by
      decide
    have hnamed : ∀ e ∈ markedEntries, ∀ name ∈ e.attrs "memberOf",
        ∃ g ∈ markedEntries, g.dn = name := by
      decide
    intro e he name
    constructor
    · intro hname
      obtain ⟨g, hg, rfl⟩ := hnamed e he name hname
      exact ⟨g, hg, rfl, (hlist e he g hg).mp hname⟩
    · rintro ⟨g, hg, rfl, hmember⟩
      exact (hlist e he g hg).mpr hmember
  · intro g hg hne
    rw [has_plainServer_iff]
    have hclass : ∀ g ∈ markedEntries, g.attrs "member" ≠ [] → "group" ∈ g.attrs "objectClass" := by
      decide
    exact hclass g hg hne

/-- The server places every entry as its name reads. -/
theorem placed_marked : @Placed asciiTables plainServer markedSnapshot markedBroker markedRealm := by
  let _ := asciiTables
  have hplaced : ∀ e ∈ markedEntries, ∀ ou ∈ ["OU=c", "OU=s,OU=c"],
      ou.toList.isSuffixOf e.dn.toList = dnIsAtOrWithin e.dn ou := by
    decide +kernel
  intro e he ou hou
  refine hplaced e he ou ?_
  rcases hou with rfl | rfl
  · exact List.mem_cons_self
  · exact List.mem_cons_of_mem _ List.mem_cons_self

/-- The source's broker is the unit's. -/
theorem broker_marked :
    @SourceBroker asciiTables markedSnapshot markedBroker "CN=a,OU=s,OU=c" := by
  let _ := asciiTables
  exact sourceBroker_of_below (by decide +kernel) (by decide +kernel)

/-- The doctor finds the user. -/
theorem resolveUser_marked : resolveUser markedSnapshot "a" = some (cloudObject markedUser) := by
  decide

end Marked

end Kerbridge.Doctor

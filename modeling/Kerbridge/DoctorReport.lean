import Kerbridge.DoctorSnapshot

/-!
# The doctor's report on one user

The authorization chain of a user, walked link by link over a snapshot. Every link
is a check with its verdict and its sentence; the report ends with the one link the
doctor cannot see.
-/

namespace Kerbridge.Doctor

open UnicodeText StoredIdentity DeviceGrants DistinguishedName

/-- The verdict of a check. -/
inductive Status where
  | ok
  /-- Works, but is not what the design intends. -/
  | warn
  /-- This link is broken. -/
  | fail
  /-- Context the operator needs. -/
  | info
  deriving DecidableEq

/-- One link of the chain. -/
structure Check where
  label : String
  status : Status
  detail : String
  deriving DecidableEq

/-- What the doctor says about one user. -/
structure UserReport where
  subject : String
  dn : Option String
  sam : Option String
  checks : List Check
  /-- The step the doctor cannot take: the file server's view. -/
  nextStep : Option String
  deriving DecidableEq

/-- A state, as debug formatting prints it. -/
def State.debug : State → String
  | .live => "Live"
  | .retired => "Retired"
  | .quarantined => "Quarantined"

/-- A user by login name, user principal name, stored identity or name. -/
def resolveUser (snap : Snapshot) (subject : String) : Option CloudObject :=
  snap.cloud.find? fun o => decide (o.kind = .user) &&
    (eqIgnoreAsciiCase o.sam subject || o.upn.any (eqIgnoreAsciiCase · subject) ||
      decide (o.identity = some subject) || eqIgnoreAsciiCase o.dn subject)

/-- A name as an operator knows it. -/
def nameOf (snap : Snapshot) (dn : String) : String :=
  (((snap.findCloud dn).map (·.sam)).or ((snap.findResource dn).map (·.sam))).getD dn

/-- Whether a name stands in a closure, in any letter case. -/
def holds (closure : List String) (dn : String) : Bool :=
  closure.any fun c => eqIgnoreAsciiCase c dn

/-- The link from the object to a cloud identity. -/
def identityCheck (user : CloudObject) : Check :=
  match user.identityOf with
  | some (.ok id) => ⟨"external identity", .ok, id.label⟩
  | some (.error e) => ⟨"external identity", .fail,
      "msDS-ExternalDirectoryObjectId is present but unreadable: " ++ e.text ++ ". The " ++
        "broker matches tokens against it, so it admits nobody"⟩
  | none => ⟨"external identity", .fail,
      "no msDS-ExternalDirectoryObjectId: nothing ties this object to a cloud " ++
        "identity, so no token can resolve to it"⟩

/-- The link of an object sync still sees. -/
def stateCheck (snap : Snapshot) (user : CloudObject) : Check :=
  match user.state with
  | .live => ⟨"state", .ok, "live"⟩
  | s => ⟨"state", .fail,
      s.debug ++ " for " ++ ((user.heldDays snap.now).map toString).getD "?" ++
        " days -- gone from the cloud IdP, held for its SID. Sync " ++
        "re-enables it if the cloud IdP object comes back"⟩

/-- The link of an account that is not disabled. -/
def enabledCheck (user : CloudObject) : Check :=
  match user.enabled with
  | some true => ⟨"account enabled", .ok, "userAccountControl has no ACCOUNTDISABLE"⟩
  | some false => ⟨"account enabled", .fail,
      "disabled: the KDC refuses this account at AS and TGS alike"⟩
  | none => ⟨"account enabled", .warn, "no userAccountControl on the object"⟩

/-- The label of the identity check. -/
theorem identityCheck_label (user : CloudObject) :
    (identityCheck user).label = "external identity" := by
  unfold identityCheck
  split <;> rfl

/-- The label of the state check. -/
theorem stateCheck_label (snap : Snapshot) (user : CloudObject) :
    (stateCheck snap user).label = "state" := by
  unfold stateCheck
  split <;> rfl

/-- The label of the check of the account's flags. -/
theorem enabledCheck_label (user : CloudObject) :
    (enabledCheck user).label = "account enabled" := by
  unfold enabledCheck
  split <;> rfl

/-- The identity check fails unless the stored identity reads. -/
theorem identityCheck_fail_iff {user : CloudObject} :
    (identityCheck user).status = .fail ↔ ¬ ∃ id, user.identityOf = some (.ok id) := by
  unfold identityCheck
  cases h : user.identityOf with
  | none => simp
  | some x =>
    cases x with
    | error e => simp
    | ok id => simp

/-- The state check fails unless the object is live. -/
theorem stateCheck_fail_iff {snap : Snapshot} {user : CloudObject} :
    (stateCheck snap user).status = .fail ↔ user.state ≠ .live := by
  unfold stateCheck
  cases h : user.state with
  | live => simp
  | retired => simp
  | quarantined => simp

/-- The check of the flags fails only for an account that reads as disabled. -/
theorem enabledCheck_fail_iff {user : CloudObject} :
    (enabledCheck user).status = .fail ↔ user.enabled = some false := by
  unfold enabledCheck
  cases h : user.enabled with
  | none => simp
  | some b =>
    cases b with
    | true => simp
    | false => simp

section Walk

variable [UnicodeTables]

/-- The link from the user to the admission group of the unit that holds it. -/
def admissionCheck (snap : Snapshot) (closure : List String) (sourceOu : Option String) : Check :=
  match sourceOu.map fun ou => (ou, snap.admissionGroupIn ou) with
  | none => ⟨"realm admission", .fail,
      "not in any IdP-specific OU under " ++ snap.cloudIdpOu ++ ": no broker's search base " ++
        "holds it, so nothing can issue for it"⟩
  | some (ou, none) => ⟨"realm admission", .fail,
      "no group in " ++ ou ++ " carries the realm-admission marker, so that source's " ++
        "broker admits nobody"⟩
  | some (_, some admission) =>
    if holds closure admission.dn then ⟨"realm admission", .ok, "in " ++ admission.sam⟩
    else ⟨"realm admission", .fail,
      "not in " ++ admission.sam ++ ": the broker issues no ticket at all. Membership " ++
        "comes from the cloud IdP -- add them there and let sync run"⟩

/-- The device-grant group of the unit that holds a user. -/
def grantGroupOf (snap : Snapshot) (sourceOu : Option String) : Option CloudObject :=
  sourceOu.bind fun ou => snap.grantGroupIn ou

/-- The link of a user's device grants, for a user who holds one. -/
def grantChecks (snap : Snapshot) (user : CloudObject) (closure : List String)
    (sourceOu : Option String) : List Check :=
  let devices := user.grants
  if devices.isEmpty then []
  else
    let named := ", ".intercalate
      (devices.map fun (_, g) => g.shortId ++ " (" ++ g.label ++ ")")
    let lapsed := (devices.filter fun (_, g) => decide (g.stop ≤ snap.now)).map (·.2.shortId)
    match grantGroupOf snap sourceOu with
    | some group =>
      if !lapsed.isEmpty then
        [⟨"device grants", .warn,
          named ++ ", but [" ++ ", ".intercalate (lapsed.map UnicodeTables.debug) ++
            "] passed its stamped deadline -- refused until someone signs in at that " ++
            "machine again"⟩]
      else if holds closure group.dn then
        [⟨"device grants", .ok,
          named ++ "; in " ++ group.sam ++ " and inside its stamped deadline. The broker's " ++
            "DEVICE_GRANT_DAYS can bring that deadline in, and is not readable here"⟩]
      else
        [⟨"device grants", .warn,
          named ++ ", but not in " ++ group.sam ++ " -- each is refused at its next ticket " ++
            "exchange. Membership comes from the cloud IdP"⟩]
    | none =>
      [⟨"device grants", .warn,
        named ++ ", but no group carries the device-grant marker, so all are refused"⟩]

/-- A delegate group and who is in it. -/
def delegateChain (snap : Snapshot) (g : ResourceGroup) : String :=
  let who := if g.members.isEmpty then "nobody"
    else ", ".intercalate (g.members.map (nameOf snap))
  g.sam ++ " <- " ++ who

/-- The link of the groups that delegate a user's devices, for a user some group names. -/
def delegateChecks (snap : Snapshot) (user : CloudObject) (closure : List String)
    (sourceOu : Option String) : List Check :=
  match snap.delegatesOf user.dn with
  | [] => []
  | delegate :: more =>
    let chains := "; ".intercalate ((delegate :: more).map (delegateChain snap))
    let grantGroup := grantGroupOf snap sourceOu
    let covered := grantGroup.any fun g => holds closure g.dn
    if !more.isEmpty then
      [⟨"device delegates", .warn,
        chains ++ " -- " ++ toString (more.length + 1) ++ " groups authorize devices as this " ++
          "account. \x60device delegate set\x60 keeps one, so at least one was written by hand"⟩]
    else if delegate.members.isEmpty then
      [⟨"device delegates", .warn,
        chains ++ " -- nobody is in it, so only this account can authorize a machine for itself"⟩]
    else if !covered then
      [⟨"device delegates", .warn,
        chains ++ ", but this account is not in " ++
          (grantGroup.map (·.sam)).getD "any device-grant group" ++
          " -- no machine can be authorized for it, by a delegate or by itself"⟩]
    else
      [⟨"device delegates", .ok,
        chains ++ " -- they may authorize a machine to obtain tickets as this account. Each " ++
          "must also be admitted to the realm in their own right"⟩]

/-- The link of the synchronized groups a user is in, the admission group apart. -/
def syncedCheck (snap : Snapshot) (closure : List String) : Check :=
  let synced := ((closure.filter fun dn => dnIsAtOrWithin dn snap.cloudIdpOu).filterMap
    snap.findCloud).filter fun o => !o.isAdmissionGroup
  if synced.isEmpty then
    ⟨"synced groups", .warn,
      "in no synchronized group but the admission group: admitted to the realm, but " ++
        "carrying nothing a resource group can authorize"⟩
  else ⟨"synced groups", .ok, ", ".intercalate (synced.map (·.sam))⟩

/-- The link of one group outside the IdP parent unit. -/
def resourceCheck (snap : Snapshot) (dn : String) : Check :=
  match snap.findResource dn with
  | none => ⟨"resource group", .warn,
      dn ++ " -- outside " ++ snap.cloudIdpOu ++ ", and not read back"⟩
  | some rg =>
    if rg.isDomainLocal then ⟨"resource group", .ok, rg.sam ++ " (domain-local)"⟩
    else ⟨"resource group", .warn,
      rg.sam ++ " has groupType " ++ rg.groupType.getD "(unset)" ++ " -- not domain-local. A " ++
        "global group is evaluated only in its own domain, so it is missing from the PAC " ++
        "for a resource in another"⟩

/-- The links of the groups outside the IdP parent unit. -/
def resourceChecks (snap : Snapshot) (closure : List String) : List Check :=
  let nested := closure.filter fun dn => !dnIsAtOrWithin dn snap.cloudIdpOu
  if nested.isEmpty then
    [⟨"resource groups", .fail,
      "none of this user's groups is nested outside " ++ snap.cloudIdpOu ++ ", so nothing on a " ++
        "file server authorizes them. Run \x60kbmanage group member add <resource-group> " ++
        "<synced-group>\x60"⟩]
  else nested.map (resourceCheck snap)

/-- The chain of a user that was found. -/
def userChecks (snap : Snapshot) (user : CloudObject) : List Check :=
  let closure := snap.closureOf user.dn
  let sourceOu := snap.idpOuOf user.dn
  [⟨"object", .ok, user.dn⟩, identityCheck user, stateCheck snap user, enabledCheck user,
      admissionCheck snap closure sourceOu] ++
    grantChecks snap user closure sourceOu ++ delegateChecks snap user closure sourceOu ++
    [syncedCheck snap closure] ++ resourceChecks snap closure

/-- Walks one user's chain. -/
def diagnoseUser (snap : Snapshot) (subject : String) : UserReport :=
  match resolveUser snap subject with
  | none => {
      subject := subject
      dn := none
      sam := none
      checks := [⟨"object", .fail,
        "no user under " ++ snap.cloudIdpOu ++ " matches " ++ UnicodeTables.debug subject ++
          " by sAMAccountName, userPrincipalName, DN or external identity"⟩]
      nextStep := none }
  | some user => {
      subject := subject
      dn := some user.dn
      sam := some user.sam
      checks := userChecks snap user
      nextStep := some ("On the file server, not here: \x60id '" ++ snap.netbios.getD "DOMAIN" ++
        "\\" ++ user.sam ++ "'\x60 must print the uid and every group above. If it does not, " ++
        "the break is winbind or the join, not the directory. This tool cannot see share or " ++
        "filesystem ACLs.") }

/-- A report has a failed check of a label. -/
def UserReport.Fails (report : UserReport) (label : String) : Prop :=
  ∃ c ∈ report.checks, c.label = label ∧ c.status = .fail

/-- The labels of the checks after the admission check. -/
theorem later_labels {snap : Snapshot} {user : CloudObject} {closure : List String}
    {sourceOu : Option String} {c : Check}
    (h : c ∈ grantChecks snap user closure sourceOu ++ delegateChecks snap user closure sourceOu ++
      [syncedCheck snap closure] ++ resourceChecks snap closure) :
    c.label ∈ ["device grants", "device delegates", "synced groups", "resource group",
      "resource groups"] := by
  simp only [List.mem_append, List.mem_singleton] at h
  rcases h with ((h | h) | h) | h
  · unfold grantChecks at h
    dsimp only at h
    split at h
    · cases h
    · split at h
      · split at h
        · simp [List.mem_singleton.mp h]
        · split at h
          · simp [List.mem_singleton.mp h]
          · simp [List.mem_singleton.mp h]
      · simp [List.mem_singleton.mp h]
  · unfold delegateChecks at h
    split at h
    · cases h
    · dsimp only at h
      split at h
      · simp [List.mem_singleton.mp h]
      · split at h
        · simp [List.mem_singleton.mp h]
        · split at h
          · simp [List.mem_singleton.mp h]
          · simp [List.mem_singleton.mp h]
  · subst h
    unfold syncedCheck
    dsimp only
    split <;> simp
  · unfold resourceChecks at h
    dsimp only at h
    split at h
    · simp [List.mem_singleton.mp h]
    · obtain ⟨dn, _, rfl⟩ := List.mem_map.mp h
      unfold resourceCheck
      split
      · simp
      · split <;> simp

/-- The label of the admission check. -/
theorem admissionCheck_label {snap : Snapshot} {closure : List String} {sourceOu : Option String} :
    (admissionCheck snap closure sourceOu).label = "realm admission" := by
  unfold admissionCheck
  split
  · rfl
  · rfl
  · split <;> rfl

/-- The admission check fails unless the unit has a marked group and the first is in the
closure. -/
theorem admissionCheck_fail_iff {snap : Snapshot} {closure : List String} {sourceOu : Option String} :
    (admissionCheck snap closure sourceOu).status = .fail ↔
      ¬ ∃ ou g, sourceOu = some ou ∧ snap.admissionGroupIn ou = some g ∧
        holds closure g.dn = true := by
  unfold admissionCheck
  cases sourceOu with
  | none => simp
  | some ou =>
    rw [Option.map_some]
    cases hgroup : snap.admissionGroupIn ou with
    | none => simp [hgroup]
    | some g =>
      dsimp only
      cases hin : holds closure g.dn with
      | true =>
        simp only [if_true, reduceCtorEq, false_iff, not_not]
        exact ⟨ou, g, rfl, hgroup, hin⟩
      | false =>
        simp only [Bool.false_eq_true, if_false, true_iff]
        rintro ⟨ou', g', hou, hgroup', hin'⟩
        cases hou
        rw [hgroup] at hgroup'
        cases hgroup'
        rw [hin] at hin'
        cases hin'

/-- The checks the diagnosis of an admission rests on. -/
def chainLabels : List String :=
  ["external identity", "state", "account enabled", "realm admission"]

/-- The four checks of a user's chain that an admission rests on. -/
def chainOf (snap : Snapshot) (user : CloudObject) : List Check :=
  [identityCheck user, stateCheck snap user, enabledCheck user,
    admissionCheck snap (snap.closureOf user.dn) (snap.idpOuOf user.dn)]

/-- The four checks have the four labels. -/
theorem label_of_mem_chainOf {snap : Snapshot} {user : CloudObject} {c : Check}
    (h : c ∈ chainOf snap user) : c.label ∈ chainLabels := by
  simp only [chainOf, List.mem_cons, List.not_mem_nil, or_false] at h
  rcases h with rfl | rfl | rfl | rfl
  · simp [identityCheck_label, chainLabels]
  · simp [stateCheck_label, chainLabels]
  · simp [enabledCheck_label, chainLabels]
  · simp [admissionCheck_label, chainLabels]

/-- The checks of a user's chain with one of the four labels are the four. -/
theorem mem_userChecks_iff {snap : Snapshot} {user : CloudObject} {c : Check} :
    c ∈ userChecks snap user ∧ c.label ∈ chainLabels ↔ c ∈ chainOf snap user := by
  constructor
  · rintro ⟨h, hlabel⟩
    unfold userChecks at h
    rw [List.append_assoc, List.append_assoc, List.append_assoc, List.mem_append] at h
    rcases h with h | h
    · rcases List.mem_cons.mp h with rfl | h
      · simp [chainLabels] at hlabel
      · exact h
    · rw [← List.append_assoc, ← List.append_assoc] at h
      have hlater := later_labels h
      simp only [chainLabels, List.mem_cons, List.not_mem_nil, or_false] at hlabel hlater
      rcases hlabel with hl | hl | hl | hl
      all_goals
        rw [hl] at hlater
        simp at hlater
  · intro h
    refine ⟨?_, label_of_mem_chainOf h⟩
    unfold userChecks
    rw [List.append_assoc, List.append_assoc, List.append_assoc]
    exact List.mem_append_left _ (List.mem_cons_of_mem _ h)

/-- The report on a user that was found fails a label of the four exactly when one of the
four checks does. -/
theorem diagnoseUser_fails_iff {snap : Snapshot} {subject label : String} {user : CloudObject}
    (hres : resolveUser snap subject = some user) (hlabel : label ∈ chainLabels) :
    (diagnoseUser snap subject).Fails label ↔
      ∃ c ∈ chainOf snap user, c.label = label ∧ c.status = .fail := by
  unfold UserReport.Fails diagnoseUser
  rw [hres]
  constructor
  · rintro ⟨c, hc, rfl, hfail⟩
    exact ⟨c, mem_userChecks_iff.mp ⟨hc, hlabel⟩, rfl, hfail⟩
  · rintro ⟨c, hc, heq, hfail⟩
    exact ⟨c, (mem_userChecks_iff.mpr hc).1, heq, hfail⟩

/-- The report fails none of the four labels when none of the four checks fails. -/
theorem diagnoseUser_clean_iff {snap : Snapshot} {subject : String} {user : CloudObject}
    (hres : resolveUser snap subject = some user) :
    (∀ label ∈ chainLabels, ¬ (diagnoseUser snap subject).Fails label) ↔
      ∀ c ∈ chainOf snap user, c.status ≠ .fail := by
  constructor
  · intro h c hc hfail
    have hlabel := label_of_mem_chainOf hc
    exact h c.label hlabel ((diagnoseUser_fails_iff hres hlabel).mpr ⟨c, hc, rfl, hfail⟩)
  · intro h label hlabel hfails
    obtain ⟨c, hc, _, hfail⟩ := (diagnoseUser_fails_iff hres hlabel).mp hfails
    exact h c hc hfail

/-- The report fails the admission label exactly when the admission check fails. -/
theorem diagnoseUser_fails_admission_iff {snap : Snapshot} {subject : String}
    {user : CloudObject} (hres : resolveUser snap subject = some user) :
    (diagnoseUser snap subject).Fails "realm admission" ↔
      (admissionCheck snap (snap.closureOf user.dn) (snap.idpOuOf user.dn)).status = .fail := by
  rw [diagnoseUser_fails_iff hres (by simp [chainLabels])]
  simp [chainOf, identityCheck_label, stateCheck_label, enabledCheck_label, admissionCheck_label]

end Walk

end Kerbridge.Doctor

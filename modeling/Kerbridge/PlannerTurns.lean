import Kerbridge.Planner
import Kerbridge.Runs

/-!
# The turns of a plan

A plan is a sequence of turns: one for every desired account, for every account that
is there, the collision check, one for every group either way, the grant pass, and one
for every membership. The lemmas below say, once for every step of the source, what an
accepted step adds.
-/

namespace Kerbridge.Planner

open Std (ExtTreeMap)
open UnicodeText DirectorySource SamName DistinguishedName RealmState StoredIdentity PlannerNames
  Fallible Runs

/-- A plan with more operations at its end. -/
def Planning.append (p : Planning) (es : List Planned) : Planning :=
  { p with planned := p.planned ++ es }

@[simp] theorem append_planned (p : Planning) (es : List Planned) :
    (p.append es).planned = p.planned ++ es := rfl

@[simp] theorem append_dnOf (p : Planning) (es : List Planned) : (p.append es).dnOf = p.dnOf := rfl

@[simp] theorem append_takenDns (p : Planning) (es : List Planned) :
    (p.append es).takenDns = p.takenDns := rfl

@[simp] theorem append_samKeys (p : Planning) (es : List Planned) :
    (p.append es).samKeys = p.samKeys := rfl

@[simp] theorem append_nil (p : Planning) : p.append [] = p := by
  simp [Planning.append]

@[simp] theorem append_append (p : Planning) (es es' : List Planned) :
    (p.append es).append es' = p.append (es ++ es') := by
  simp [Planning.append]

variable [UnicodeTables]

/-- One turn of a plan. -/
inductive Turn where
  | user (entry : Subject × DesiredUser)
  | userLeaver (oid : Subject)
  | collisions
  | group (entry : Subject × DesiredGroup)
  | groupLeaver (oid : Subject)
  | grant
  | member (entry : Subject × List Subject)

/-- What a turn makes of the plan so far. -/
def turn (s : Scene) (p : Planning) : Turn → Except Stop Planning
  | .user entry => userTurn s p entry
  | .userLeaver oid => userLeaver s p oid
  | .collisions => (refuseCollisions s p.samKeys).map fun _ => p
  | .group entry => groupTurn s p entry
  | .groupLeaver oid => groupLeaver s p oid
  | .grant => grantPass s p
  | .member entry => memberTurn s p.planned p entry

/-- The turns of a plan, in order. -/
def turns (s : Scene) : List Turn :=
  s.desired.users.toList.map .user ++ (sortedOids s.current.users).map .userLeaver ++
    [.collisions] ++ s.desired.groups.toList.map .group ++
    (sortedOids s.current.groups).map .groupLeaver ++ [.grant] ++
    s.desired.membership.toList.map .member

/-- An accepted operation targets the unit, and stands at the end. -/
theorem add_ok {ctx : PlanCtx} {p p' : Planning} {about : Meant} {op : Op}
    (h : p.add ctx about op = .ok p') :
    dnIsAtOrWithin op.dn ctx.idpOu = true ∧ p' = p.append [⟨about, op⟩] := by
  unfold Planning.add at h
  split at h
  · rename_i hwithin
    cases h
    exact ⟨hwithin, rfl⟩
  · cases h

/-- An operation on the unit is accepted. -/
theorem add_of_within {ctx : PlanCtx} {p : Planning} {about : Meant} {op : Op}
    (h : dnIsAtOrWithin op.dn ctx.idpOu = true) :
    p.add ctx about op = .ok (p.append [⟨about, op⟩]) := by
  unfold Planning.add
  rw [if_pos h]
  rfl

/-- Several accepted operations stand at the end, in order. -/
theorem addAll_ok {ctx : PlanCtx} {p p' : Planning} {about : Meant} {ops : List Op}
    (h : p.addAll ctx about ops = .ok p') :
    (∀ op ∈ ops, dnIsAtOrWithin op.dn ctx.idpOu = true) ∧
      p' = p.append (ops.map fun op => ⟨about, op⟩) := by
  unfold Planning.addAll at h
  induction ops generalizing p with
  | nil =>
    cases h
    simp
  | cons op ops ih =>
    obtain ⟨mid, hmid, hrest⟩ := foldlM_cons_ok h
    obtain ⟨hwithin, heq⟩ := add_ok hmid
    obtain ⟨hall, hrest⟩ := ih hrest
    refine ⟨List.forall_mem_cons.mpr ⟨hwithin, hall⟩, ?_⟩
    rw [hrest, heq, append_append]
    simp

/-- A name's component with the suffix that disambiguates it. -/
def suffixed (cn : String) (oid : Subject) : String := cn ++ " (" ++ oid4 oid ++ ")"

/-- The name a component makes in a unit. -/
def dnIn (cn parent : String) : String := "CN=" ++ cn ++ "," ++ parent

/-- The component an object moves to: suffixed when the plain name is another's. -/
def chosenCn (own parent cn : String) (oid : Subject) (taken : List String) : String :=
  if dnIn cn parent ≠ own ∧ dnIn cn parent ∈ taken then suffixed cn oid else cn

/-- The component a new object gets: suffixed when the plain name is taken. -/
def freshCn (cn parent : String) (oid : Subject) (taken : List String) : String :=
  if dnIn cn parent ∈ taken then suffixed cn oid else cn

omit [UnicodeTables] in
/-- A suffixed component, written out. -/
theorem dnIn_suffixed (cn parent : String) (oid : Subject) :
    "CN=" ++ cn ++ " (" ++ oid4 oid ++ ")," ++ parent = dnIn (suffixed cn oid) parent := by
  apply String.toList_injective
  simp [dnIn, suffixed]

omit [UnicodeTables] in
/-- A fresh name is the name of the fresh component. -/
theorem freshDn_eq (cn : String) (oid : Subject) (idpOu : String) (taken : List String) :
    freshDn cn oid idpOu taken =
      (dnIn (freshCn cn idpOu oid taken) idpOu,
        dnIn (freshCn cn idpOu oid taken) idpOu :: taken) := by
  have hplain : "CN=" ++ cn ++ "," ++ idpOu = dnIn cn idpOu := rfl
  simp only [freshDn, freshCn, hplain, dnIn_suffixed]
  by_cases h : dnIn cn idpOu ∈ taken
  · simp [h]
  · simp [h]

omit [UnicodeTables] in
/-- A step taken under a condition was taken, or nothing changed. -/
theorem onlyIf_ok {p p' : Planning} {c : Bool} {step : Planning → Except Stop Planning}
    (h : p.onlyIf c step = .ok p') : c = true ∧ step p = .ok p' ∨ c = false ∧ p' = p := by
  unfold Planning.onlyIf at h
  cases c with
  | true => exact Or.inl ⟨rfl, h⟩
  | false =>
    cases h
    exact Or.inr ⟨rfl, rfl⟩

/-- The names an account is given: the first it offers that is free, or else the first
suffixed when that is. -/
theorem allocNames_ok {du : DesiredUser} {oid : Subject} {samKeys : List String}
    {upnSuffix sam upn cn : String}
    (h : allocNames du oid samKeys upnSuffix = .ok (sam, upn, cn)) :
    fold sam ∉ samKeys ∧
      (sam ∈ offered du ∨ sam = takeChars 15 ((offered du).headD fallback) ++ "-" ++ oid4 oid) ∧
      upn = sam ++ "@" ++ upnSuffix ∧ cn = (safeName du.displayName).getD sam := by
  unfold allocNames at h
  cases hfree : (offered du).find? fun name => decide (fold name ∉ samKeys) with
  | some name =>
    rw [hfree] at h
    cases h
    have hname := List.find?_some hfree
    rw [decide_eq_true_eq] at hname
    exact ⟨hname, Or.inl (List.mem_of_find?_eq_some hfree), rfl, rfl⟩
  | none =>
    rw [hfree] at h
    dsimp only at h
    split at h
    · cases h
    · rename_i hname
      cases h
      exact ⟨hname, Or.inr rfl, rfl, rfl⟩

/-- Creating an account: the subject has no identity, or the account is created under
the names it is given. -/
theorem createUser_ok {s : Scene} {p p' : Planning} {oid : Subject} {du : DesiredUser}
    (h : createUser s p oid du = .ok p') :
    (∃ why, s.ctx.identity oid = .error why ∧ p' = p.conflict (noIdentity oid why)) ∨
      ∃ identity sam upn cn dn, s.ctx.identity oid = .ok identity ∧
        allocNames du oid p.samKeys s.ctx.upnSuffix = .ok (sam, upn, cn) ∧
        dn = dnIn (freshCn cn s.ctx.idpOu oid p.takenDns) s.ctx.idpOu ∧
        dnIsAtOrWithin dn s.ctx.idpOu = true ∧
        p' = ⟨p.planned ++
            [⟨⟨.user, oid⟩, .createUser dn sam upn du.displayName du.enabled identity⟩],
          p.conflicts, p.alerts, p.dnOf.insert oid dn, dn :: p.takenDns, fold sam :: p.samKeys⟩ := by
  unfold createUser at h
  cases hid : s.ctx.identity oid with
  | error why =>
    rw [hid] at h
    cases h
    exact Or.inl ⟨why, rfl, rfl⟩
  | ok identity =>
    rw [hid] at h
    obtain ⟨⟨sam, upn, cn⟩, halloc, hadd⟩ := bind_ok_iff.mp h
    simp only [freshDn_eq] at hadd
    obtain ⟨hwithin, heq⟩ := add_ok hadd
    exact Or.inr ⟨identity, sam, upn, cn, _, rfl, mapError_ok_iff.mp halloc, rfl, hwithin, heq⟩


/-- The operations on one object, each with the object it is planned for. -/
def plannedFor (about : Meant) (ops : List Op) : List Planned := ops.map fun op => ⟨about, op⟩

/-- What is done first to an account that is back. -/
def backOps (du : DesiredUser) (cu : CurrentUser) : List Op :=
  if du.enabled && !cu.enabled then [.clearMarker cu.dn stRetired, .enableUser cu.dn]
  else [.clearMarker cu.dn stRetired]

/-- The rename of an account that is back. -/
def backRename (du : DesiredUser) (cu : CurrentUser) (newCn sam upn : String) : Op :=
  .rename cu.dn newCn (if cu.displayName = some du.displayName then none else some du.displayName)
    (some sam) (some upn)

/-- An account that is back is cleared, perhaps enabled, and renamed unless it still
holds the names it is given. -/
theorem reappearUser_ok {s : Scene} {p p' : Planning} {oid : Subject} {du : DesiredUser}
    {cu : CurrentUser} {restored : Bool}
    (h : reappearUser s p oid du cu = .ok (restored, p')) :
    ∃ sam upn cn newCn,
      allocNames du oid (p.release cu.sam).samKeys s.ctx.upnSuffix = .ok (sam, upn, cn) ∧
      newCn = chosenCn cu.dn (parentOf cu.dn) cn oid p.takenDns ∧
      (restored = true ∧ (sam ≠ cu.sam ∨ dnIn newCn (parentOf cu.dn) ≠ cu.dn) ∧
          p' = ⟨p.planned ++ plannedFor ⟨.user, oid⟩
              (backOps du cu ++ [backRename du cu newCn sam upn]),
            p.conflicts, p.alerts, p.dnOf.insert oid (dnIn newCn (parentOf cu.dn)),
            dnIn newCn (parentOf cu.dn) :: p.takenDns, fold sam :: (p.release cu.sam).samKeys⟩ ∨
        restored = false ∧ sam = cu.sam ∧ dnIn newCn (parentOf cu.dn) = cu.dn ∧
          p' = ⟨p.planned ++ plannedFor ⟨.user, oid⟩ (backOps du cu), p.conflicts, p.alerts,
            p.dnOf, p.takenDns, fold sam :: (p.release cu.sam).samKeys⟩) := by
  unfold reappearUser at h
  obtain ⟨p₁, hclear, h⟩ := bind_ok_iff.mp h
  obtain ⟨p₂, henable, h⟩ := bind_ok_iff.mp h
  obtain ⟨⟨sam, upn, cn⟩, halloc, h⟩ := bind_ok_iff.mp h
  have hp₂ : p₂ = p.append (plannedFor ⟨.user, oid⟩ (backOps du cu)) := by
    rw [(add_ok hclear).2] at henable
    unfold backOps plannedFor
    rcases onlyIf_ok henable with ⟨hc, hstep⟩ | ⟨hc, hsame⟩
    · rw [if_pos hc, (add_ok hstep).2]
      simp
    · rw [hc, hsame]
      simp
  subst hp₂
  refine ⟨sam, upn, cn, _, mapError_ok_iff.mp halloc, rfl, ?_⟩
  change (if sam ≠ cu.sam ∨ dnIn (chosenCn cu.dn (parentOf cu.dn) cn oid p.takenDns)
    (parentOf cu.dn) ≠ cu.dn then _ else _) = _ at h
  split at h
  · rename_i hmoved
    obtain ⟨p₃, hrename, h⟩ := bind_ok_iff.mp h
    cases h
    refine Or.inl ⟨rfl, hmoved, ?_⟩
    rw [(add_ok hrename).2]
    simp only [plannedFor, List.map_append, ← List.append_assoc]
    rfl
  · rename_i hstays
    cases h
    rw [not_or, not_not, not_not] at hstays
    exact Or.inr ⟨rfl, hstays.1, hstays.2, rfl⟩

/-- An account that stays is enabled or disabled when it differs. -/
theorem followEnabled_ok {s : Scene} {p p' : Planning} {oid : Subject} {du : DesiredUser}
    {cu : CurrentUser} (h : followEnabled s p oid du cu = .ok p') :
    du.enabled = cu.enabled ∧ p' = p ∨ du.enabled ≠ cu.enabled ∧ p' = p.append (plannedFor
      ⟨.user, oid⟩ [if du.enabled then .enableUser cu.dn else .disableUser cu.dn]) := by
  unfold followEnabled at h
  split at h
  · rename_i hne
    exact Or.inr ⟨hne, (add_ok h).2⟩
  · rename_i heq
    cases h
    exact Or.inl ⟨not_not.mp heq, rfl⟩

/-- The operations that give an account its login name. -/
def samOps (cu : CurrentUser) (sam upn : String) : List Op :=
  if sam = cu.sam then []
  else [.setAttr cu.dn "sAMAccountName" sam, .setAttr cu.dn "userPrincipalName" upn]

/-- A live account holds the login name it is given. -/
theorem followSam_ok {s : Scene} {p p' : Planning} {oid : Subject} {du : DesiredUser}
    {cu : CurrentUser} (h : followSam s p oid du cu = .ok p') :
    ∃ sam upn cn,
      allocNames du oid (p.release cu.sam).samKeys s.ctx.upnSuffix = .ok (sam, upn, cn) ∧
      p' = ⟨p.planned ++ plannedFor ⟨.user, oid⟩ (samOps cu sam upn), p.conflicts, p.alerts, p.dnOf,
        p.takenDns, fold sam :: (p.release cu.sam).samKeys⟩ := by
  obtain ⟨⟨sam, upn, cn⟩, halloc, h⟩ := bind_ok_iff.mp h
  refine ⟨sam, upn, cn, mapError_ok_iff.mp halloc, ?_⟩
  dsimp only at h
  unfold samOps
  split at h
  · rename_i hne
    rw [(addAll_ok h).2, if_neg hne]
    rfl
  · rename_i heq
    cases h
    rw [if_pos (not_not.mp heq)]
    simp [plannedFor, Planning.hold, Planning.release]

/-- The common name of a display name, or the login name when nothing of it survives. -/
def shownCn (du : DesiredUser) (cu : CurrentUser) : String := (safeName du.displayName).getD cu.sam

/-- The component a live account moves to. -/
def followedCn (p : Planning) (oid : Subject) (du : DesiredUser) (cu : CurrentUser) : String :=
  chosenCn cu.dn (parentOf cu.dn) (shownCn du cu) oid p.takenDns

/-- A live account is shown under its display name, and renamed unless it holds the
component it is given. -/
theorem followDisplayName_ok {s : Scene} {p p' : Planning} {oid : Subject} {du : DesiredUser}
    {cu : CurrentUser} {newdn : String}
    (hdn : newdn = dnIn (followedCn p oid du cu) (parentOf cu.dn))
    (h : followDisplayName s p oid du cu = .ok p') :
    newdn = cu.dn ∧ p' = p.append (plannedFor ⟨.user, oid⟩
        [.setAttr cu.dn "displayName" du.displayName]) ∨
      newdn ≠ cu.dn ∧ p' = ⟨p.planned ++ plannedFor ⟨.user, oid⟩
          [.rename cu.dn (followedCn p oid du cu) (some du.displayName) none none],
        p.conflicts, p.alerts, p.dnOf.insert oid newdn, newdn :: p.takenDns, p.samKeys⟩ := by
  subst hdn
  have hmove : ∀ cn, moveUser s p oid du cu cn = .ok p' → p' = ⟨p.planned ++
      plannedFor ⟨.user, oid⟩ [.rename cu.dn cn (some du.displayName) none none], p.conflicts,
      p.alerts, p.dnOf.insert oid (dnIn cn (parentOf cu.dn)),
      dnIn cn (parentOf cu.dn) :: p.takenDns, p.samKeys⟩ := by
    intro cn h
    obtain ⟨p₁, hadd, h⟩ := bind_ok_iff.mp h
    cases h
    rw [(add_ok hadd).2]
    rfl
  have hplain : "CN=" ++ (safeName du.displayName).getD cu.sam ++ "," ++ parentOf cu.dn =
      dnIn (shownCn du cu) (parentOf cu.dn) := rfl
  unfold followDisplayName at h
  simp only [hplain, dnIn_suffixed] at h
  unfold followedCn chosenCn
  by_cases hown : dnIn (shownCn du cu) (parentOf cu.dn) = cu.dn
  · rw [if_pos hown] at h
    rw [if_neg (fun hc => hc.1 hown)]
    exact Or.inl ⟨hown, (add_ok h).2⟩
  · rw [if_neg hown] at h
    by_cases htaken : dnIn (shownCn du cu) (parentOf cu.dn) ∈ p.takenDns
    · rw [if_pos htaken] at h
      rw [if_pos ⟨hown, htaken⟩]
      change (if dnIn (suffixed (shownCn du cu) oid) (parentOf cu.dn) = cu.dn then _ else _) = _ at h
      split at h
      · rename_i hsame
        exact Or.inl ⟨hsame, (add_ok h).2⟩
      · rename_i hother
        exact Or.inr ⟨hother, hmove _ h⟩
    · rw [if_neg htaken] at h
      rw [if_neg (fun hc => htaken hc.2)]
      exact Or.inr ⟨hown, hmove _ h⟩

/-- The names retirement gives an object. -/
def releasedNames (p : Planning) (dn sam label : String) (oid : Subject) : RetiredNames :=
  retiredNames dn sam label oid p.samKeys p.takenDns

/-- An object that is leaving gives up its name, unless it has. -/
theorem releaseName_ok {s : Scene} {p p' : Planning} {about : Meant} {dn sam label : String}
    {setUpn : String → Option String} {names : RetiredNames}
    (hnames : names = releasedNames p dn sam label about.subject)
    (h : releaseName s p about dn sam label setUpn = .ok p') :
    startsWith sam retiredPrefix = true ∧ p' = p ∨
      startsWith sam retiredPrefix = false ∧ p' = ⟨p.planned ++ plannedFor about
          [.rename dn names.cn none (some names.sam) (setUpn names.sam)],
        p.conflicts, p.alerts, p.dnOf, dnIn names.cn (parentOf dn) :: p.takenDns,
        fold names.sam :: p.samKeys⟩ := by
  subst hnames
  unfold releaseName at h
  split at h
  · rename_i hheld
    cases h
    exact Or.inl ⟨hheld, rfl⟩
  · rename_i hheld
    exact Or.inr ⟨Bool.not_eq_true _ ▸ hheld, (add_ok h).2⟩

/-- The operations on an account that is leaving, before it gives up its name. -/
def leaveOps (s : Scene) (cu : CurrentUser) : List Op :=
  (if hasMarker cu.markers stRetired then []
    else [.disableUser cu.dn, .setMarker cu.dn (stRetired ++ s.ctx.now)]) ++
  if hasMarker cu.markers DeviceGrants.grantPrefix then
    [.clearMarker cu.dn DeviceGrants.grantPrefix] else []

/-- The user principal name of a login name. -/
def upnOf (s : Scene) (sam : String) : Option String := some (sam ++ "@" ++ s.ctx.upnSuffix)

/-- An account that is leaving is disabled and marked, loses its grants, and gives up
its name. -/
theorem retireUser_ok {s : Scene} {p p' : Planning} {oid : Subject} {cu : CurrentUser}
    (h : retireUser s p oid cu = .ok p') :
    releaseName s (p.append (plannedFor ⟨.user, oid⟩ (leaveOps s cu))) ⟨.user, oid⟩ cu.dn cu.sam
      (cu.displayName.getD cu.sam) (upnOf s) = .ok p' := by
  obtain ⟨p₁, hmark, h⟩ := bind_ok_iff.mp h
  obtain ⟨p₂, hgrant, h⟩ := bind_ok_iff.mp h
  have hp₂ : p₂ = p.append (plannedFor ⟨.user, oid⟩ (leaveOps s cu)) := by
    unfold leaveOps plannedFor
    have hp₁ : p₁ = p.append (plannedFor ⟨.user, oid⟩ (if hasMarker cu.markers stRetired then []
        else [.disableUser cu.dn, .setMarker cu.dn (stRetired ++ s.ctx.now)])) := by
      rcases onlyIf_ok hmark with ⟨hc, hstep⟩ | ⟨hc, hsame⟩
      · rw [(addAll_ok hstep).2, if_neg (by simpa using hc)]
        rfl
      · rw [hsame, if_pos (by simpa using hc)]
        simp [plannedFor]
    rcases onlyIf_ok hgrant with ⟨hc, hstep⟩ | ⟨hc, hsame⟩
    · rw [(add_ok hstep).2, hp₁, if_pos hc]
      simp [plannedFor]
    · rw [hsame, hp₁, hc]
      simp [plannedFor]
  rw [← hp₂]
  exact h

/-- Whether an account's login name follows its display name. -/
def followsSam (s : Scene) (cu : CurrentUser) : Bool :=
  s.ctx.automaticSamRenames && !hasMarker cu.markers stNamePinned

/-- A desired account that is there is restored or follows the IdP, takes its login name
when names follow and it is not pinned, and is shown under its display name. -/
theorem existingUser_ok {s : Scene} {p p' : Planning} {oid : Subject} {du : DesiredUser}
    {cu : CurrentUser} (h : existingUser s p oid du cu = .ok p') :
    ∃ restored p₁ p₂, restoreUser s (p.locate oid cu.dn) oid du cu = .ok (restored, p₁) ∧
      (restored = false ∧ followsSam s cu = true ∧ followSam s p₁ oid du cu = .ok p₂ ∨
        (restored = true ∨ followsSam s cu = false) ∧ p₂ = p₁) ∧
      (restored = false ∧ cu.displayName ≠ some du.displayName ∧
          followDisplayName s p₂ oid du cu = .ok p' ∨
        (restored = true ∨ cu.displayName = some du.displayName) ∧ p' = p₂) := by
  obtain ⟨⟨restored, p₁⟩, hrestore, h⟩ := bind_ok_iff.mp h
  obtain ⟨p₂, hsam, h⟩ := bind_ok_iff.mp h
  have hfollows : (!restored && s.ctx.automaticSamRenames && !hasMarker cu.markers stNamePinned) =
      (!restored && followsSam s cu) := Bool.and_assoc ..
  refine ⟨restored, p₁, p₂, hrestore, ?_, ?_⟩
  · rw [hfollows] at hsam
    rcases onlyIf_ok hsam with ⟨hc, hstep⟩ | ⟨hc, hsame⟩
    · simp only [Bool.and_eq_true, Bool.not_eq_true'] at hc
      exact Or.inl ⟨hc.1, hc.2, hstep⟩
    · simp only [Bool.and_eq_false_iff, Bool.not_eq_false'] at hc
      exact Or.inr ⟨hc, hsame⟩
  · rcases onlyIf_ok h with ⟨hc, hstep⟩ | ⟨hc, hsame⟩
    · simp only [Bool.and_eq_true, Bool.not_eq_true', decide_eq_true_eq] at hc
      exact Or.inl ⟨hc.1, hc.2, hstep⟩
    · refine Or.inr ⟨?_, hsame⟩
      simp only [Bool.and_eq_false_iff, Bool.not_eq_false', decide_eq_false_iff_not, not_not] at hc
      exact hc

/-- The role marker a new group is created with. -/
def roleOf (s : Scene) (oid : Subject) : Option String :=
  if oid = s.ctx.admission then some roleAdmission else none

/-- Creating a group: the subject has no identity, or the group is created under the
names it is given. -/
theorem createGroup_ok {s : Scene} {p p' : Planning} {oid : Subject} {dg : DesiredGroup}
    {cn sam dn : String} (hnames : groupNames dg.displayName oid s.ctx.groupSuffix = (cn, sam))
    (hdn : dn = dnIn (freshCn cn s.ctx.idpOu oid p.takenDns) s.ctx.idpOu)
    (h : createGroup s p oid dg = .ok p') :
    (∃ why, s.ctx.identity oid = .error why ∧ p' = p.conflict (noIdentity oid why)) ∨
      ∃ identity alerts, s.ctx.identity oid = .ok identity ∧
        dnIsAtOrWithin dn s.ctx.idpOu = true ∧
        p' = ⟨p.planned ++ plannedFor ⟨.group, oid⟩ [.createGroup dn sam identity (roleOf s oid)],
          p.conflicts, alerts, p.dnOf.insert oid dn, dn :: p.takenDns, p.samKeys⟩ := by
  unfold createGroup at h
  cases hid : s.ctx.identity oid with
  | error why =>
    rw [hid] at h
    cases h
    exact Or.inl ⟨why, rfl, rfl⟩
  | ok identity =>
    rw [hid] at h
    simp only [hnames, freshDn_eq, ← hdn] at h
    unfold roleOf
    refine Or.inr ⟨identity, p'.alerts, rfl, ?_⟩
    by_cases hadmission : oid = s.ctx.admission
    · rw [if_pos hadmission] at h
      obtain ⟨hwithin, heq⟩ := add_ok h
      refine ⟨hwithin, ?_⟩
      rw [heq, if_pos hadmission]
      cases s.unmarked with
      | true => rfl
      | false => rfl
    · rw [if_neg hadmission] at h
      obtain ⟨hwithin, heq⟩ := add_ok h
      refine ⟨hwithin, ?_⟩
      rw [heq, if_neg hadmission]
      rfl

/-- The component a group moves to. -/
def movedCn (p : Planning) (oid : Subject) (cg : CurrentGroup) (cn : String) : String :=
  chosenCn cg.dn (parentOf cg.dn) cn oid p.takenDns

/-- The component a rename writes for a new name. -/
def writtenCn (newdn : String) : Option String :=
  (sliceFrom 3 (beforeFirst ',' newdn).toList).map String.ofList

/-- A group is renamed unless it holds the component it is given. -/
theorem moveGroup_ok {s : Scene} {p p' : Planning} {oid : Subject} {dg : DesiredGroup}
    {cg : CurrentGroup} {cn sam newdn : String}
    (hnames : groupNames dg.displayName oid s.ctx.groupSuffix = (cn, sam))
    (hdn : newdn = dnIn (movedCn p oid cg cn) (parentOf cg.dn))
    (h : moveGroup s p oid dg cg = .ok p') :
    newdn = cg.dn ∧ p' = p ∨ newdn ≠ cg.dn ∧ ∃ newCn, writtenCn newdn = some newCn ∧
      p' = ⟨p.planned ++ plannedFor ⟨.group, oid⟩ [.rename cg.dn newCn none (some sam) none],
        p.conflicts, p.alerts, p.dnOf.insert oid newdn, newdn :: p.takenDns, p.samKeys⟩ := by
  have hchosen : (if dnIn cn (parentOf cg.dn) ≠ cg.dn ∧ dnIn cn (parentOf cg.dn) ∈ p.takenDns then
      dnIn (suffixed cn oid) (parentOf cg.dn) else dnIn cn (parentOf cg.dn)) = newdn := by
    rw [hdn]
    unfold movedCn chosenCn
    split
    · rfl
    · rfl
  have hplain : "CN=" ++ cn ++ "," ++ parentOf cg.dn = dnIn cn (parentOf cg.dn) := rfl
  unfold moveGroup at h
  simp only [hnames, hplain, dnIn_suffixed, hchosen] at h
  split at h
  · rename_i hsame
    cases h
    exact Or.inl ⟨hsame, rfl⟩
  · rename_i hother
    refine Or.inr ⟨hother, ?_⟩
    unfold writtenCn
    cases hslice : sliceFrom 3 (beforeFirst ',' newdn).toList with
    | none =>
      simp only [hslice] at h
      cases h
    | some newCn =>
      simp only [hslice] at h
      obtain ⟨p₁, hadd, h⟩ := bind_ok_iff.mp h
      cases h
      refine ⟨_, rfl, ?_⟩
      rw [(add_ok hadd).2]
      rfl

/-- The operation that ends a quarantine. -/
def reviveOps (cg : CurrentGroup) : List Op :=
  if hasMarker cg.markers stQuar then [.clearMarker cg.dn stQuar] else []

/-- The operation that marks the admission group. -/
def admissionOps (s : Scene) (oid : Subject) (cg : CurrentGroup) : List Op :=
  if decide (oid = s.ctx.admission) && s.unmarked then [.setRoleMarker cg.dn roleAdmission] else []

/-- A desired group that is there leaves quarantine, is renamed for its display name, and
is marked when it is the admission group and no group is. -/
theorem existingGroup_ok {s : Scene} {p p' : Planning} {oid : Subject} {dg : DesiredGroup}
    {cg : CurrentGroup} (h : existingGroup s p oid dg cg = .ok p') :
    ∃ p₁, (dg.displayName ≠ cg.displayName ∧
          moveGroup s ((p.locate oid cg.dn).append (plannedFor ⟨.group, oid⟩ (reviveOps cg))) oid dg
            cg = .ok p₁ ∨
        dg.displayName = cg.displayName ∧
          p₁ = (p.locate oid cg.dn).append (plannedFor ⟨.group, oid⟩ (reviveOps cg))) ∧
      p' = p₁.append (plannedFor ⟨.group, oid⟩ (admissionOps s oid cg)) := by
  obtain ⟨p₀, hrevive, hrest⟩ := bind_ok_iff.mp h
  obtain ⟨p₁, hmove, hmark⟩ := bind_ok_iff.mp hrest
  have hp₀ : p₀ = (p.locate oid cg.dn).append (plannedFor ⟨.group, oid⟩ (reviveOps cg)) := by
    unfold reviveOps
    rcases onlyIf_ok hrevive with ⟨hc, hstep⟩ | ⟨hc, hsame⟩
    · rw [(add_ok hstep).2, if_pos hc]
      rfl
    · rw [hsame, hc]
      simp [plannedFor]
  subst hp₀
  refine ⟨p₁, ?_, ?_⟩
  · rcases onlyIf_ok hmove with ⟨hc, hstep⟩ | ⟨hc, hsame⟩
    · exact Or.inl ⟨of_decide_eq_true hc, hstep⟩
    · exact Or.inr ⟨not_not.mp (of_decide_eq_false hc), hsame⟩
  · unfold admissionOps
    rcases onlyIf_ok hmark with ⟨hc, hstep⟩ | ⟨hc, hsame⟩
    · rw [(add_ok hstep).2, if_pos hc]
      rfl
    · rw [hsame, hc]
      simp [plannedFor]

/-- The operations on a group that is leaving, before it gives up its name. -/
def emptyOps (s : Scene) (cg : CurrentGroup) : List Op :=
  if hasMarker cg.markers stQuar then []
  else [.clearMembers cg.dn (foreignMembers s cg), .setMarker cg.dn (stQuar ++ s.ctx.now)]

/-- A plan that differs in what it reports alone. -/
def Planning.SameWork (p p' : Planning) : Prop :=
  p'.planned = p.planned ∧ p'.dnOf = p.dnOf ∧ p'.takenDns = p.takenDns ∧ p'.samKeys = p.samKeys

/-- A group that is leaving is emptied and marked, and gives up its name. -/
theorem quarantineGroup_ok {s : Scene} {p p' : Planning} {oid : Subject} {cg : CurrentGroup}
    (h : quarantineGroup s p oid cg = .ok p') :
    ∃ p₁, (p.append (plannedFor ⟨.group, oid⟩ (emptyOps s cg))).SameWork p₁ ∧
      releaseName s p₁ ⟨.group, oid⟩ cg.dn cg.sam cg.displayName (fun _ => none) = .ok p' := by
  obtain ⟨p₁, hempty, h⟩ := bind_ok_iff.mp h
  refine ⟨p₁, ?_, h⟩
  unfold emptyOps
  rcases onlyIf_ok hempty with ⟨hc, hstep⟩ | ⟨hc, hsame⟩
  · rw [(addAll_ok hstep).2, if_neg (by simpa using hc)]
    exact ⟨rfl, rfl, rfl, rfl⟩
  · rw [hsame, if_pos (by simpa using hc)]
    exact ⟨by simp [plannedFor], rfl, rfl, rfl⟩

/-- A role marker is taken off the last group with the subject. -/
theorem clearRole_ok {ctx : PlanCtx} {current : Current} {role : String} {p p' : Planning}
    {oid : Subject} (h : clearRole ctx current role p oid = .ok p') :
    ∃ cg, lookup current.groups oid = some cg ∧
      p' = p.append (plannedFor ⟨.group, oid⟩ [.clearMarker cg.dn role]) := by
  unfold clearRole at h
  cases hcg : lookup current.groups oid with
  | none =>
    rw [hcg] at h
    cases h
  | some cg =>
    rw [hcg] at h
    exact ⟨cg, rfl, (add_ok h).2⟩

/-- The operations that take a role marker off the groups with some subjects. -/
def clearOps (current : Current) (role : String) (oids : List Subject) : List Planned :=
  oids.filterMap fun oid => (lookup current.groups oid).map fun cg =>
    ⟨⟨.group, oid⟩, .clearMarker cg.dn role⟩

/-- The role marker is taken off one group after the other. -/
theorem foldlM_clearRole {ctx : PlanCtx} {current : Current} {role : String} {p p' : Planning}
    {oids : List Subject} (h : oids.foldlM (clearRole ctx current role) p = .ok p') :
    p' = p.append (clearOps current role oids) := by
  induction oids generalizing p with
  | nil =>
    cases h
    simp [clearOps]
  | cons oid oids ih =>
    obtain ⟨mid, hmid, hrest⟩ := foldlM_cons_ok h
    obtain ⟨cg, hcg, heq⟩ := clearRole_ok hmid
    rw [ih hrest, heq, append_append]
    simp [clearOps, plannedFor, hcg]

/-- The subjects the device-grant marker is taken off. -/
def grantStale (s : Scene) (oid : Subject) : List Subject :=
  (carriers s.current roleDeviceGrant).filter (· ≠ oid)

/-- The operation that marks the device-grant group. -/
def grantOps (s : Scene) (oid : Subject) (dn : String) : List Planned :=
  if oid ∈ carriers s.current roleDeviceGrant then []
  else plannedFor ⟨.group, oid⟩ [.setRoleMarker dn roleDeviceGrant]

/-- The device-grant group the configuration names, where it is or will be. -/
def GrantPlace (s : Scene) (p : Planning) (oid : Subject) (dn : String) : Prop :=
  s.ctx.grant = some oid ∧ oid ∈ s.desired.groups ∧ p.dnOf[oid]? = some dn

/-- The device-grant marker is moved when the group that should carry it has a place, and
nothing but reports changes otherwise. -/
theorem grantPass_ok {s : Scene} {p p' : Planning} (h : grantPass s p = .ok p') :
    (∀ oid dn, ¬GrantPlace s p oid dn) ∧ p.SameWork p' ∨
      ∃ oid dn, GrantPlace s p oid dn ∧ p' = p.append
        (clearOps s.current roleDeviceGrant (grantStale s oid) ++ grantOps s oid dn) := by
  unfold grantPass at h
  unfold GrantPlace
  dsimp only at h
  cases hgrant : s.ctx.grant with
  | none =>
    rw [hgrant] at h
    dsimp only at h
    have hnone : ∀ oid dn, ¬((none : Option Subject) = some oid ∧ oid ∈ s.desired.groups ∧
        p.dnOf[oid]? = some dn) := by
      rintro oid dn ⟨hc, _⟩
      cases hc
    refine Or.inl ⟨hnone, ?_⟩
    split at h
    · cases h
      exact ⟨rfl, rfl, rfl, rfl⟩
    · cases h
      exact ⟨rfl, rfl, rfl, rfl⟩
  | some oid =>
    rw [hgrant] at h
    dsimp only at h
    split at h
    · rename_i hmem
      cases h
      refine Or.inl ⟨?_, rfl, rfl, rfl, rfl⟩
      rintro _ dn ⟨hsame, hdesired, _⟩
      cases hsame
      exact hmem hdesired
    · rename_i hmem
      cases hdn : p.dnOf[oid]? with
      | none =>
        rw [hdn] at h
        cases h
        refine Or.inl ⟨?_, rfl, rfl, rfl, rfl⟩
        rintro _ dn ⟨hsame, _, hplace⟩
        cases hsame
        rw [hdn] at hplace
        cases hplace
      | some dn =>
        rw [hdn] at h
        obtain ⟨p₁, hclear, h⟩ := bind_ok_iff.mp h
        refine Or.inr ⟨oid, dn, ⟨rfl, not_not.mp hmem, hdn⟩, ?_⟩
        have hp₁ := foldlM_clearRole hclear
        unfold grantStale grantOps
        split at h
        · rename_i hcarries
          cases h
          rw [hp₁, if_pos hcarries, List.append_nil]
        · rename_i hcarries
          rw [(add_ok h).2, hp₁, if_neg hcarries, append_append]
          rfl

omit [UnicodeTables] in
/-- Changes to what is reported add up. -/
theorem Planning.SameWork.trans {p p' p'' : Planning} (h : p.SameWork p') (h' : p'.SameWork p'') :
    p.SameWork p'' :=
  ⟨h'.1.trans h.1, h'.2.1.trans h.2.1, h'.2.2.1.trans h.2.2.1, h'.2.2.2.trans h.2.2.2⟩

/-- The members that go are those of the unit that are not ambiguous. -/
def Dropped (s : Scene) (m : String) : Bool :=
  decide (m ∉ s.dupeDns) && dnIsAtOrWithin m s.ctx.idpOu

/-- Every member nobody wants is removed, frozen or reported. -/
theorem foldlM_dropMember {s : Scene} {goid : Subject} {gdn : String} {p p' : Planning}
    {ms : List String} (h : ms.foldlM (dropMember s goid gdn) p = .ok p') :
    (p.append (plannedFor ⟨.group, goid⟩
      ((ms.filter (Dropped s)).map (.removeMember gdn)))).SameWork p' := by
  induction ms generalizing p with
  | nil =>
    cases h
    exact ⟨by simp [plannedFor], rfl, rfl, rfl⟩
  | cons m ms ih =>
    obtain ⟨mid, hmid, hrest⟩ := foldlM_cons_ok h
    have hlater := ih hrest
    unfold dropMember at hmid
    unfold Dropped at hlater ⊢
    by_cases hdupe : m ∈ s.dupeDns
    · rw [if_pos hdupe] at hmid
      cases hmid
      simpa [hdupe, Planning.SameWork, Planning.conflict] using hlater
    · rw [if_neg hdupe] at hmid
      by_cases hwithin : dnIsAtOrWithin m s.ctx.idpOu = true
      · rw [if_pos hwithin] at hmid
        rw [(add_ok hmid).2] at hlater
        simpa [hdupe, hwithin, Planning.SameWork, plannedFor] using hlater
      · rw [if_neg hwithin] at hmid
        cases hmid
        simpa [hdupe, hwithin, Planning.SameWork, Planning.conflict] using hlater

/-- The members a group should have, where they are. -/
def wanted (p : Planning) (members : List Subject) : List String :=
  members.filterMap fun m => p.dnOf[m]?

/-- The members a group has, under the names they will have. -/
def held (s : Scene) (moves : List Planned) (goid : Subject) : List String :=
  match lookup s.current.groups goid with
  | some cg => cg.members.map (renamed moves)
  | none => []

/-- The operations of one membership turn: what is wanted and not held is added, and
what is held and not wanted is dropped. -/
def memberOps (s : Scene) (moves : List Planned) (p : Planning) (entry : Subject × List Subject)
    (gdn : String) : List Op :=
  (sortedTexts ((wanted p entry.2).filter (· ∉ held s moves entry.1))).map (.addMember gdn) ++
    ((sortedTexts ((held s moves entry.1).filter (· ∉ wanted p entry.2))).filter (Dropped s)).map
      (.removeMember gdn)

/-- A group whose members are brought to what is wanted, where it is or will be. -/
def MemberPlace (s : Scene) (p : Planning) (goid : Subject) (gdn : String) : Prop :=
  goid ∉ s.dupes ∧ goid ∈ s.desired.groups ∧ p.dnOf[goid]? = some gdn

/-- A membership turn changes nothing, or brings a located group's members to what is
wanted. -/
theorem memberTurn_ok {s : Scene} {moves : List Planned} {p p' : Planning}
    {entry : Subject × List Subject} (h : memberTurn s moves p entry = .ok p') :
    (∀ gdn, ¬MemberPlace s p entry.1 gdn) ∧ p' = p ∨ ∃ gdn, MemberPlace s p entry.1 gdn ∧
      (p.append (plannedFor ⟨.group, entry.1⟩ (memberOps s moves p entry gdn))).SameWork p' := by
  unfold memberTurn at h
  unfold MemberPlace
  split at h
  · rename_i hskip
    cases h
    refine Or.inl ⟨?_, rfl⟩
    rintro gdn ⟨hfree, hdesired, _⟩
    rcases hskip with hdupe | hmissing
    · exact hfree hdupe
    · exact hmissing hdesired
  · rename_i hskip
    rw [not_or, not_not] at hskip
    cases hdn : p.dnOf[entry.1]? with
    | none =>
      rw [hdn] at h
      cases h
      refine Or.inl ⟨?_, rfl⟩
      rintro gdn ⟨_, _, hplace⟩
      cases hplace
    | some gdn =>
      rw [hdn] at h
      obtain ⟨p₁, hadd, hdrop⟩ := bind_ok_iff.mp h
      refine Or.inr ⟨gdn, ⟨hskip.1, hskip.2, rfl⟩, ?_⟩
      have hwork := foldlM_dropMember hdrop
      rw [(addAll_ok hadd).2, append_append] at hwork
      unfold memberOps plannedFor
      rw [List.map_append]
      exact hwork

omit [UnicodeTables] in
/-- Operations that rename nothing leave the planned renames as they are. -/
theorem renames_append {planned es : List Planned} (h : ∀ e ∈ es, e.op.move = none) :
    renames (planned ++ es) = renames planned := by
  unfold renames
  rw [List.filterMap_append, List.filterMap_eq_nil_iff.mpr h, List.append_nil]

/-- No membership operation renames. -/
theorem renames_memberOps (s : Scene) (moves : List Planned) (p : Planning)
    (entry : Subject × List Subject) (gdn : String) (planned : List Planned) :
    renames (planned ++ plannedFor ⟨.group, entry.1⟩ (memberOps s moves p entry gdn)) =
      renames planned := by
  refine renames_append ?_
  intro e he
  obtain ⟨op, hop, rfl⟩ := List.mem_map.mp he
  rcases List.mem_append.mp hop with hadd | hdrop
  · obtain ⟨m, _, rfl⟩ := List.mem_map.mp hadd
    rfl
  · obtain ⟨m, _, rfl⟩ := List.mem_map.mp hdrop
    rfl

/-- A membership turn reads the planned renames alone. -/
theorem memberTurn_congr {s : Scene} {moves moves' : List Planned}
    (h : renames moves = renames moves') : memberTurn s moves = memberTurn s moves' := by
  have hrenamed : renamed moves = renamed moves' := by
    funext dn
    unfold renamed
    rw [h]
  funext p entry
  unfold memberTurn
  rw [hrenamed]

/-- The membership loop may read the planned renames at every turn. -/
theorem foldlM_memberTurn (s : Scene) (moves : List Planned)
    (entries : List (Subject × List Subject)) {p : Planning}
    (h : renames p.planned = renames moves) :
    entries.foldlM (memberTurn s moves) p =
      (entries.map Turn.member).foldlM (turn s) p := by
  induction entries generalizing p with
  | nil => rfl
  | cons entry entries ih =>
    rw [List.map_cons, List.foldlM_cons, List.foldlM_cons]
    change _ = memberTurn s p.planned p entry >>= _
    rw [memberTurn_congr h]
    cases hturn : memberTurn s moves p entry with
    | error e => rfl
    | ok p' =>
      refine ih ?_
      rcases memberTurn_ok hturn with ⟨_, hsame⟩ | ⟨gdn, _, hwork⟩
      · rw [hsame]
        exact h
      · rw [hwork.1, append_planned, renames_memberOps]
        exact h

/-- The loops are the turns, one after the other. -/
theorem passes_eq (s : Scene) (p : Planning) : passes s p = (turns s).foldlM (turn s) p := by
  unfold passes turns
  simp only [List.foldlM_append, List.foldlM_map, List.foldlM_cons, List.foldlM_nil, bind_assoc]
  refine bind_congr fun p₁ => bind_congr fun p₂ => ?_
  have hcheck : turn s p₂ .collisions = (refuseCollisions s p₂.samKeys).map fun _ => p₂ := rfl
  rw [hcheck]
  cases refuseCollisions s p₂.samKeys with
  | error e => rfl
  | ok _ =>
    change (s.desired.groups.toList.foldlM (groupTurn s) p₂ >>= _) =
      (s.desired.groups.toList.foldlM (groupTurn s) p₂ >>= _)
    refine bind_congr fun p₃ => bind_congr fun p₄ => bind_congr fun p₅ => ?_
    rw [foldlM_memberTurn s p₅.planned _ rfl, List.foldlM_map]
    rfl

/-- How a plan came about: it is frozen, or the stale markers go first and the turns
follow. -/
theorem planning_ok {desired : Desired} {current : Current} {ctx : PlanCtx} {p : Planning}
    (h : planning desired current ctx = .ok p) :
    (∃ alert, freeze desired current ctx = some alert ∧ p = { alerts := [alert] }) ∨
      ∃ p₀ sc, freeze desired current ctx = none ∧ stalePass current ctx = .ok p₀ ∧
        scan current = .ok sc ∧
        (turns (sceneOf desired current ctx sc)).foldlM (turn (sceneOf desired current ctx sc))
          (opening current sc p₀) = .ok p := by
  unfold planning at h
  cases hfreeze : freeze desired current ctx with
  | some alert =>
    rw [hfreeze] at h
    cases h
    exact Or.inl ⟨alert, rfl, rfl⟩
  | none =>
    rw [hfreeze] at h
    obtain ⟨p₀, hstale, h⟩ := bind_ok_iff.mp h
    obtain ⟨sc, hscan, h⟩ := bind_ok_iff.mp h
    rw [passes_eq] at h
    exact Or.inr ⟨p₀, sc, rfl, hstale, hscan, h⟩

/-- A condition holds at every turn of a plan, in the state the turn is taken in. -/
def AlongTurns (desired : Desired) (current : Current) (ctx : PlanCtx)
    (C : Scene → Planning → Turn → Prop) : Prop :=
  ∀ p₀ sc, freeze desired current ctx = none → stalePass current ctx = .ok p₀ →
    scan current = .ok sc → Along (turn (sceneOf desired current ctx sc))
      (C (sceneOf desired current ctx sc)) (opening current sc p₀)
      (turns (sceneOf desired current ctx sc))

/-- A property of operations that holds of none and of the stale markers, and that each turn
extends exactly by a condition, holds of a plan exactly when the condition does all along. -/
theorem planned_iff {desired : Desired} {current : Current} {ctx : PlanCtx} {plan : Plan}
    {Q : List Op → Prop} {C : Scene → Planning → Turn → Prop} (hnone : Q [])
    (hstale : ∀ oids, Q ((clearOps current roleAdmission oids).map Planned.op))
    (hstep : ∀ {sc p t p'}, turn (sceneOf desired current ctx sc) p t = .ok p' →
      (Q (p'.planned.map Planned.op) ↔
        Q (p.planned.map Planned.op) ∧ C (sceneOf desired current ctx sc) p t))
    (h : planSync desired current ctx = .ok plan) :
    Q plan.ops ↔ AlongTurns desired current ctx C := by
  obtain ⟨p, hp, rfl⟩ := map_ok_iff.mp h
  change Q (p.planned.map Planned.op) ↔ _
  rcases planning_ok hp with ⟨alert, hfreeze, hempty⟩ | ⟨p₀, sc, hfreeze, hfirst, hscan, hturns⟩
  · refine iff_of_true (by rw [hempty]; exact hnone) ?_
    intro p₀ sc hthaw
    rw [hfreeze] at hthaw
    cases hthaw
  · have hopening : Q ((opening current sc p₀).planned.map Planned.op) := by
      unfold stalePass at hfirst
      rw [foldlM_clearRole hfirst]
      exact hstale _
    have hrun := @along_iff _ _ _ _ (fun _ => True) _ _ _ _ _
      (fun p t p' _ _ hturn => ⟨trivial, hstep hturn⟩) trivial hturns
    rw [hrun, and_iff_right hopening]
    constructor
    · intro halong p₀' sc' _ hfirst' hscan'
      rw [hfirst] at hfirst'
      rw [hscan] at hscan'
      cases hfirst'
      cases hscan'
      exact halong
    · intro hall
      exact hall p₀ sc hfreeze hfirst hscan

end Kerbridge.Planner

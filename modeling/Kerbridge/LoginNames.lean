import Kerbridge.PlannerTurns
import Kerbridge.Runs
import Kerbridge.SanitizedNames

/-!
# The login names a plan assigns

A login name is minted from one of the names an account offers, or shortened and given a
suffix when all of them are held. The names that are offered are derived ones and so within
every limit; the suffix is the start of the subject, written as it is, behind a cut that is
counted in characters.
-/

namespace Kerbridge.Planner

open Std (ExtTreeMap)
open UnicodeText DirectorySource SamName DistinguishedName RealmState StoredIdentity PlannerNames
  Fallible Runs

/-- The login name an operation assigns to an account. A rename that sets no user principal
name is a group's, or moves an account alone. -/
def Op.login : Op → Option String
  | .createUser _ sam .. => some sam
  | .rename _ _ _ (some sam) (some _) => some sam
  | .setAttr _ attr value => if attr = "sAMAccountName" then some value else none
  | _ => none

/-- The login names a plan assigns, in order. -/
def loginsOf (ops : List Op) : List String := ops.filterMap Op.login

/-- Operations that assign no login name. -/
theorem loginsOf_append {ops ops' : List Op} (h : ∀ op ∈ ops', op.login = none) :
    loginsOf (ops ++ ops') = loginsOf ops := by
  unfold loginsOf
  rw [List.filterMap_append, List.filterMap_eq_nil_iff.mpr h, List.append_nil]

/-- How a login name is chosen: a name as it stands, or the start of one and a subject whose
first characters tell it apart. -/
structure Login where
  stem : String
  contested : Option Subject
  deriving DecidableEq

/-- The login name that is written. -/
def Login.text (l : Login) : String :=
  match l.contested with
  | none => l.stem
  | some oid => l.stem ++ "-" ++ oid4 oid

section Tables

variable [UnicodeTables]

/-- The condition on a choice: a suffix is of allowed characters, and there is room for it. -/
def Login.Fits (l : Login) : Prop :=
  ∀ oid ∈ l.contested, (∀ c ∈ (oid4 oid).toList, allowed c = true) ∧
    l.stem.utf8ByteSize + 1 + (oid4 oid).utf8ByteSize ≤ maxBytes

/-- A choice whose stem is valid gives a valid name exactly when its suffix fits. -/
theorem Login.valid_iff {l : Login} (hascii : AsciiNames) (h : Valid l.stem.toList) :
    validate l.text = .ok () ↔ l.Fits := by
  rw [validate_ok_iff]
  obtain ⟨stem, contested⟩ := l
  unfold Login.text Login.Fits
  cases contested with
  | none => simpa using h
  | some oid =>
    simp only [Option.mem_def, Option.some.injEq, forall_eq']
    have hdash : ∀ c ∈ ['-'], allowed c = true := hascii.allowed (by decide)
    have htext : (stem ++ "-" ++ oid4 oid).toList = stem.toList ++ ['-'] ++ (oid4 oid).toList := by
      simp [String.toList_append]
    have hsize : (stem ++ "-" ++ oid4 oid).utf8ByteSize =
        stem.utf8ByteSize + 1 + (oid4 oid).utf8ByteSize := by
      rw [String.utf8ByteSize_append, String.utf8ByteSize_append]
      rfl
    constructor
    · intro hvalid
      refine ⟨fun c hc => hvalid.allowed c ?_, ?_⟩
      · rw [htext]
        exact List.mem_append_right _ hc
      · have hshort := hvalid.short
        rwa [String.ofList_toList, hsize] at hshort
    · intro hfits
      refine ⟨?_, ?_, ?_, ?_⟩
      · rw [htext]
        simp
      · rw [String.ofList_toList, hsize]
        exact hfits.2
      · rw [htext, List.append_assoc, List.head?_append_of_ne_nil _ h.nonempty]
        exact h.undashed
      · intro c hc
        rw [htext] at hc
        rcases List.mem_append.mp hc with hc | hc
        · rcases List.mem_append.mp hc with hc | hc
          · exact h.allowed c hc
          · exact hdash c hc
        · exact hfits.1 c hc

/-- The choice for an account: its first name that is free, or the start of the first and
the subject. -/
def allocLogin (du : DesiredUser) (oid : Subject) (samKeys : List String) : Login :=
  match (offered du).find? fun name => decide (fold name ∉ samKeys) with
  | some name => ⟨name, none⟩
  | none => ⟨takeChars 15 ((offered du).headD fallback), some oid⟩

/-- The name an account is given is the one chosen for it. -/
theorem allocNames_login {du : DesiredUser} {oid : Subject} {samKeys : List String}
    {upnSuffix sam upn cn : String}
    (h : allocNames du oid samKeys upnSuffix = .ok (sam, upn, cn)) :
    sam = (allocLogin du oid samKeys).text := by
  unfold allocNames at h
  unfold allocLogin
  cases hfree : (offered du).find? fun name => decide (fold name ∉ samKeys) with
  | some name =>
    rw [hfree] at h
    cases h
    rfl
  | none =>
    rw [hfree] at h
    dsimp only at h
    split at h
    · cases h
    · cases h
      rfl

/-- The choice for an account that is leaving: its name behind the mark of the retired, or
less of it and the subject when that is held. -/
def retiredLogin (sam : String) (oid : Subject) (samKeys : List String) : Login :=
  if fold (retiredPrefix ++ sanitizeSam sam 11) ∈ samKeys then
    ⟨retiredPrefix ++ sanitizeSam sam 6, some oid⟩
  else ⟨retiredPrefix ++ sanitizeSam sam 11, none⟩

/-- The name retirement gives is the one chosen for it. -/
theorem retiredNames_login (dn sam label : String) (oid : Subject) (samKeys takenDns : List String) :
    (retiredNames dn sam label oid samKeys takenDns).sam = (retiredLogin sam oid samKeys).text := by
  unfold retiredNames retiredLogin
  dsimp only
  split
  · rfl
  · rfl

/-- What an account offers is derived, and so valid. -/
theorem offered_valid (hascii : AsciiNames) {du : DesiredUser} {name : String}
    (h : name ∈ offered du) : Valid name.toList := by
  unfold offered at h
  split at h
  · rw [List.mem_singleton.mp h]
    exact fallback_valid hascii
  · obtain ⟨⟨text, s, hs, hne⟩, _, rfl⟩ := List.mem_map.mp h
    dsimp only
    rw [← hs]
    exact sanitize_valid hascii _ _ (Nat.le_refl _)

/-- The first name an account offers is one it offers. -/
theorem headD_offered (du : DesiredUser) : (offered du).headD fallback ∈ offered du := by
  unfold offered
  split
  · exact List.mem_singleton_self _
  · rename_i hne
    obtain ⟨first, rest, hnames⟩ := List.exists_cons_of_ne_nil hne
    rw [hnames]
    exact List.mem_cons_self

/-- The stem of an account's choice is valid. -/
theorem allocLogin_valid (hascii : AsciiNames) (du : DesiredUser) (oid : Subject)
    (samKeys : List String) : Valid (allocLogin du oid samKeys).stem.toList := by
  unfold allocLogin
  cases hfree : (offered du).find? fun name => decide (fold name ∉ samKeys) with
  | some name => exact offered_valid hascii (List.mem_of_find?_eq_some hfree)
  | none =>
    have hvalid := offered_valid hascii (headD_offered du)
    change Valid (takeChars 15 ((offered du).headD fallback)).toList
    rw [takeChars, String.toList_ofList]
    refine hvalid.part (List.take_prefix _ _) ?_
    intro hnil
    rcases List.take_eq_nil_iff.mp hnil with hzero | hempty
    · cases hzero
    · exact hvalid.nonempty hempty

/-- The mark of the retired and a derived name are valid, when there is room for both. -/
theorem retired_valid (hascii : AsciiNames) (sam : String) {maxChars : ℕ} (hleast : 6 ≤ maxChars)
    (hmost : maxChars ≤ 13) : Valid (retiredPrefix ++ sanitizeSam sam maxChars).toList := by
  have hname : Valid (sanitizeSam sam maxChars).toList :=
    sanitize_valid hascii _ _ (Nat.le_refl _)
  have hchars : (sanitizeSam sam maxChars).toList.length ≤ maxChars := sanitize_length _ _ hleast
  have hprefix : ∀ c ∈ retiredPrefix.toList, allowed c = true := hascii.allowed (by decide)
  rw [String.toList_append]
  refine ⟨?_, ?_, ?_, ?_⟩
  · simp [retiredPrefix]
  · have hbytes := size_le_chars (sanitizeSam sam maxChars).toList
    have hnine : (String.ofList retiredPrefix.toList).utf8ByteSize = 9 := by decide
    rw [size_append, hnine, maxBytes]
    omega
  · simp [retiredPrefix]
  · intro c hc
    rcases List.mem_append.mp hc with hc | hc
    · exact hprefix c hc
    · exact hname.allowed c hc

/-- The stem of the choice for an account that is leaving is valid. -/
theorem retiredLogin_valid (hascii : AsciiNames) (sam : String) (oid : Subject)
    (samKeys : List String) : Valid (retiredLogin sam oid samKeys).stem.toList := by
  unfold retiredLogin
  split
  · exact retired_valid hascii sam (by decide) (by decide)
  · exact retired_valid hascii sam (by decide) (by decide)

/-- A plan with the login name of a choice at its end. -/
def Assigns (p p' : Planning) (l : Option Login) : Prop :=
  loginsOf (p'.planned.map Planned.op) =
    loginsOf (p.planned.map Planned.op) ++ (l.map Login.text).toList

omit [UnicodeTables] in
/-- A plan with the same operations assigns the same login names. -/
theorem assigns_same {p p' : Planning} (h : p'.planned = p.planned) : Assigns p p' none := by
  unfold Assigns
  rw [h]
  simp

omit [UnicodeTables] in
/-- Operations that assign no login name add none. -/
theorem assigns_none {p p' : Planning} {es : List Planned} (hplanned : p'.planned = p.planned ++ es)
    (hops : ∀ e ∈ es, e.op.login = none) : Assigns p p' none := by
  unfold Assigns
  rw [hplanned, List.map_append, loginsOf_append]
  · simp
  · intro op hop
    obtain ⟨e, he, rfl⟩ := List.mem_map.mp hop
    exact hops e he

omit [UnicodeTables] in
/-- Operations of one object that assign no login name add none. -/
theorem assigns_still {p p' : Planning} (about : Meant) (ops : List Op)
    (hplanned : p'.planned = p.planned ++ plannedFor about ops)
    (hops : ∀ op ∈ ops, op.login = none) : Assigns p p' none := by
  refine assigns_none hplanned ?_
  intro e he
  obtain ⟨op, hop, rfl⟩ := List.mem_map.mp he
  exact hops op hop

omit [UnicodeTables] in
/-- Operations one of which assigns a login name, and none besides, add it. -/
theorem assigns_one {p p' : Planning} (about : Meant) (ops : List Op) {l : Login}
    (hplanned : p'.planned = p.planned ++ plannedFor about ops) (hops : loginsOf ops = [l.text]) :
    Assigns p p' (some l) := by
  have hmap : (plannedFor about ops).map Planned.op = ops := by
    simp [plannedFor, Function.comp_def]
  unfold Assigns loginsOf at *
  rw [hplanned, List.map_append, hmap, List.filterMap_append, hops]
  rfl

omit [UnicodeTables] in
/-- A login name that is assigned after operations that assign none. -/
theorem Assigns.after {p p₁ p' : Planning} {l : Option Login} (h : Assigns p p₁ none)
    (h' : Assigns p₁ p' l) : Assigns p p' l := by
  unfold Assigns at h h' ⊢
  rw [h', h]
  simp

omit [UnicodeTables] in
/-- A login name that is assigned before operations that assign none. -/
theorem Assigns.before {p p₁ p' : Planning} {l : Option Login} (h : Assigns p p₁ l)
    (h' : Assigns p₁ p' none) : Assigns p p' l := by
  unfold Assigns at h h' ⊢
  rw [h', h]
  simp

/-- The choice for an account that is there, where it is assigned: the account is back and
its names change, or names follow and it holds another one. -/
def accountLogin (s : Scene) (p : Planning) (oid : Subject) (du : DesiredUser)
    (cu : CurrentUser) : Option Login :=
  let l := allocLogin du oid (p.release cu.sam).samKeys
  let cn := (safeName du.displayName).getD l.text
  if hasMarker cu.markers stRetired then
    if l.text ≠ cu.sam ∨ dnIn (chosenCn cu.dn (parentOf cu.dn) cn oid p.takenDns) (parentOf cu.dn) ≠
      cu.dn then some l else none
  else if followsSam s cu = true ∧ l.text ≠ cu.sam then some l
  else none

/-- The choice a turn makes, where it is assigned to an account. -/
def login (s : Scene) (p : Planning) : Turn → Option Login
  | .user entry =>
    if entry.1 ∈ s.dupes then none
    else
      match lookup s.current.users entry.1 with
      | some cu => accountLogin s p entry.1 entry.2 cu
      | none =>
        match s.ctx.identity entry.1 with
        | .ok _ => some (allocLogin entry.2 entry.1 p.samKeys)
        | .error _ => none
  | .userLeaver oid =>
    if oid ∈ s.desired.users ∨ oid ∈ s.dupes then none
    else (lookup s.current.users oid).bind fun cu =>
      if startsWith cu.sam retiredPrefix then none else some (retiredLogin cu.sam oid p.samKeys)
  | _ => none

/-- What a new account is assigned. -/
theorem createUser_assigns {s : Scene} {p p' : Planning} {oid : Subject} {du : DesiredUser}
    (h : createUser s p oid du = .ok p') :
    Assigns p p' (match s.ctx.identity oid with
      | .ok _ => some (allocLogin du oid p.samKeys)
      | .error _ => none) := by
  rcases createUser_ok h with ⟨why, hid, hsame⟩ | ⟨identity, sam, upn, cn, dn, hid, halloc, _, _, hp⟩
  · rw [hid]
    exact assigns_same (by rw [hsame]; rfl)
  · rw [hid]
    refine assigns_one ⟨.user, oid⟩ [.createUser dn sam upn du.displayName du.enabled identity] ?_ ?_
    · rw [hp]
      rfl
    · rw [← allocNames_login halloc]
      rfl

/-- A live account that follows its display name is assigned what is chosen, unless it
holds it. -/
theorem followSam_assigns {s : Scene} {p p' : Planning} {oid : Subject} {du : DesiredUser}
    {cu : CurrentUser} (h : followSam s p oid du cu = .ok p') :
    Assigns p p' (if (allocLogin du oid (p.release cu.sam).samKeys).text ≠ cu.sam then
      some (allocLogin du oid (p.release cu.sam).samKeys) else none) := by
  obtain ⟨sam, upn, cn, halloc, hp⟩ := followSam_ok h
  have hsam := allocNames_login halloc
  by_cases hheld : sam = cu.sam
  · rw [if_neg (by rw [← hsam, not_not]; exact hheld)]
    refine assigns_still ⟨.user, oid⟩ (samOps cu sam upn) (by rw [hp]) ?_
    unfold samOps
    rw [if_pos hheld]
    simp
  · rw [if_pos (by rw [← hsam]; exact hheld)]
    refine assigns_one ⟨.user, oid⟩ (samOps cu sam upn) (by rw [hp]) ?_
    unfold samOps
    rw [if_neg hheld, ← hsam]
    simp [loginsOf, Op.login]

/-- Being shown under another display name assigns no login name. -/
theorem followDisplayName_assigns {s : Scene} {p p' : Planning} {oid : Subject} {du : DesiredUser}
    {cu : CurrentUser} (h : followDisplayName s p oid du cu = .ok p') : Assigns p p' none := by
  rcases followDisplayName_ok rfl h with ⟨_, hp⟩ | ⟨_, hp⟩
  · refine assigns_still ⟨.user, oid⟩ [.setAttr cu.dn "displayName" du.displayName]
      (by rw [hp]; rfl) ?_
    simp [Op.login]
  · refine assigns_still ⟨.user, oid⟩ [.rename cu.dn (followedCn p oid du cu) (some du.displayName)
      none none] (by rw [hp]) ?_
    simp [Op.login]

/-- A name that was released and held again is released once more. -/
theorem release_again (p : Planning) (sam : String) :
    ((p.release sam).hold sam).release sam = p.release sam := by
  simp [Planning.release, Planning.hold, List.filter_filter]

/-- What is done first to an account that is back assigns no login name. -/
theorem backOps_login (du : DesiredUser) (cu : CurrentUser) :
    ∀ op ∈ backOps du cu, op.login = none := by
  intro op hop
  unfold backOps at hop
  split at hop
  · simp only [List.mem_cons, List.not_mem_nil, or_false] at hop
    rcases hop with rfl | rfl
    · rfl
    · rfl
  · rw [List.mem_singleton.mp hop]
    rfl

/-- What an account that is there is assigned. -/
theorem existingUser_assigns {s : Scene} {p p' : Planning} {oid : Subject} {du : DesiredUser}
    {cu : CurrentUser} (h : existingUser s p oid du cu = .ok p') :
    Assigns p p' (accountLogin s p oid du cu) := by
  obtain ⟨restored, p₁, p₂, hrestore, hsam, hshow⟩ := existingUser_ok h
  have hshown : Assigns p₂ p' none := by
    rcases hshow with ⟨_, _, hfollow⟩ | ⟨_, hsame⟩
    · exact followDisplayName_assigns hfollow
    · exact assigns_same (by rw [hsame])
  refine Assigns.before ?_ hshown
  unfold accountLogin
  dsimp only
  unfold restoreUser at hrestore
  split at hrestore
  · rename_i hback
    rw [if_pos hback]
    obtain ⟨sam, upn, cn, newCn, halloc, hnewCn, hcases⟩ := reappearUser_ok hrestore
    have hkeys : allocNames du oid (p.release cu.sam).samKeys s.ctx.upnSuffix =
        .ok (sam, upn, cn) := halloc
    have htext := allocNames_login hkeys
    have hchosen : chosenCn cu.dn (parentOf cu.dn) ((safeName du.displayName).getD sam) oid
        p.takenDns = newCn := by
      rw [hnewCn, ← (allocNames_ok halloc).2.2.2]
      rfl
    rw [← htext, hchosen]
    rcases hcases with ⟨hrestored, hmoved, hp₁⟩ | ⟨hrestored, hsame, hstays, hp₁⟩
    · rw [if_pos hmoved]
      have hp₂ : p₂ = p₁ := by
        rw [hrestored] at hsam
        exact (hsam.resolve_left fun hc => by cases hc.1).2
      refine assigns_one ⟨.user, oid⟩ (backOps du cu ++ [backRename du cu newCn sam upn])
        (by rw [hp₂, hp₁]; rfl) ?_
      unfold loginsOf
      rw [List.filterMap_append, List.filterMap_eq_nil_iff.mpr (backOps_login du cu), ← htext]
      rfl
    · rw [if_neg (by rw [not_or, not_not, not_not]; exact ⟨hsame, hstays⟩)]
      have hback : Assigns p p₁ none :=
        assigns_still ⟨.user, oid⟩ (backOps du cu) (by rw [hp₁]; rfl) (backOps_login du cu)
      refine hback.after ?_
      rcases hsam with ⟨_, _, hfollow⟩ | ⟨_, hp₂⟩
      · -- The name it was given before is the one it is given again.
        have hagain : (p₁.release cu.sam).samKeys = (p.release cu.sam).samKeys := by
          have hreleased := congrArg Planning.samKeys (release_again p cu.sam)
          rw [hp₁, hsame]
          exact hreleased
        have hassigns := followSam_assigns hfollow
        rw [hagain, ← htext, if_neg (not_not.mpr hsame)] at hassigns
        exact hassigns
      · exact assigns_same (by rw [hp₂])
  · rename_i hlive
    rw [if_neg hlive]
    obtain ⟨p₁', hfollow, hpair⟩ := map_ok_iff.mp hrestore
    cases hpair
    have henabled : Assigns p p₁ none ∧ p₁.samKeys = p.samKeys := by
      rcases followEnabled_ok hfollow with ⟨_, hp₁⟩ | ⟨_, hp₁⟩
      · exact ⟨assigns_same (by rw [hp₁]; rfl), by rw [hp₁]; rfl⟩
      · refine ⟨assigns_still ⟨.user, oid⟩ [if du.enabled then .enableUser cu.dn else
          .disableUser cu.dn] (by rw [hp₁]; rfl) ?_, by rw [hp₁]; rfl⟩
        intro op hop
        rw [List.mem_singleton.mp hop]
        cases du.enabled with
        | true => rfl
        | false => rfl
    refine henabled.1.after ?_
    have hkeys : (p₁.release cu.sam).samKeys = (p.release cu.sam).samKeys := by
      unfold Planning.release
      rw [henabled.2]
    rcases hsam with ⟨_, hfollows, hfollow⟩ | ⟨hstays, hp₂⟩
    · have hassigns := followSam_assigns hfollow
      rw [hkeys] at hassigns
      rw [hfollows]
      simpa using hassigns
    · rw [hstays.resolve_left (by simp)]
      simpa using assigns_same (by rw [hp₂])

/-- What an account that is leaving is assigned. -/
theorem retireUser_assigns {s : Scene} {p p' : Planning} {oid : Subject} {cu : CurrentUser}
    (h : retireUser s p oid cu = .ok p') :
    Assigns p p' (if startsWith cu.sam retiredPrefix then none
      else some (retiredLogin cu.sam oid p.samKeys)) := by
  have hleave : Assigns p (p.append (plannedFor ⟨.user, oid⟩ (leaveOps s cu))) none := by
    refine assigns_still ⟨.user, oid⟩ (leaveOps s cu) rfl ?_
    intro op hop
    unfold leaveOps at hop
    rcases List.mem_append.mp hop with hop | hop
    · split at hop
      · cases hop
      · simp only [List.mem_cons, List.not_mem_nil, or_false] at hop
        rcases hop with rfl | rfl
        · rfl
        · rfl
    · split at hop
      · rw [List.mem_singleton.mp hop]
        rfl
      · cases hop
  refine hleave.after ?_
  rcases releaseName_ok rfl (retireUser_ok h) with ⟨hheld, hp⟩ | ⟨hfree, hp⟩
  · rw [hheld, hp]
    exact assigns_same rfl
  · rw [hfree, if_neg (by simp)]
    refine assigns_one ⟨.user, oid⟩ _ (by rw [hp]) ?_
    unfold releasedNames
    rw [retiredNames_login]
    rfl

/-- A group that is leaving assigns no login name to an account. -/
theorem quarantineGroup_assigns {s : Scene} {p p' : Planning} {oid : Subject} {cg : CurrentGroup}
    (h : quarantineGroup s p oid cg = .ok p') : Assigns p p' none := by
  obtain ⟨p₁, hwork, hrelease⟩ := quarantineGroup_ok h
  have hempty : Assigns p p₁ none := by
    refine assigns_still ⟨.group, oid⟩ (emptyOps s cg) hwork.1 ?_
    intro op hop
    unfold emptyOps at hop
    split at hop
    · cases hop
    · simp only [List.mem_cons, List.not_mem_nil, or_false] at hop
      rcases hop with rfl | rfl
      · rfl
      · rfl
  refine hempty.after ?_
  rcases releaseName_ok rfl hrelease with ⟨_, hp⟩ | ⟨_, hp⟩
  · exact assigns_same (by rw [hp])
  · exact assigns_still ⟨.group, oid⟩ _ (by rw [hp]) (by simp [Op.login])

/-- A desired group assigns no login name to an account. -/
theorem groupTurn_assigns {s : Scene} {p p' : Planning} {entry : Subject × DesiredGroup}
    (h : groupTurn s p entry = .ok p') : Assigns p p' none := by
  obtain ⟨cn, sam, hnames⟩ : ∃ cn sam,
      groupNames entry.2.displayName entry.1 s.ctx.groupSuffix = (cn, sam) := ⟨_, _, rfl⟩
  unfold groupTurn at h
  split at h
  · cases h
    exact assigns_same rfl
  · cases hcg : lookup s.current.groups entry.1 with
    | none =>
      rw [hcg] at h
      rcases createGroup_ok hnames rfl h with ⟨why, _, hsame⟩ | ⟨identity, alerts, _, _, hp⟩
      · exact assigns_same (by rw [hsame]; rfl)
      · refine assigns_still ⟨.group, entry.1⟩ [.createGroup (dnIn (freshCn cn s.ctx.idpOu entry.1
          p.takenDns) s.ctx.idpOu) sam identity (roleOf s entry.1)] (by rw [hp]) ?_
        simp [Op.login]
    | some cg =>
      rw [hcg] at h
      obtain ⟨p₁, hmove, hp'⟩ := existingGroup_ok h
      have hrevive : Assigns p ((p.locate entry.1 cg.dn).append
          (plannedFor ⟨.group, entry.1⟩ (reviveOps cg))) none := by
        refine assigns_still ⟨.group, entry.1⟩ (reviveOps cg) rfl ?_
        intro op hop
        unfold reviveOps at hop
        split at hop
        · rw [List.mem_singleton.mp hop]
          rfl
        · cases hop
      have hmoved : Assigns ((p.locate entry.1 cg.dn).append
          (plannedFor ⟨.group, entry.1⟩ (reviveOps cg))) p₁ none := by
        rcases hmove with ⟨_, hmove⟩ | ⟨_, hp₁⟩
        · rcases moveGroup_ok hnames rfl hmove with ⟨_, hp₁⟩ | ⟨_, newCn, _, hp₁⟩
          · exact assigns_same (by rw [hp₁])
          · exact assigns_still ⟨.group, entry.1⟩ [.rename cg.dn newCn none (some sam) none]
              (by rw [hp₁]) (by simp [Op.login])
        · exact assigns_same (by rw [hp₁])
      have hmark : Assigns p₁ p' none := by
        refine assigns_still ⟨.group, entry.1⟩ (admissionOps s entry.1 cg) (by rw [hp']; rfl) ?_
        intro op hop
        unfold admissionOps at hop
        split at hop
        · rw [List.mem_singleton.mp hop]
          rfl
        · cases hop
      exact hrevive.after (hmoved.after hmark)

omit [UnicodeTables] in
/-- Taking a role marker off assigns no login name. -/
theorem clearOps_login (current : Current) (role : String) (oids : List Subject) :
    ∀ e ∈ clearOps current role oids, e.op.login = none := by
  intro e he
  obtain ⟨oid, _, hcg⟩ := List.mem_filterMap.mp he
  obtain ⟨cg, _, rfl⟩ := Option.map_eq_some_iff.mp hcg
  rfl

/-- The login names an accepted turn assigns are those of its choice. -/
theorem turn_assigns {s : Scene} {p p' : Planning} {t : Turn} (h : turn s p t = .ok p') :
    Assigns p p' (login s p t) := by
  unfold login
  cases t with
  | user entry =>
    change userTurn s p entry = .ok p' at h
    unfold userTurn at h
    dsimp only
    split at h
    · rename_i hdupe
      cases h
      rw [if_pos hdupe]
      exact assigns_same rfl
    · rename_i hdupe
      rw [if_neg hdupe]
      cases hcu : lookup s.current.users entry.1 with
      | none =>
        rw [hcu] at h
        exact createUser_assigns h
      | some cu =>
        rw [hcu] at h
        exact existingUser_assigns h
  | userLeaver oid =>
    change userLeaver s p oid = .ok p' at h
    unfold userLeaver at h
    dsimp only
    split at h
    · rename_i hskip
      cases h
      rw [if_pos hskip]
      exact assigns_same rfl
    · rename_i hskip
      rw [if_neg hskip]
      cases hcu : lookup s.current.users oid with
      | none =>
        rw [hcu] at h
        cases h
      | some cu =>
        rw [hcu] at h
        exact retireUser_assigns h
  | collisions =>
    obtain ⟨_, _, hp⟩ := map_ok_iff.mp h
    exact assigns_same (by rw [hp])
  | group entry => exact groupTurn_assigns h
  | groupLeaver oid =>
    change groupLeaver s p oid = .ok p' at h
    unfold groupLeaver at h
    split at h
    · cases h
      exact assigns_same rfl
    · cases hcg : lookup s.current.groups oid with
      | none =>
        rw [hcg] at h
        cases h
      | some cg =>
        rw [hcg] at h
        dsimp only at h
        split at h
        · cases h
          exact assigns_same rfl
        · exact quarantineGroup_assigns h
  | grant =>
    rcases grantPass_ok h with ⟨_, hwork⟩ | ⟨oid, dn, _, hp⟩
    · exact assigns_same hwork.1
    · refine assigns_none (by rw [hp]; rfl) ?_
      intro e he
      rcases List.mem_append.mp he with he | he
      · exact clearOps_login _ _ _ e he
      · unfold grantOps at he
        split at he
        · cases he
        · obtain ⟨mark, hmark, rfl⟩ := List.mem_map.mp he
          rw [List.mem_singleton.mp hmark]
          rfl
  | member entry =>
    rcases memberTurn_ok h with ⟨_, hsame⟩ | ⟨gdn, _, hwork⟩
    · exact assigns_same (by rw [hsame])
    · refine assigns_still ⟨.group, entry.1⟩ (memberOps s p.planned p entry gdn) hwork.1 ?_
      intro op hop
      rcases List.mem_append.mp hop with hop | hop
      · obtain ⟨m, _, rfl⟩ := List.mem_map.mp hop
        rfl
      · obtain ⟨m, _, rfl⟩ := List.mem_map.mp hop
        rfl

/-- The condition on a turn: the choice it makes fits. -/
def LoginFits (s : Scene) (p : Planning) (t : Turn) : Prop := ∀ l ∈ login s p t, l.Fits

/-- Every choice of a plan fits, in the state it is made in. -/
def LoginsFit (desired : Desired) (current : Current) (ctx : PlanCtx) : Prop :=
  AlongTurns desired current ctx LoginFits

/-- Every login name that is assigned to an account is one the issuer accepts. -/
def LoginsValid (ops : List Op) : Prop := ∀ sam ∈ loginsOf ops, validate sam = .ok ()

/-- The stem of every choice is valid. -/
theorem login_valid (hascii : AsciiNames) {s : Scene} {p : Planning} {t : Turn} {l : Login}
    (h : l ∈ login s p t) : Valid l.stem.toList := by
  unfold login at h
  cases t with
  | user entry =>
    dsimp only at h
    split at h
    · cases h
    · cases hcu : lookup s.current.users entry.1 with
      | none =>
        rw [hcu] at h
        cases hid : s.ctx.identity entry.1 with
        | error why =>
          rw [hid] at h
          cases h
        | ok identity =>
          rw [hid] at h
          cases h
          exact allocLogin_valid hascii _ _ _
      | some cu =>
        rw [hcu] at h
        unfold accountLogin at h
        dsimp only at h
        split_ifs at h
        · cases h
          exact allocLogin_valid hascii _ _ _
        · cases h
        · cases h
          exact allocLogin_valid hascii _ _ _
        · cases h
  | userLeaver oid =>
    dsimp only at h
    split at h
    · cases h
    · obtain ⟨cu, _, hl⟩ := Option.mem_bind_iff.mp h
      split at hl
      · cases hl
      · cases hl
        exact retiredLogin_valid hascii _ _ _
  | collisions => cases h
  | group entry => cases h
  | groupLeaver oid => cases h
  | grant => cases h
  | member entry => cases h

/-- One turn assigns valid login names exactly when its choice fits. -/
theorem turn_valid (hascii : AsciiNames) {s : Scene} {p p' : Planning} {t : Turn}
    (h : turn s p t = .ok p') :
    LoginsValid (p'.planned.map Planned.op) ↔
      LoginsValid (p.planned.map Planned.op) ∧ LoginFits s p t := by
  unfold LoginsValid LoginFits
  rw [turn_assigns h]
  cases hl : login s p t with
  | none => simp
  | some l =>
    have hvalid := Login.valid_iff hascii (login_valid hascii hl)
    simp only [Option.map_some, Option.toList_some, List.mem_append, List.mem_singleton,
      Option.mem_def, Option.some.injEq, forall_eq']
    constructor
    · intro hall
      exact ⟨fun sam hsam => hall sam (Or.inl hsam), hvalid.mp (hall _ (Or.inr rfl))⟩
    · rintro ⟨hbefore, hfits⟩ sam (hsam | rfl)
      · exact hbefore sam hsam
      · exact hvalid.mpr hfits

/-- Every login name a plan assigns to an account, on creation, rename or retirement, is
valid exactly when every choice fits: where all the names an account offers are held, or
the retired form of its name is, the first four characters of the subject are allowed in a
login name, and there is room for them behind the start of the name. -/
theorem logins_valid (hascii : AsciiNames) {desired : Desired} {current : Current} {ctx : PlanCtx}
    {plan : Plan} (h : planSync desired current ctx = .ok plan) :
    LoginsValid plan.ops ↔ LoginsFit desired current ctx := by
  refine planned_iff ?_ ?_ (fun hturn => turn_valid hascii hturn) h
  · intro sam hsam
    cases hsam
  · intro oids sam hsam
    obtain ⟨op, hop, hlogin⟩ := List.mem_filterMap.mp hsam
    obtain ⟨e, he, rfl⟩ := List.mem_map.mp hop
    rw [clearOps_login _ _ _ e he] at hlogin
    cases hlogin

end Tables

/-- Tables that also class the ideographs of the second plane as letters. -/
@[reducible] def wideTables : UnicodeTables :=
  { asciiTables with
    alphanumeric := fun c => c.isAlphanum || decide (0x20000 ≤ c.toNat ∧ c.toNat ≤ 0x2A6DF) }

/-- The tables class ASCII as it is. -/
theorem wideTables_ascii : @AsciiNames wideTables := by
  intro c hc
  change (c.isAlphanum || _) = true
  rw [hc, Bool.true_or]

/-- Fifteen characters of four bytes each. -/
def wideName : String := String.ofList (List.replicate 15 '𠀀')

/-- The name as a candidate: it is derived from itself. -/
def wideCandidate : @NameCandidate wideTables :=
  @NameCandidate.mk wideTables wideName ⟨wideName, by decide, by decide⟩

/-- The subject of an account that is not there yet. -/
def joiner : Subject := "33333333-3333-3333-3333-333333333333"

/-- The subject of the admission group. -/
def admitted : Subject := "44444444-4444-4444-4444-444444444444"

/-- A unit with the admission group, in a domain where the wide name is another's. -/
def crowdedCurrent : Current where
  groups := [(admitted, ⟨"CN=adm,OU=idp,DC=x", "adm", "adm", [], [roleAdmission],
      "kb1|idp|44444444-4444-4444-4444-444444444444"⟩)]
  foreignSams := [wideName]

/-- An account that offers the wide name, and the admission group. -/
def crowdedDesired : @Desired wideTables :=
  let _ := wideTables
  ⟨({} : ExtTreeMap Subject DesiredUser).insert joiner ⟨"Ann", [wideCandidate], true⟩,
    ({} : ExtTreeMap Subject DesiredGroup).insert admitted ⟨"adm"⟩, {}⟩

def crowdedCtx : PlanCtx where
  idpOu := "OU=idp,DC=x"
  admission := admitted
  upnSuffix := "x"
  groupSuffix := ""
  suffixAccepted := emptySuffix_accepted
  now := "now"
  automaticSamRenames := false
  identity := fun oid => .ok ("kb1|idp|" ++ oid)

/-- The scan of the unit. -/
def crowdedScan : Scan where
  seen := [("kb1|idp|44444444-4444-4444-4444-444444444444", admitted)]

def crowdedScene : @Scene wideTables :=
  @sceneOf wideTables crowdedDesired crowdedCurrent crowdedCtx crowdedScan

/-- The turns of the plan. -/
def crowdedTurns : List (@Turn wideTables) :=
  let _ := wideTables
  [.user (joiner, ⟨"Ann", [wideCandidate], true⟩), .collisions, .group (admitted, ⟨"adm"⟩),
    .groupLeaver admitted, .grant]

theorem crowdedTurns_eq : @turns wideTables crowdedScene = crowdedTurns := by
  let _ := wideTables
  have husers : crowdedScene.desired.users.toList =
      [(joiner, ⟨"Ann", [wideCandidate], true⟩)] := rfl
  have hgroups : crowdedScene.desired.groups.toList = [(admitted, ⟨"adm"⟩)] := rfl
  have hmembers : crowdedScene.desired.membership.toList = [] := rfl
  have hleavers : sortedOids crowdedScene.current.users = [] := List.mergeSort_nil
  have hgone : sortedOids crowdedScene.current.groups = [admitted] :=
    List.mergeSort_singleton admitted
  unfold turns
  rw [husers, hgroups, hmembers, hleavers, hgone]
  rfl

/-- The account is created under the whole name, with the start of its subject behind it. -/
theorem joiner_turn : ∃ p, @turn wideTables crowdedScene
      (@opening wideTables crowdedCurrent crowdedScan {})
      (@Turn.user wideTables (joiner, @DesiredUser.mk wideTables "Ann" [wideCandidate] true)) =
        .ok p ∧
    loginsOf (p.planned.map Planned.op) = [wideName ++ "-3333"] := by
  have hlogins : ((@turn wideTables crowdedScene (@opening wideTables crowdedCurrent crowdedScan {})
      (@Turn.user wideTables (joiner, @DesiredUser.mk wideTables "Ann" [wideCandidate]
        true))).toOption.map fun p => loginsOf (p.planned.map Planned.op)) =
      some [wideName ++ "-3333"] := by
    decide +kernel
  obtain ⟨p, hp, hplanned⟩ := Option.map_eq_some_iff.mp hlogins
  exact ⟨p, toOption_eq_some_iff.mp hp, hplanned⟩

/-- The admission group is up to date. -/
theorem admitted_turn (p : Planning) :
    @turn wideTables crowdedScene p (@Turn.group wideTables (admitted, ⟨"adm"⟩)) =
      .ok (p.locate admitted "CN=adm,OU=idp,DC=x") := by
  let _ := wideTables
  have hcg : lookup crowdedCurrent.groups admitted = some ⟨"CN=adm,OU=idp,DC=x", "adm", "adm", [],
      [roleAdmission], "kb1|idp|44444444-4444-4444-4444-444444444444"⟩ := by decide
  have hcurrent : crowdedScene.current = crowdedCurrent := rfl
  have hdupes : crowdedScene.dupes = [] := rfl
  have hmarked : crowdedScene.unmarked = false := by decide
  have hquar : startsWith roleAdmission stQuar = false := by decide
  change groupTurn crowdedScene p _ = _
  simp [groupTurn, hcurrent, hdupes, hcg, existingGroup, hasMarker, Planning.onlyIf, hmarked, hquar]
  rfl

/-- The plan that is made for the unit. -/
theorem crowded_planned :
    ∃ plan, @planSync wideTables crowdedDesired crowdedCurrent crowdedCtx = .ok plan ∧
      loginsOf plan.ops = [wideName ++ "-3333"] := by
  let _ := wideTables
  have hfreeze : freeze crowdedDesired crowdedCurrent crowdedCtx = none := by
    unfold freeze
    have hmem : crowdedCtx.admission ∈ crowdedDesired.groups := by
      simp [crowdedDesired, crowdedCtx]
    have hsome : ¬(crowdedDesired.users.isEmpty ∧ crowdedCurrent.users ≠ []) := by
      simp [crowdedDesired]
    rw [if_neg (not_not.mpr hmem), if_neg hsome]
  have hstale : stalePass crowdedCurrent crowdedCtx = .ok {} := by
    have hnone : (carriers crowdedCurrent roleAdmission).filter (· ≠ crowdedCtx.admission) = [] := by
      decide
    unfold stalePass
    rw [hnone]
    rfl
  have hscan : scan crowdedCurrent = .ok crowdedScan := by
    simp [scan, crowdedCurrent, scanObject]
    rfl
  obtain ⟨p, hp, hplanned⟩ := joiner_turn
  refine ⟨(p.locate admitted "CN=adm,OU=idp,DC=x").plan, ?_, hplanned⟩
  unfold planSync planning
  rw [hfreeze]
  dsimp only
  rw [hstale, ok_bind, hscan, ok_bind, passes_eq]
  change (((turns crowdedScene).foldlM (turn crowdedScene) _).map _) = _
  rw [crowdedTurns_eq]
  unfold crowdedTurns
  have hcheck : ∀ p, turn crowdedScene p .collisions = .ok p := fun _ => rfl
  have hkept : ∀ p, turn crowdedScene p (.groupLeaver admitted) = .ok p := fun _ => rfl
  have hgrant : ∀ p, turn crowdedScene p .grant = .ok p := fun _ => rfl
  simp only [List.foldlM_cons, List.foldlM_nil, ok_bind, hp, hcheck, admitted_turn, hkept, hgrant]
  rfl

/-- What the law of the login names a plan assigns says of the unit. -/
theorem logins_valid_crowded :
    ∃ plan, @planSync wideTables crowdedDesired crowdedCurrent crowdedCtx = .ok plan ∧
      (@LoginsValid wideTables plan.ops ↔
        @LoginsFit wideTables crowdedDesired crowdedCurrent crowdedCtx) := by
  obtain ⟨plan, hplan, _⟩ := crowded_planned
  exact ⟨plan, hplan, @logins_valid wideTables wideTables_ascii _ _ _ _ hplan⟩

/-- An account is given a login name of sixty-five bytes, which the issuer refuses. -/
theorem crowded_too_long :
    ∃ plan, @planSync wideTables crowdedDesired crowdedCurrent crowdedCtx = .ok plan ∧
      @validate wideTables (wideName ++ "-3333") = .error (.tooLong 65) ∧
      ¬@LoginsValid wideTables plan.ops := by
  obtain ⟨plan, hplan, hlogins⟩ := crowded_planned
  have hlong : @validate wideTables (wideName ++ "-3333") = .error (.tooLong 65) := by
    decide
  refine ⟨plan, hplan, hlong, ?_⟩
  intro hvalid
  have hsam := hvalid (wideName ++ "-3333") (by rw [hlogins]; exact List.mem_singleton_self _)
  rw [hlong] at hsam
  cases hsam

end Kerbridge.Planner

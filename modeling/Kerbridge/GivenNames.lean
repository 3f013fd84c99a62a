import Kerbridge.NameReading

/-!
# The names a plan gives

Every creation and every rename gives an object a name: the plain one, or the suffixed one
when the plain one is another's. The check goes by the names as they are spelled, and the
suffixed name is not checked; the directory compares names component by component, and
without regard to case.
-/

namespace Kerbridge.Planner

open Std (ExtTreeMap)
open UnicodeText DirectorySource SamName DistinguishedName RealmState StoredIdentity PlannerNames
  Fallible Runs

/-- A name an operation gives: the one given up for it, if any, and the name. -/
abbrev Given := Option String × String

/-- The name an operation gives. -/
def Op.given : Op → Option Given
  | .createUser dn .. => some (none, dn)
  | .createGroup dn .. => some (none, dn)
  | .rename dn newCn .. => some (some dn, dnIn newCn (parentOf dn))
  | _ => none

/-- The names objects hold after one of them is given a name. -/
def nextHeld (held : List String) : Given → List String
  | (none, target) => target :: held
  | (some src, target) => held.map fun h => if h = src then target else h

/-- The names of the objects that are not the one a name is given to. -/
def othersOf (held : List String) : Option String → List String
  | none => held
  | some src => held.filter (· ≠ src)

/-- The names a plan gives, in order. -/
def namesOf (ops : List Op) : List Given := ops.filterMap Op.given

/-- The names of the objects a plan is made for. -/
def heldDns (current : Current) : List String :=
  current.users.map (fun e => e.2.dn) ++ current.groups.map (fun e => e.2.dn) ++
    current.unmanagedDns

/-- The names objects hold after the operations so far. -/
def heldAfter (current : Current) (planned : List Planned) : List String :=
  run nextHeld (heldDns current) (namesOf (planned.map Planned.op))

/-- What the turn of an object that is created or renamed names it. -/
structure Naming where
  /-- The name the object has, unless it is new. -/
  src : Option String
  parent : String
  /-- The component it gets when the plain name is no other's. -/
  plain : String
  /-- The component it gets otherwise. -/
  fallback : String
  /-- Its own name reads as free to it. -/
  keeps : Bool
  /-- What is written ends at the first comma. -/
  cut : Bool

/-- The plain name reads as another's. -/
def Naming.Contested (n : Naming) (taken : List String) : Prop :=
  dnIn n.plain n.parent ∈ taken ∧ ¬(n.keeps = true ∧ n.src = some (dnIn n.plain n.parent))

instance (n : Naming) (taken : List String) : Decidable (n.Contested taken) :=
  inferInstanceAs (Decidable (_ ∧ _))

/-- The component that is chosen. -/
def Naming.chosen (n : Naming) (taken : List String) : String :=
  if n.Contested taken then n.fallback else n.plain

/-- The component that is written. -/
def Naming.written (n : Naming) (taken : List String) : String :=
  if n.cut then (writtenCn (dnIn (n.chosen taken) n.parent)).getD "" else n.chosen taken

/-- The name that is given. -/
def Naming.given (n : Naming) (taken : List String) : Given :=
  (n.src, dnIn (n.written taken) n.parent)

/-- A new object is named in the unit. -/
def createNaming (ctx : PlanCtx) (oid : Subject) (cn : String) : Naming :=
  ⟨none, ctx.idpOu, cn, suffixed cn oid, false, false⟩

/-- An object that stays is named beside where it is. -/
def moveNaming (own : String) (oid : Subject) (cn : String) (cut : Bool) : Naming :=
  ⟨some own, parentOf own, cn, suffixed cn oid, true, cut⟩

/-- A new object gets a fresh name. -/
theorem createNaming_chosen (ctx : PlanCtx) (oid : Subject) (cn : String) (taken : List String) :
    (createNaming ctx oid cn).chosen taken = freshCn cn ctx.idpOu oid taken := by
  unfold Naming.chosen Naming.Contested createNaming freshCn
  simp

/-- An object that stays keeps its name when that is the one it is given. -/
theorem moveNaming_chosen (own : String) (oid : Subject) (cn : String) (cut : Bool)
    (taken : List String) :
    (moveNaming own oid cn cut).chosen taken = chosenCn own (parentOf own) cn oid taken := by
  have hiff : (moveNaming own oid cn cut).Contested taken ↔
      dnIn cn (parentOf own) ≠ own ∧ dnIn cn (parentOf own) ∈ taken := by
    unfold Naming.Contested moveNaming
    simp only [true_and, Option.some.injEq]
    rw [and_comm, eq_comm]
  unfold Naming.chosen chosenCn
  by_cases h : dnIn cn (parentOf own) ≠ own ∧ dnIn cn (parentOf own) ∈ taken
  · rw [if_pos h, if_pos (hiff.mpr h)]
    rfl
  · rw [if_neg h, if_neg (mt hiff.mp h)]
    rfl

/-- Operations that give no name. -/
theorem namesOf_append {ops ops' : List Op} (h : ∀ op ∈ ops', op.given = none) :
    namesOf (ops ++ ops') = namesOf ops := by
  unfold namesOf
  rw [List.filterMap_append, List.filterMap_eq_nil_iff.mpr h, List.append_nil]

section Tables

variable [UnicodeTables]

/-- No other object holds a name. -/
def Unheld (others : List String) (name : String) : Prop :=
  ∀ h ∈ others, dnEquals h name = false

/-- Every other object that holds a name is among the names taken, under its very
spelling. -/
def Listed (taken others : List String) (name : String) : Prop :=
  ∀ h ∈ others, dnEquals h name = true → h = name ∧ name ∈ taken

/-- A name is given that no other object holds. -/
def Untaken (held : List String) (g : Given) : Prop := Unheld (othersOf held g.1) g.2

/-- The condition on a naming: where the plain name is chosen, the check for it missed
nobody; where the suffixed name is, or a name is cut short, it is nobody's. -/
def Naming.Sound (n : Naming) (taken held : List String) : Prop :=
  if n.written taken = n.plain ∧ ¬n.Contested taken then
    Listed taken (othersOf held n.src) (dnIn n.plain n.parent)
  else Unheld (othersOf held n.src) (dnIn (n.written taken) n.parent)

/-- A naming gives a name no other object holds exactly under its condition. -/
theorem Naming.untaken_iff {n : Naming} {taken held : List String} :
    Untaken held (n.given taken) ↔ n.Sound taken held := by
  unfold Naming.Sound Untaken Naming.given
  by_cases h : n.written taken = n.plain ∧ ¬n.Contested taken
  · rw [if_pos h, h.1]
    constructor
    · intro hun name hname heq
      rw [hun name hname] at heq
      cases heq
    · intro hlisted name hname
      cases heq : dnEquals name (dnIn n.plain n.parent) with
      | false => rfl
      | true =>
        obtain ⟨hsame, htaken⟩ := hlisted name hname heq
        have hown : n.keeps = true ∧ n.src = some (dnIn n.plain n.parent) := by
          by_contra hnot
          exact h.2 ⟨htaken, hnot⟩
        rw [hown.2] at hname
        have hother := (List.mem_filter.mp hname).2
        rw [hsame] at hother
        simp at hother
  · rw [if_neg h]

/-- The naming of an account that is there: when it is back and its names change, or when
it is shown under another display name and moves. -/
def accountNaming (s : Scene) (p : Planning) (oid : Subject) (du : DesiredUser)
    (cu : CurrentUser) : Option Naming :=
  if hasMarker cu.markers stRetired then
    match allocNames du oid (p.release cu.sam).samKeys s.ctx.upnSuffix with
    | .error _ => none
    | .ok (sam, _, cn) =>
      if sam ≠ cu.sam ∨ dnIn ((moveNaming cu.dn oid cn false).chosen p.takenDns) (parentOf cu.dn) ≠
          cu.dn then
        some (moveNaming cu.dn oid cn false)
      else none
  else if cu.displayName = some du.displayName then none
  else if dnIn ((moveNaming cu.dn oid (shownCn du cu) false).chosen p.takenDns) (parentOf cu.dn) =
      cu.dn then none
  else some (moveNaming cu.dn oid (shownCn du cu) false)

/-- The naming of an account that is not there yet. -/
def newcomerNaming (s : Scene) (p : Planning) (oid : Subject) (du : DesiredUser) : Option Naming :=
  match s.ctx.identity oid, allocNames du oid p.samKeys s.ctx.upnSuffix with
  | .ok _, .ok (_, _, cn) => some (createNaming s.ctx oid cn)
  | _, _ => none

/-- The naming of a desired group: when it is new, or its display name changed and it moves. -/
def groupNaming (s : Scene) (p : Planning) (oid : Subject) (dg : DesiredGroup) : Option Naming :=
  let cn := (groupNames dg.displayName oid s.ctx.groupSuffix).1
  match lookup s.current.groups oid with
  | none =>
    match s.ctx.identity oid with
    | .ok _ => some (createNaming s.ctx oid cn)
    | .error _ => none
  | some cg =>
    if dg.displayName = cg.displayName then none
    else if dnIn ((moveNaming cg.dn oid cn true).chosen p.takenDns) (parentOf cg.dn) = cg.dn then
      none
    else some (moveNaming cg.dn oid cn true)

/-- The naming of an object that gives up its name. -/
def leaverNaming (p : Planning) (dn sam label : String) (oid : Subject) : Option Naming :=
  if startsWith sam retiredPrefix then none
  else some ⟨some dn, parentOf dn, retiredLabel sam label oid p.samKeys ++ " (retired)",
    trim (retiredLabel sam label oid p.samKeys) ++ " (retired " ++ oid4 oid ++ ")", false, false⟩

/-- The naming of a turn. -/
def naming (s : Scene) (p : Planning) : Turn → Option Naming
  | .user entry =>
    if entry.1 ∈ s.dupes then none
    else
      match lookup s.current.users entry.1 with
      | none => newcomerNaming s p entry.1 entry.2
      | some cu => accountNaming s p entry.1 entry.2 cu
  | .userLeaver oid =>
    if oid ∈ s.desired.users ∨ oid ∈ s.dupes then none
    else (lookup s.current.users oid).bind fun cu =>
      leaverNaming p cu.dn cu.sam (cu.displayName.getD cu.sam) oid
  | .group entry => if entry.1 ∈ s.dupes then none else groupNaming s p entry.1 entry.2
  | .groupLeaver oid =>
    if oid ∈ s.desired.groups ∨ oid ∈ s.dupes ∨ oid = s.ctx.admission then none
    else (lookup s.current.groups oid).bind fun cg =>
      leaverNaming p cg.dn cg.sam cg.displayName oid
  | _ => none

/-- A plan with the names of a naming at its end. -/
def Names (p p' : Planning) (n : Option Naming) : Prop :=
  namesOf (p'.planned.map Planned.op) =
    namesOf (p.planned.map Planned.op) ++ (n.map fun n => n.given p.takenDns).toList

omit [UnicodeTables] in
/-- Operations that give no name add none. -/
theorem names_still {p p' : Planning} (about : Meant) (ops : List Op)
    (hplanned : p'.planned = p.planned ++ plannedFor about ops)
    (hops : ∀ op ∈ ops, op.given = none) : Names p p' none := by
  have hmap : (plannedFor about ops).map Planned.op = ops := by
    simp [plannedFor, Function.comp_def]
  unfold Names
  rw [hplanned, List.map_append, hmap, namesOf_append hops]
  simp

omit [UnicodeTables] in
/-- Operations that give no name, followed by one that does, add its name. -/
theorem names_given {p p' : Planning} {about : Meant} {ops : List Op} {op : Op} {n : Naming}
    (hplanned : p'.planned = p.planned ++ plannedFor about (ops ++ [op]))
    (hops : ∀ op ∈ ops, op.given = none) (hop : op.given = some (n.given p.takenDns)) :
    Names p p' (some n) := by
  have hmap : (plannedFor about (ops ++ [op])).map Planned.op = ops ++ [op] := by
    simp [plannedFor, Function.comp_def]
  unfold Names namesOf
  rw [hplanned, List.map_append, hmap, List.filterMap_append, List.filterMap_append,
    List.filterMap_eq_nil_iff.mpr hops]
  simp [hop]

omit [UnicodeTables] in
/-- A plan with the same operations gives the same names. -/
theorem names_same {p p' : Planning} (h : p'.planned = p.planned) : Names p p' none := by
  unfold Names
  rw [h]
  simp

omit [UnicodeTables] in
/-- Names that are given after operations that give none. -/
theorem Names.trans {p p₁ p' : Planning} {n : Option Naming} (h : Names p p₁ none)
    (h' : Names p₁ p' n) (htaken : p₁.takenDns = p.takenDns) : Names p p' n := by
  unfold Names at h h' ⊢
  rw [h', h, htaken]
  simp

/-- What a new account is named. -/
theorem createUser_names {s : Scene} {p p' : Planning} {oid : Subject} {du : DesiredUser}
    (h : createUser s p oid du = .ok p') : Names p p' (newcomerNaming s p oid du) := by
  unfold newcomerNaming
  rcases createUser_ok h with ⟨why, hid, hsame⟩ | ⟨identity, sam, upn, cn, dn, hid, halloc, hdn, _, hp⟩
  · rw [hid]
    exact names_same (by rw [hsame]; rfl)
  · rw [hid, halloc]
    have hplanned : p'.planned = p.planned ++ plannedFor ⟨.user, oid⟩
        ([] ++ [.createUser dn sam upn du.displayName du.enabled identity]) := by
      rw [hp]
      rfl
    refine names_given hplanned (by simp) ?_
    unfold Naming.given Naming.written
    rw [hdn, createNaming_chosen]
    rfl

/-- What is done first to an account that is back gives no name. -/
theorem backOps_given (du : DesiredUser) (cu : CurrentUser) :
    ∀ op ∈ backOps du cu, op.given = none := by
  intro op hop
  unfold backOps at hop
  split at hop
  · simp only [List.mem_cons, List.not_mem_nil, or_false] at hop
    rcases hop with rfl | rfl
    · rfl
    · rfl
  · rw [List.mem_singleton.mp hop]
    rfl

omit [UnicodeTables] in
/-- A move to the chosen component gives the name of the naming. -/
theorem moveNaming_given (own : String) (oid : Subject) (cn : String) (taken : List String)
    (shown sam upn : Option String) :
    (Op.rename own (chosenCn own (parentOf own) cn oid taken) shown sam upn).given =
      some ((moveNaming own oid cn false).given taken) := by
  unfold Naming.given Naming.written
  rw [moveNaming_chosen]
  rfl

/-- What an account that is shown under another display name is named. -/
theorem followDisplayName_names {s : Scene} {p p' : Planning} {oid : Subject} {du : DesiredUser}
    {cu : CurrentUser} (h : followDisplayName s p oid du cu = .ok p') :
    Names p p' (if dnIn ((moveNaming cu.dn oid (shownCn du cu) false).chosen p.takenDns)
      (parentOf cu.dn) = cu.dn then none else some (moveNaming cu.dn oid (shownCn du cu) false)) := by
  rw [moveNaming_chosen]
  change Names p p' (if dnIn (followedCn p oid du cu) (parentOf cu.dn) = cu.dn then _ else _)
  rcases followDisplayName_ok rfl h with ⟨hstays, hp⟩ | ⟨hmoves, hp⟩
  · rw [if_pos hstays]
    refine names_still ⟨.user, oid⟩ [.setAttr cu.dn "displayName" du.displayName] (by rw [hp]; rfl) ?_
    simp [Op.given]
  · rw [if_neg hmoves]
    have hplanned : p'.planned = p.planned ++ plannedFor ⟨.user, oid⟩
        ([] ++ [.rename cu.dn (followedCn p oid du cu) (some du.displayName) none none]) := by
      rw [hp]
      rfl
    exact names_given hplanned (by simp) (moveNaming_given _ _ _ _ _ _ _)

/-- Giving an account its login name gives no name. -/
theorem followSam_names {s : Scene} {p p' : Planning} {oid : Subject} {du : DesiredUser}
    {cu : CurrentUser} (h : followSam s p oid du cu = .ok p') :
    Names p p' none ∧ p'.takenDns = p.takenDns := by
  obtain ⟨sam, upn, cn, _, hp⟩ := followSam_ok h
  refine ⟨names_still ⟨.user, oid⟩ (samOps cu sam upn) (by rw [hp]) ?_, by rw [hp]⟩
  intro op hop
  unfold samOps at hop
  split at hop
  · cases hop
  · simp only [List.mem_cons, List.not_mem_nil, or_false] at hop
    rcases hop with rfl | rfl
    · rfl
    · rfl

/-- Enabling or disabling an account gives no name. -/
theorem followEnabled_names {s : Scene} {p p' : Planning} {oid : Subject} {du : DesiredUser}
    {cu : CurrentUser} (h : followEnabled s p oid du cu = .ok p') :
    Names p p' none ∧ p'.takenDns = p.takenDns := by
  rcases followEnabled_ok h with ⟨_, hsame⟩ | ⟨_, hp⟩
  · rw [hsame]
    exact ⟨names_same rfl, rfl⟩
  · refine ⟨names_still ⟨.user, oid⟩ [if du.enabled then .enableUser cu.dn else .disableUser cu.dn]
      (by rw [hp]; rfl) ?_, by rw [hp]; rfl⟩
    intro op hop
    rw [List.mem_singleton.mp hop]
    cases du.enabled with
    | true => rfl
    | false => rfl

/-- What an account that is there is named. -/
theorem existingUser_names {s : Scene} {p p' : Planning} {oid : Subject} {du : DesiredUser}
    {cu : CurrentUser} (h : existingUser s p oid du cu = .ok p') :
    Names p p' (accountNaming s p oid du cu) := by
  obtain ⟨restored, p₁, p₂, hrestore, hsam, hshow⟩ := existingUser_ok h
  have hlogin : Names p₁ p₂ none ∧ p₂.takenDns = p₁.takenDns := by
    rcases hsam with ⟨_, _, hfollow⟩ | ⟨_, hsame⟩
    · exact followSam_names hfollow
    · rw [hsame]
      exact ⟨names_same rfl, rfl⟩
  unfold accountNaming
  unfold restoreUser at hrestore
  split at hrestore
  · rename_i hback
    rw [if_pos hback]
    obtain ⟨sam, upn, cn, newCn, halloc, hnewCn, hcases⟩ := reappearUser_ok hrestore
    have hkeys : allocNames du oid (p.release cu.sam).samKeys s.ctx.upnSuffix =
        .ok (sam, upn, cn) := halloc
    rw [hkeys]
    dsimp only
    rw [moveNaming_chosen]
    have hchosen : chosenCn cu.dn (parentOf cu.dn) cn oid p.takenDns = newCn := hnewCn.symm
    rw [hchosen]
    rcases hcases with ⟨hrestored, hmoved, hp₁⟩ | ⟨hrestored, hsame, hstays, hp₁⟩
    · rw [if_pos hmoved]
      have hp' : p' = p₁ := by
        rw [hrestored] at hsam hshow
        have hp₂ : p₂ = p₁ := (hsam.resolve_left fun hc => by cases hc.1).2
        rcases hshow with ⟨hc, _⟩ | ⟨_, hp'⟩
        · cases hc
        · rw [hp', hp₂]
      have hplanned : p'.planned = p.planned ++ plannedFor ⟨.user, oid⟩
          (backOps du cu ++ [backRename du cu newCn sam upn]) := by
        rw [hp', hp₁]
        rfl
      refine names_given hplanned (backOps_given du cu) ?_
      rw [← hchosen]
      exact moveNaming_given _ _ _ _ _ _ _
    · rw [if_neg (by rw [not_or, not_not, not_not]; exact ⟨hsame, hstays⟩)]
      have hback : Names p p₁ none := by
        refine names_still ⟨.user, oid⟩ (backOps du cu) (by rw [hp₁]; rfl) ?_
        exact backOps_given du cu
      have hupto : Names p p₂ none := hback.trans hlogin.1 (by rw [hp₁]; rfl)
      have htaken : p₂.takenDns = p.takenDns := by
        rw [hlogin.2, hp₁]
        rfl
      rcases hshow with ⟨_, _, hfollow⟩ | ⟨_, hp'⟩
      · have hnames := followDisplayName_names hfollow
        have hcn : shownCn du cu = cn := by
          rw [(allocNames_ok halloc).2.2.2, hsame]
          rfl
        rw [moveNaming_chosen, htaken, hcn, hchosen, if_pos hstays] at hnames
        exact hupto.trans hnames htaken
      · rw [hp']
        exact hupto
  · rename_i hlive
    rw [if_neg hlive]
    obtain ⟨p₁', hfollow, hpair⟩ := map_ok_iff.mp hrestore
    cases hpair
    have henabled : Names p p₁ none ∧ p₁.takenDns = p.takenDns := by
      obtain ⟨hnames, htaken⟩ := followEnabled_names hfollow
      exact ⟨(names_same rfl : Names p (p.locate oid cu.dn) none).trans hnames rfl, htaken⟩
    have hupto : Names p p₂ none := henabled.1.trans hlogin.1 henabled.2
    have htaken : p₂.takenDns = p.takenDns := by
      rw [hlogin.2, henabled.2]
    rcases hshow with ⟨_, hdiffers, hfollow⟩ | ⟨hsame, hp'⟩
    · rw [if_neg hdiffers]
      have hnames := followDisplayName_names hfollow
      rw [htaken] at hnames
      exact hupto.trans hnames htaken
    · have hshown : cu.displayName = some du.displayName := by
        rcases hsame with hc | hc
        · cases hc
        · exact hc
      rw [if_pos hshown, hp']
      exact hupto

/-- The naming of an object that gives up its name goes by the login names alone. -/
theorem leaverNaming_congr {p p' : Planning} (h : p'.samKeys = p.samKeys)
    (dn sam label : String) (oid : Subject) :
    leaverNaming p' dn sam label oid = leaverNaming p dn sam label oid := by
  unfold leaverNaming
  rw [h]

/-- What an object that gives up its name is named. -/
theorem releaseName_names {s : Scene} {p p' : Planning} {about : Meant} {dn sam label : String}
    {setUpn : String → Option String} (h : releaseName s p about dn sam label setUpn = .ok p') :
    Names p p' (leaverNaming p dn sam label about.subject) := by
  unfold leaverNaming
  rcases releaseName_ok rfl h with ⟨hheld, hsame⟩ | ⟨hheld, hp⟩
  · rw [if_pos hheld]
    exact names_same (by rw [hsame])
  · rw [hheld, if_neg (by simp)]
    have hplanned : p'.planned = p.planned ++ plannedFor about ([] ++
        [.rename dn (releasedNames p dn sam label about.subject).cn none
          (some (releasedNames p dn sam label about.subject).sam)
          (setUpn (releasedNames p dn sam label about.subject).sam)]) := by
      rw [hp]
      rfl
    refine names_given hplanned (by simp) ?_
    rw [releasedNames_cn]
    simp only [Op.given, Naming.given, Naming.written, Naming.chosen, Naming.Contested]
    simp [PlainTaken]
    congr

/-- What an account that is leaving is named. -/
theorem retireUser_names {s : Scene} {p p' : Planning} {oid : Subject} {cu : CurrentUser}
    (h : retireUser s p oid cu = .ok p') :
    Names p p' (leaverNaming p cu.dn cu.sam (cu.displayName.getD cu.sam) oid) := by
  have hleave : Names p (p.append (plannedFor ⟨.user, oid⟩ (leaveOps s cu))) none := by
    refine names_still ⟨.user, oid⟩ (leaveOps s cu) rfl ?_
    intro op hop
    unfold leaveOps at hop
    rcases List.mem_append.mp hop with hop | hop
    · split at hop
      · cases hop
      · simp only [List.mem_cons, List.not_mem_nil, or_false] at hop
        rcases hop with rfl | rfl
        · rfl
        · rfl
    · split at hop
      · rw [List.mem_singleton.mp hop]
        rfl
      · cases hop
  have hnames := releaseName_names (retireUser_ok h)
  rw [leaverNaming_congr (append_samKeys p _)] at hnames
  exact hleave.trans hnames rfl

/-- What a group that is leaving is named. -/
theorem quarantineGroup_names {s : Scene} {p p' : Planning} {oid : Subject} {cg : CurrentGroup}
    (h : quarantineGroup s p oid cg = .ok p') :
    Names p p' (leaverNaming p cg.dn cg.sam cg.displayName oid) := by
  obtain ⟨p₁, hwork, hrelease⟩ := quarantineGroup_ok h
  have hempty : Names p p₁ none := by
    refine names_still ⟨.group, oid⟩ (emptyOps s cg) hwork.1 ?_
    intro op hop
    unfold emptyOps at hop
    split at hop
    · cases hop
    · simp only [List.mem_cons, List.not_mem_nil, or_false] at hop
      rcases hop with rfl | rfl
      · rfl
      · rfl
  have hnames := releaseName_names hrelease
  have hkeys : p₁.samKeys = p.samKeys := hwork.2.2.2
  rw [leaverNaming_congr hkeys] at hnames
  exact hempty.trans hnames hwork.2.2.1

omit [UnicodeTables] in
/-- A move to the chosen component, as far as it is written, gives the name of the naming. -/
theorem cutNaming_given (own : String) (oid : Subject) (cn : String) (taken : List String)
    {newCn : String} (shown sam upn : Option String)
    (h : writtenCn (dnIn (chosenCn own (parentOf own) cn oid taken) (parentOf own)) = some newCn) :
    (Op.rename own newCn shown sam upn).given = some ((moveNaming own oid cn true).given taken) := by
  have hwritten : (moveNaming own oid cn true).written taken = newCn := by
    have hdef : (moveNaming own oid cn true).written taken = (writtenCn (dnIn
        ((moveNaming own oid cn true).chosen taken) (parentOf own))).getD "" := rfl
    rw [hdef, moveNaming_chosen, h]
    rfl
  unfold Naming.given
  rw [hwritten]
  rfl

/-- What a desired group that is there is named. -/
theorem existingGroup_names {s : Scene} {p p' : Planning} {oid : Subject} {dg : DesiredGroup}
    {cg : CurrentGroup} (hcg : lookup s.current.groups oid = some cg)
    (h : existingGroup s p oid dg cg = .ok p') : Names p p' (groupNaming s p oid dg) := by
  obtain ⟨p₁, hmove, hp'⟩ := existingGroup_ok h
  have hrevive : Names p ((p.locate oid cg.dn).append (plannedFor ⟨.group, oid⟩ (reviveOps cg)))
      none := by
    refine names_still ⟨.group, oid⟩ (reviveOps cg) rfl ?_
    intro op hop
    unfold reviveOps at hop
    split at hop
    · rw [List.mem_singleton.mp hop]
      rfl
    · cases hop
  have hmark : ∀ {n : Option Naming}, Names p p₁ n → Names p p' n := by
    intro n hn
    unfold Names at hn ⊢
    rw [hp', append_planned, List.map_append, namesOf_append, hn]
    intro op hop
    obtain ⟨e, he, rfl⟩ := List.mem_map.mp hop
    obtain ⟨op, hop, rfl⟩ := List.mem_map.mp he
    unfold admissionOps at hop
    split at hop
    · rw [List.mem_singleton.mp hop]
      rfl
    · cases hop
  refine hmark ?_
  unfold groupNaming
  rw [hcg]
  dsimp only
  rw [moveNaming_chosen]
  rcases hmove with ⟨hdiffers, hmove⟩ | ⟨hsame, hp₁⟩
  · rw [if_neg hdiffers]
    obtain ⟨cn, sam, hnames⟩ : ∃ cn sam, groupNames dg.displayName oid s.ctx.groupSuffix = (cn, sam) :=
      ⟨_, _, rfl⟩
    rw [hnames]
    change Names p p₁ (if dnIn (movedCn ((p.locate oid cg.dn).append (plannedFor ⟨.group, oid⟩
      (reviveOps cg))) oid cg cn) (parentOf cg.dn) = cg.dn then _ else _)
    rcases moveGroup_ok hnames rfl hmove with ⟨hstays, hp₁⟩ | ⟨hmoves, newCn, hwritten, hp₁⟩
    · rw [if_pos hstays, hp₁]
      exact hrevive
    · rw [if_neg hmoves]
      have hplanned : p₁.planned = ((p.locate oid cg.dn).append
          (plannedFor ⟨.group, oid⟩ (reviveOps cg))).planned ++
            plannedFor ⟨.group, oid⟩ ([] ++ [.rename cg.dn newCn none (some sam) none]) := by
        rw [hp₁]
        rfl
      have hgiven : Names ((p.locate oid cg.dn).append (plannedFor ⟨.group, oid⟩ (reviveOps cg))) p₁
          (some (moveNaming cg.dn oid cn true)) :=
        names_given hplanned (by simp) (cutNaming_given _ _ _ _ _ _ _ hwritten)
      exact hrevive.trans hgiven rfl
  · rw [if_pos hsame, hp₁]
    exact hrevive

/-- What a new group is named. -/
theorem createGroup_names {s : Scene} {p p' : Planning} {oid : Subject} {dg : DesiredGroup}
    (hcg : lookup s.current.groups oid = none) (h : createGroup s p oid dg = .ok p') :
    Names p p' (groupNaming s p oid dg) := by
  obtain ⟨cn, sam, hnames⟩ : ∃ cn sam, groupNames dg.displayName oid s.ctx.groupSuffix = (cn, sam) :=
    ⟨_, _, rfl⟩
  unfold groupNaming
  rw [hcg, hnames]
  dsimp only
  rcases createGroup_ok hnames rfl h with ⟨why, hid, hsame⟩ | ⟨identity, alerts, hid, _, hp⟩
  · rw [hid]
    exact names_same (by rw [hsame]; rfl)
  · rw [hid]
    have hplanned : p'.planned = p.planned ++ plannedFor ⟨.group, oid⟩ ([] ++
        [.createGroup (dnIn (freshCn cn s.ctx.idpOu oid p.takenDns) s.ctx.idpOu) sam identity
          (roleOf s oid)]) := by
      rw [hp]
      rfl
    refine names_given hplanned (by simp) ?_
    unfold Naming.given Naming.written
    rw [createNaming_chosen]
    rfl

omit [UnicodeTables] in
/-- Taking a role marker off gives no name. -/
theorem clearOps_given (current : Current) (role : String) (oids : List Subject) :
    ∀ e ∈ clearOps current role oids, e.op.given = none := by
  intro e he
  obtain ⟨oid, _, hcg⟩ := List.mem_filterMap.mp he
  obtain ⟨cg, _, rfl⟩ := Option.map_eq_some_iff.mp hcg
  rfl

/-- The names an accepted turn gives are those of its naming. -/
theorem turn_names {s : Scene} {p p' : Planning} {t : Turn} (h : turn s p t = .ok p') :
    Names p p' (naming s p t) := by
  unfold naming
  cases t with
  | user entry =>
    change userTurn s p entry = .ok p' at h
    unfold userTurn at h
    dsimp only
    split at h
    · rename_i hdupe
      cases h
      rw [if_pos hdupe]
      exact names_same rfl
    · rename_i hdupe
      rw [if_neg hdupe]
      cases hcu : lookup s.current.users entry.1 with
      | none =>
        rw [hcu] at h
        exact createUser_names h
      | some cu =>
        rw [hcu] at h
        exact existingUser_names h
  | userLeaver oid =>
    change userLeaver s p oid = .ok p' at h
    unfold userLeaver at h
    dsimp only
    split at h
    · rename_i hskip
      cases h
      rw [if_pos hskip]
      exact names_same rfl
    · rename_i hskip
      rw [if_neg hskip]
      cases hcu : lookup s.current.users oid with
      | none =>
        rw [hcu] at h
        cases h
      | some cu =>
        rw [hcu] at h
        exact retireUser_names h
  | collisions =>
    obtain ⟨_, _, hp⟩ := map_ok_iff.mp h
    exact names_same (by rw [hp])
  | group entry =>
    change groupTurn s p entry = .ok p' at h
    unfold groupTurn at h
    dsimp only
    split at h
    · rename_i hdupe
      cases h
      rw [if_pos hdupe]
      exact names_same rfl
    · rename_i hdupe
      rw [if_neg hdupe]
      cases hcg : lookup s.current.groups entry.1 with
      | none =>
        rw [hcg] at h
        exact createGroup_names hcg h
      | some cg =>
        rw [hcg] at h
        exact existingGroup_names hcg h
  | groupLeaver oid =>
    change groupLeaver s p oid = .ok p' at h
    unfold groupLeaver at h
    dsimp only
    split at h
    · rename_i hskip
      cases h
      rw [if_pos (hskip.imp_right Or.inl)]
      exact names_same rfl
    · rename_i hskip
      cases hcg : lookup s.current.groups oid with
      | none =>
        rw [hcg] at h
        cases h
      | some cg =>
        rw [hcg] at h
        dsimp only at h
        split at h
        · rename_i hadmission
          cases h
          rw [if_pos (Or.inr (Or.inr hadmission))]
          exact names_same rfl
        · rename_i hadmission
          rw [if_neg]
          · exact quarantineGroup_names h
          · rintro (hd | hd | hd)
            · exact hskip (Or.inl hd)
            · exact hskip (Or.inr hd)
            · exact hadmission hd
  | grant =>
    rcases grantPass_ok h with ⟨_, hwork⟩ | ⟨oid, dn, _, hp⟩
    · exact names_same hwork.1
    · unfold Names
      rw [hp, append_planned, List.map_append, namesOf_append]
      · simp
      · intro op hop
        obtain ⟨e, he, rfl⟩ := List.mem_map.mp hop
        rcases List.mem_append.mp he with he | he
        · exact clearOps_given _ _ _ e he
        · unfold grantOps at he
          split at he
          · cases he
          · obtain ⟨mark, hmark, rfl⟩ := List.mem_map.mp he
            rw [List.mem_singleton.mp hmark]
            rfl
  | member entry =>
    rcases memberTurn_ok h with ⟨_, hsame⟩ | ⟨gdn, _, hwork⟩
    · exact names_same (by rw [hsame])
    · refine names_still ⟨.group, entry.1⟩ (memberOps s p.planned p entry gdn) hwork.1 ?_
      intro op hop
      rcases List.mem_append.mp hop with hop | hop
      · obtain ⟨m, _, rfl⟩ := List.mem_map.mp hop
        rfl
      · obtain ⟨m, _, rfl⟩ := List.mem_map.mp hop
        rfl

/-- The condition on a turn: the naming it makes is sound. -/
def NamingSound (s : Scene) (p : Planning) (t : Turn) : Prop :=
  ∀ n ∈ naming s p t, n.Sound p.takenDns (heldAfter s.current p.planned)

/-- Every naming of a plan is sound, in the state it is made in. -/
def NamesSound (desired : Desired) (current : Current) (ctx : PlanCtx) : Prop :=
  ∀ p₀ sc, freeze desired current ctx = none → stalePass current ctx = .ok p₀ →
    scan current = .ok sc → Along (turn (sceneOf desired current ctx sc))
      (NamingSound (sceneOf desired current ctx sc)) (opening current sc p₀)
      (turns (sceneOf desired current ctx sc))

/-- Every name that is given is one no other object holds at that moment. -/
def NamesFree (current : Current) (ops : List Op) : Prop :=
  Everywhere nextHeld Untaken (heldDns current) (namesOf ops)

/-- One turn gives names nobody holds exactly when its naming is sound. -/
theorem turn_free {s : Scene} {p p' : Planning} {t : Turn} (h : turn s p t = .ok p') :
    NamesFree s.current (p'.planned.map Planned.op) ↔
      NamesFree s.current (p.planned.map Planned.op) ∧ NamingSound s p t := by
  unfold NamesFree NamingSound
  rw [turn_names h, everywhere_append]
  refine and_congr_right fun _ => ?_
  change Everywhere nextHeld Untaken (heldAfter s.current p.planned) _ ↔ _
  cases naming s p t with
  | none => simp [Everywhere]
  | some n =>
    simp only [Option.map_some, Option.toList_some, Everywhere, and_true, Option.mem_def,
      Option.some.injEq, forall_eq']
    exact Naming.untaken_iff

end Tables

/-- A subject of an account that is not there yet. -/
def newcomer : Subject := "22222222-2222-2222-2222-222222222222"

/-- The subject of a group that is. -/
def anchorGroup : Subject := "11111111-1111-1111-1111-111111111111"

/-- A unit with the admission group, and an object of no source under the name ANN. -/
def clashCurrent : Current where
  groups := [(anchorGroup, ⟨"CN=adm,OU=idp,DC=x", "adm", "adm", [], [roleAdmission],
      "kb1|idp|11111111-1111-1111-1111-111111111111"⟩)]
  unmanagedDns := ["CN=ANN,OU=idp,DC=x"]

/-- The admission group, and an account shown as Ann. -/
def clashDesired : @Desired asciiTables :=
  let _ := asciiTables
  ⟨({} : ExtTreeMap Subject DesiredUser).insert newcomer ⟨"Ann", [], true⟩,
    ({} : ExtTreeMap Subject DesiredGroup).insert anchorGroup ⟨"adm"⟩, {}⟩

def clashCtx : PlanCtx where
  idpOu := "OU=idp,DC=x"
  admission := anchorGroup
  upnSuffix := "x"
  groupSuffix := ""
  suffixAccepted := emptySuffix_accepted
  now := "now"
  automaticSamRenames := false
  identity := fun oid => .ok ("kb1|idp|" ++ oid)

/-- The scan of the unit. -/
def clashScan : Scan where
  seen := [("kb1|idp|11111111-1111-1111-1111-111111111111", anchorGroup)]

def clashScene : @Scene asciiTables :=
  @sceneOf asciiTables clashDesired clashCurrent clashCtx clashScan

/-- The turns of the plan. -/
def clashTurns : List (@Turn asciiTables) :=
  let _ := asciiTables
  [.user (newcomer, ⟨"Ann", [], true⟩), .collisions, .group (anchorGroup, ⟨"adm"⟩),
    .groupLeaver anchorGroup, .grant]

theorem clashTurns_eq : @turns asciiTables clashScene = clashTurns := by
  let _ := asciiTables
  have husers : clashScene.desired.users.toList = [(newcomer, ⟨"Ann", [], true⟩)] := rfl
  have hgroups : clashScene.desired.groups.toList = [(anchorGroup, ⟨"adm"⟩)] := rfl
  have hmembers : clashScene.desired.membership.toList = [] := rfl
  have hleavers : sortedOids clashScene.current.users = [] := List.mergeSort_nil
  have hgone : sortedOids clashScene.current.groups = [anchorGroup] :=
    List.mergeSort_singleton anchorGroup
  unfold turns
  rw [husers, hgroups, hmembers, hleavers, hgone]
  rfl

/-- The account is created under the name it is shown as. -/
theorem newcomer_turn : ∃ p, @turn asciiTables clashScene
      (@opening asciiTables clashCurrent clashScan {})
      (@Turn.user asciiTables (newcomer, @DesiredUser.mk asciiTables "Ann" [] true)) = .ok p ∧
    p.planned.map Planned.op = [.createUser "CN=Ann,OU=idp,DC=x" "kbuser" "kbuser@x" "Ann" true
      "kb1|idp|22222222-2222-2222-2222-222222222222"] := by
  have hops : ((@turn asciiTables clashScene (@opening asciiTables clashCurrent clashScan {})
      (@Turn.user asciiTables (newcomer, @DesiredUser.mk asciiTables "Ann" []
        true))).toOption.map fun p => p.planned.map Planned.op) =
      some [.createUser "CN=Ann,OU=idp,DC=x" "kbuser" "kbuser@x" "Ann" true
        "kb1|idp|22222222-2222-2222-2222-222222222222"] := by
    decide +kernel
  obtain ⟨p, hp, hplanned⟩ := Option.map_eq_some_iff.mp hops
  exact ⟨p, toOption_eq_some_iff.mp hp, hplanned⟩

/-- The group that is there is up to date. -/
theorem anchorGroup_turn (p : Planning) :
    @turn asciiTables clashScene p (@Turn.group asciiTables (anchorGroup, ⟨"adm"⟩)) =
      .ok (p.locate anchorGroup "CN=adm,OU=idp,DC=x") := by
  let _ := asciiTables
  have hcg : lookup clashCurrent.groups anchorGroup = some ⟨"CN=adm,OU=idp,DC=x", "adm", "adm", [],
      [roleAdmission], "kb1|idp|11111111-1111-1111-1111-111111111111"⟩ := by decide
  have hcurrent : clashScene.current = clashCurrent := rfl
  have hdupes : clashScene.dupes = [] := rfl
  have hmarked : clashScene.unmarked = false := by decide
  have hquar : startsWith roleAdmission stQuar = false := by decide
  change groupTurn clashScene p _ = _
  simp [groupTurn, hcurrent, hdupes, hcg, existingGroup, hasMarker, Planning.onlyIf, hmarked, hquar]
  rfl

/-- The plan that is made for the unit. -/
theorem clash_planned :
    ∃ plan, @planSync asciiTables clashDesired clashCurrent clashCtx = .ok plan ∧
      plan.ops = [.createUser "CN=Ann,OU=idp,DC=x" "kbuser" "kbuser@x" "Ann" true
        "kb1|idp|22222222-2222-2222-2222-222222222222"] := by
  let _ := asciiTables
  have hfreeze : freeze clashDesired clashCurrent clashCtx = none := by
    unfold freeze
    have hmem : clashCtx.admission ∈ clashDesired.groups := by simp [clashDesired, clashCtx]
    have hsome : ¬(clashDesired.users.isEmpty ∧ clashCurrent.users ≠ []) := by
      simp [clashDesired]
    rw [if_neg (not_not.mpr hmem), if_neg hsome]
  have hstale : stalePass clashCurrent clashCtx = .ok {} := by
    have hnone : (carriers clashCurrent roleAdmission).filter (· ≠ clashCtx.admission) = [] := by
      decide
    unfold stalePass
    rw [hnone]
    rfl
  have hscan : scan clashCurrent = .ok clashScan := by
    simp [scan, clashCurrent, scanObject]
    rfl
  obtain ⟨p, hp, hplanned⟩ := newcomer_turn
  refine ⟨(p.locate anchorGroup "CN=adm,OU=idp,DC=x").plan, ?_, hplanned⟩
  unfold planSync planning
  rw [hfreeze]
  dsimp only
  rw [hstale, ok_bind, hscan, ok_bind, passes_eq]
  change (((turns clashScene).foldlM (turn clashScene) _).map _) = _
  rw [clashTurns_eq]
  unfold clashTurns
  have hcheck : ∀ p, turn clashScene p .collisions = .ok p := fun _ => rfl
  have hkept : ∀ p, turn clashScene p (.groupLeaver anchorGroup) = .ok p := fun _ => rfl
  have hgrant : ∀ p, turn clashScene p .grant = .ok p := fun _ => rfl
  simp only [List.foldlM_cons, List.foldlM_nil, ok_bind, hp, hcheck, anchorGroup_turn, hkept, hgrant]
  rfl

end Kerbridge.Planner

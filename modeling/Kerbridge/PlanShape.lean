import Kerbridge.PlanContainment
import Kerbridge.Succession
import Kerbridge.UntouchedObjects

/-!
# The shape of a plan

A plan is the clears of the stale admission markers and then, turn by turn, the operations
of each. What a turn may plan is said here once: a creation under the subject's identity, or
operations on the object that was read for the subject, addressed by the name it was read
under.
-/

namespace Kerbridge.Planner

open Std (ExtTreeMap)
open UnicodeText DirectorySource SamName DistinguishedName RealmState StoredIdentity PlannerNames
  Fallible Runs Succession

variable [UnicodeTables]

/-- What may be done to a desired account that is there. -/
inductive LiveUserOp (s : Scene) (cu : CurrentUser) : Op → Prop where
  | back (h : hasMarker cu.markers stRetired = true) : LiveUserOp s cu (.clearMarker cu.dn stRetired)
  | enable : LiveUserOp s cu (.enableUser cu.dn)
  | disable : LiveUserOp s cu (.disableUser cu.dn)
  | restore (h : hasMarker cu.markers stRetired = true) (cn : String) (shown : Option String)
    (sam upn : String) : LiveUserOp s cu (.rename cu.dn cn shown (some sam) (some upn))
  | login (h : followsSam s cu = true) (sam : String) :
    LiveUserOp s cu (.setAttr cu.dn "sAMAccountName" sam)
  | principal (h : followsSam s cu = true) (upn : String) :
    LiveUserOp s cu (.setAttr cu.dn "userPrincipalName" upn)
  | display (name : String) : LiveUserOp s cu (.setAttr cu.dn "displayName" name)
  | move (cn shown : String) : LiveUserOp s cu (.rename cu.dn cn (some shown) none none)

/-- What may be done to a desired group that is there, its marker apart. -/
inductive LiveGroupOp (cg : CurrentGroup) : Op → Prop where
  | back (h : hasMarker cg.markers stQuar = true) : LiveGroupOp cg (.clearMarker cg.dn stQuar)
  | move (cn sam : String) : LiveGroupOp cg (.rename cg.dn cn none (some sam) none)

/-- What a turn may add to a plan. -/
inductive TurnShape (s : Scene) : Turn → List Planned → Prop where
  | idle (t : Turn) : TurnShape s t []
  | create {entry : Subject × DesiredUser} (cn sam upn : String) {identity : String}
    (hnone : lookup s.current.users entry.1 = none) (hid : s.ctx.identity entry.1 = .ok identity)
    (hwithin : dnIsAtOrWithin (dnIn cn s.ctx.idpOu) s.ctx.idpOu = true) :
    TurnShape s (.user entry) (plannedFor ⟨.user, entry.1⟩ [.createUser (dnIn cn s.ctx.idpOu) sam upn
      entry.2.displayName entry.2.enabled identity])
  | live {entry : Subject × DesiredUser} {cu : CurrentUser} {ops : List Op}
    (hfree : entry.1 ∉ s.dupes) (hcu : lookup s.current.users entry.1 = some cu)
    (hops : ∀ op ∈ ops, LiveUserOp s cu op) :
    TurnShape s (.user entry) (plannedFor ⟨.user, entry.1⟩ ops)
  | leave {oid : Subject} {cu : CurrentUser} {ops : List Op} (hgone : oid ∉ s.desired.users)
    (hfree : oid ∉ s.dupes) (hcu : lookup s.current.users oid = some cu)
    (hops : startsWith cu.sam retiredPrefix = true ∧ ops = [] ∨
      ∃ cn sam, ops = [.rename cu.dn cn none (some sam) (upnOf s sam)]) :
    TurnShape s (.userLeaver oid) (plannedFor ⟨.user, oid⟩ (leaveOps s cu ++ ops))
  | createGroup {entry : Subject × DesiredGroup} (cn sam : String) {identity : String}
    (hnone : lookup s.current.groups entry.1 = none) (hid : s.ctx.identity entry.1 = .ok identity)
    (hwithin : dnIsAtOrWithin (dnIn cn s.ctx.idpOu) s.ctx.idpOu = true) :
    TurnShape s (.group entry) (plannedFor ⟨.group, entry.1⟩
      [.createGroup (dnIn cn s.ctx.idpOu) sam identity (roleOf s entry.1)])
  | liveGroup {entry : Subject × DesiredGroup} {cg : CurrentGroup} {ops : List Op}
    (hfree : entry.1 ∉ s.dupes) (hcg : lookup s.current.groups entry.1 = some cg)
    (hops : ∀ op ∈ ops, LiveGroupOp cg op) :
    TurnShape s (.group entry) (plannedFor ⟨.group, entry.1⟩ (ops ++ admissionOps s entry.1 cg))
  | leaveGroup {oid : Subject} {cg : CurrentGroup} {ops : List Op} (hgone : oid ∉ s.desired.groups)
    (hfree : oid ∉ s.dupes) (hcg : lookup s.current.groups oid = some cg)
    (hops : startsWith cg.sam retiredPrefix = true ∧ ops = [] ∨
      ∃ cn sam, ops = [.rename cg.dn cn none (some sam) none]) :
    TurnShape s (.groupLeaver oid) (plannedFor ⟨.group, oid⟩ (emptyOps s cg ++ ops))
  | grant {oid : Subject} (dn : String) (hgrant : s.ctx.grant = some oid) :
    TurnShape s .grant (clearOps s.current roleDeviceGrant (grantStale s oid) ++ grantOps s oid dn)
  | member {entry : Subject × List Subject} {ops : List Op} (gdn : String)
    (hops : ∀ op ∈ ops, ∃ m, op = .addMember gdn m ∨ op = .removeMember gdn m) :
    TurnShape s (.member entry) (plannedFor ⟨.group, entry.1⟩ ops)

section Live

variable {s : Scene} {p p' : Planning} {oid : Subject} {du : DesiredUser} {cu : CurrentUser}

/-- A plan that goes on with operations on one object, each of a kind. -/
def Extends (about : Meant) (K : Op → Prop) (p p' : Planning) : Prop :=
  ∃ ops, p'.planned = p.planned ++ plannedFor about ops ∧ ∀ op ∈ ops, K op

omit [UnicodeTables] in
/-- A plan that goes on, and then goes on. -/
theorem Extends.trans {about : Meant} {K : Op → Prop} {p₁ : Planning} (h : Extends about K p p₁)
    (h' : Extends about K p₁ p') : Extends about K p p' := by
  obtain ⟨ops, hp, hops⟩ := h
  obtain ⟨ops', hp', hops'⟩ := h'
  refine ⟨ops ++ ops', ?_, List.forall_mem_append.mpr ⟨hops, hops'⟩⟩
  rw [hp', hp, List.append_assoc]
  simp [plannedFor]

omit [UnicodeTables] in
/-- A plan that stays as it is. -/
theorem Extends.none {about : Meant} {K : Op → Prop} (h : p'.planned = p.planned) :
    Extends about K p p' :=
  ⟨[], by simp [h, plannedFor], by simp⟩

/-- An account that is back is restored. -/
theorem reappearUser_extends {restored : Bool} (hback : hasMarker cu.markers stRetired = true)
    (h : reappearUser s p oid du cu = .ok (restored, p')) :
    Extends ⟨.user, oid⟩ (LiveUserOp s cu) p p' := by
  have hops : ∀ op ∈ backOps du cu, LiveUserOp s cu op := by
    intro op hop
    unfold backOps at hop
    split at hop
    · simp only [List.mem_cons, List.not_mem_nil, or_false] at hop
      rcases hop with rfl | rfl
      · exact .back hback
      · exact .enable
    · rw [List.mem_singleton.mp hop]
      exact .back hback
  obtain ⟨sam, upn, cn, newCn, _, _, ⟨_, _, hp⟩ | ⟨_, _, _, hp⟩⟩ := reappearUser_ok h
  · refine ⟨backOps du cu ++ [backRename du cu newCn sam upn], by rw [hp], ?_⟩
    refine List.forall_mem_append.mpr ⟨hops, ?_⟩
    intro op hop
    rw [List.mem_singleton.mp hop]
    exact .restore hback _ _ _ _
  · exact ⟨backOps du cu, by rw [hp], hops⟩

/-- A live account is enabled or disabled. -/
theorem followEnabled_extends (h : followEnabled s p oid du cu = .ok p') :
    Extends ⟨.user, oid⟩ (LiveUserOp s cu) p p' := by
  rcases followEnabled_ok h with ⟨_, hp⟩ | ⟨_, hp⟩
  · exact .none (by rw [hp])
  · refine ⟨_, by rw [hp]; rfl, ?_⟩
    intro op hop
    rw [List.mem_singleton.mp hop]
    split
    · exact .enable
    · exact .disable

/-- A live account whose login name follows gets one. -/
theorem followSam_extends (hfollows : followsSam s cu = true)
    (h : followSam s p oid du cu = .ok p') : Extends ⟨.user, oid⟩ (LiveUserOp s cu) p p' := by
  obtain ⟨sam, upn, cn, _, hp⟩ := followSam_ok h
  refine ⟨samOps cu sam upn, by rw [hp], ?_⟩
  intro op hop
  unfold samOps at hop
  split at hop
  · cases hop
  · simp only [List.mem_cons, List.not_mem_nil, or_false] at hop
    rcases hop with rfl | rfl
    · exact .login hfollows _
    · exact .principal hfollows _

/-- A live account is shown under its display name. -/
theorem followDisplayName_extends (h : followDisplayName s p oid du cu = .ok p') :
    Extends ⟨.user, oid⟩ (LiveUserOp s cu) p p' := by
  rcases followDisplayName_ok rfl h with ⟨_, hp⟩ | ⟨_, hp⟩
  · exact ⟨[.setAttr cu.dn "displayName" du.displayName], by rw [hp]; rfl,
      List.forall_mem_singleton.mpr (.display _)⟩
  · exact ⟨[.rename cu.dn _ (some du.displayName) none none], by rw [hp],
      List.forall_mem_singleton.mpr (.move _ _)⟩

/-- A desired account that is there gets operations on the account that was read. -/
theorem existingUser_extends (h : existingUser s p oid du cu = .ok p') :
    Extends ⟨.user, oid⟩ (LiveUserOp s cu) p p' := by
  obtain ⟨restored, p₁, p₂, hrestore, hsam, hshow⟩ := existingUser_ok h
  have hfirst : Extends ⟨.user, oid⟩ (LiveUserOp s cu) (p.locate oid cu.dn) p₁ := by
    unfold restoreUser at hrestore
    split at hrestore
    · rename_i hback
      exact reappearUser_extends hback hrestore
    · obtain ⟨p₀, hfollow, hpair⟩ := map_ok_iff.mp hrestore
      cases hpair
      exact followEnabled_extends hfollow
  have hsecond : Extends ⟨.user, oid⟩ (LiveUserOp s cu) p₁ p₂ := by
    rcases hsam with ⟨_, hfollows, hfollow⟩ | ⟨_, hsame⟩
    · exact followSam_extends hfollows hfollow
    · exact .none (by rw [hsame])
  have hthird : Extends ⟨.user, oid⟩ (LiveUserOp s cu) p₂ p' := by
    rcases hshow with ⟨_, _, hfollow⟩ | ⟨_, hsame⟩
    · exact followDisplayName_extends hfollow
    · exact .none (by rw [hsame])
  exact hfirst.trans (hsecond.trans hthird)

end Live

section Groups

variable {s : Scene} {p p' : Planning} {oid : Subject} {dg : DesiredGroup} {cg : CurrentGroup}

/-- A desired group that is there gets operations on the group that was read, and last its
marker. -/
theorem existingGroup_extends (h : existingGroup s p oid dg cg = .ok p') :
    ∃ ops, p'.planned = p.planned ++ plannedFor ⟨.group, oid⟩ (ops ++ admissionOps s oid cg) ∧
      ∀ op ∈ ops, LiveGroupOp cg op := by
  obtain ⟨p₁, hmove, hp'⟩ := existingGroup_ok h
  have hfirst : Extends ⟨.group, oid⟩ (LiveGroupOp cg) p
      ((p.locate oid cg.dn).append (plannedFor ⟨.group, oid⟩ (reviveOps cg))) := by
    refine ⟨reviveOps cg, rfl, ?_⟩
    intro op hop
    unfold reviveOps at hop
    split at hop
    · rename_i hback
      rw [List.mem_singleton.mp hop]
      exact .back hback
    · cases hop
  have hsecond : Extends ⟨.group, oid⟩ (LiveGroupOp cg)
      ((p.locate oid cg.dn).append (plannedFor ⟨.group, oid⟩ (reviveOps cg))) p₁ := by
    rcases hmove with ⟨_, hmove⟩ | ⟨_, hp₁⟩
    · obtain ⟨cn, sam, hnames⟩ : ∃ cn sam,
          groupNames dg.displayName oid s.ctx.groupSuffix = (cn, sam) := ⟨_, _, rfl⟩
      rcases moveGroup_ok hnames rfl hmove with ⟨_, hp₁⟩ | ⟨_, newCn, _, hp₁⟩
      · exact .none (by rw [hp₁])
      · exact ⟨[.rename cg.dn newCn none (some sam) none], by rw [hp₁],
          List.forall_mem_singleton.mpr (.move _ _)⟩
    · exact .none (by rw [hp₁])
  obtain ⟨ops, hp₁, hops⟩ := hfirst.trans hsecond
  refine ⟨ops, ?_, hops⟩
  rw [hp', append_planned, hp₁, List.append_assoc]
  simp [plannedFor]

/-- The admission group is marked by one operation, if by any, and when no group is. -/
theorem admissionOps_cases (s : Scene) (oid : Subject) (cg : CurrentGroup) :
    admissionOps s oid cg = [] ∨ oid = s.ctx.admission ∧ s.unmarked = true ∧
      admissionOps s oid cg = [.setRoleMarker cg.dn roleAdmission] := by
  unfold admissionOps
  split
  · rename_i hmark
    rw [Bool.and_eq_true, decide_eq_true_eq] at hmark
    exact Or.inr ⟨hmark.1, hmark.2, rfl⟩
  · exact Or.inl rfl

end Groups

/-- Giving up a name is one rename at most. -/
theorem releaseName_extends {s : Scene} {p p' : Planning} {about : Meant} {dn sam label : String}
    {setUpn : String → Option String} (h : releaseName s p about dn sam label setUpn = .ok p') :
    ∃ ops, p'.planned = p.planned ++ plannedFor about ops ∧
      (startsWith sam retiredPrefix = true ∧ ops = [] ∨
        ∃ cn sam', ops = [.rename dn cn none (some sam') (setUpn sam')]) := by
  rcases releaseName_ok rfl h with ⟨hheld, hsame⟩ | ⟨_, hp⟩
  · exact ⟨[], by simp [hsame, plannedFor], Or.inl ⟨hheld, rfl⟩⟩
  · exact ⟨_, by rw [hp], Or.inr ⟨_, _, rfl⟩⟩

/-- A plan that goes on with what a turn may add. -/
def Continues (s : Scene) (t : Turn) (p p' : Planning) : Prop :=
  ∃ es, p'.planned = p.planned ++ es ∧ TurnShape s t es

omit [UnicodeTables] in
/-- A plan with the same operations goes on with none of them. -/
theorem planned_same {p p' : Planning} (h : p'.planned = p.planned) :
    p'.planned = p.planned ++ [] := by
  rw [h, List.append_nil]

/-- A turn on a desired account creates it, or works on the account that was read. -/
theorem userTurn_continues {s : Scene} {p p' : Planning} {entry : Subject × DesiredUser}
    (h : userTurn s p entry = .ok p') : Continues s (.user entry) p p' := by
  unfold userTurn at h
  split at h
  · cases h
    exact ⟨[], planned_same rfl, .idle _⟩
  · rename_i hfree
    cases hcu : lookup s.current.users entry.1 with
    | none =>
      rw [hcu] at h
      rcases createUser_ok h with ⟨_, _, hp⟩ | ⟨_, _, _, _, _, hid, _, hdn, hwithin, hp⟩
      · exact ⟨[], planned_same (by rw [hp]; rfl), .idle _⟩
      · refine ⟨_, by rw [hp], ?_⟩
        rw [hdn] at hwithin ⊢
        exact .create _ _ _ hcu hid hwithin
    | some cu =>
      rw [hcu] at h
      obtain ⟨ops, hp, hops⟩ := existingUser_extends h
      exact ⟨_, hp, .live hfree hcu hops⟩

/-- A turn on an account that is there retires it when it is gone. -/
theorem userLeaver_continues {s : Scene} {p p' : Planning} {oid : Subject}
    (h : userLeaver s p oid = .ok p') : Continues s (.userLeaver oid) p p' := by
  unfold userLeaver at h
  split at h
  · cases h
    exact ⟨[], planned_same rfl, .idle _⟩
  · rename_i hskip
    rw [not_or] at hskip
    cases hcu : lookup s.current.users oid with
    | none =>
      rw [hcu] at h
      cases h
    | some cu =>
      rw [hcu] at h
      obtain ⟨ops, hp, hops⟩ := releaseName_extends (retireUser_ok h)
      refine ⟨_, ?_, .leave hskip.1 hskip.2 hcu hops⟩
      rw [hp, append_planned, List.append_assoc]
      simp [plannedFor]

/-- A turn on a desired group creates it, or works on the group that was read. -/
theorem groupTurn_continues {s : Scene} {p p' : Planning} {entry : Subject × DesiredGroup}
    (h : groupTurn s p entry = .ok p') : Continues s (.group entry) p p' := by
  unfold groupTurn at h
  split at h
  · cases h
    exact ⟨[], planned_same rfl, .idle _⟩
  · rename_i hfree
    cases hcg : lookup s.current.groups entry.1 with
    | none =>
      rw [hcg] at h
      obtain ⟨cn, sam, hnames⟩ : ∃ cn sam,
        groupNames entry.2.displayName entry.1 s.ctx.groupSuffix = (cn, sam) := ⟨_, _, rfl⟩
      rcases createGroup_ok hnames rfl h with ⟨_, _, hp⟩ | ⟨_, _, hid, hwithin, hp⟩
      · exact ⟨[], planned_same (by rw [hp]; rfl), .idle _⟩
      · exact ⟨_, by rw [hp], .createGroup _ _ hcg hid hwithin⟩
    | some cg =>
      rw [hcg] at h
      obtain ⟨ops, hp, hops⟩ := existingGroup_extends h
      exact ⟨_, hp, .liveGroup hfree hcg hops⟩

/-- A turn on a group that is there quarantines it when it is gone. -/
theorem groupLeaver_continues {s : Scene} {p p' : Planning} {oid : Subject}
    (h : groupLeaver s p oid = .ok p') : Continues s (.groupLeaver oid) p p' := by
  unfold groupLeaver at h
  split at h
  · cases h
    exact ⟨[], planned_same rfl, .idle _⟩
  · rename_i hskip
    rw [not_or] at hskip
    cases hcg : lookup s.current.groups oid with
    | none =>
      rw [hcg] at h
      cases h
    | some cg =>
      rw [hcg] at h
      dsimp only at h
      split at h
      · cases h
        exact ⟨[], planned_same rfl, .idle _⟩
      · obtain ⟨p₁, hwork, hrelease⟩ := quarantineGroup_ok h
        obtain ⟨ops, hp, hops⟩ := releaseName_extends hrelease
        refine ⟨_, ?_, .leaveGroup hskip.1 hskip.2 hcg hops⟩
        rw [hp, hwork.1, append_planned, List.append_assoc]
        simp [plannedFor]

/-- A membership turn adds members to one group and takes members out of it. -/
theorem memberTurn_continues {s : Scene} {moves : List Planned} {p p' : Planning}
    {entry : Subject × List Subject} (h : memberTurn s moves p entry = .ok p') :
    Continues s (.member entry) p p' := by
  rcases memberTurn_ok h with ⟨_, hp⟩ | ⟨gdn, _, hwork⟩
  · exact ⟨[], planned_same (by rw [hp]), .idle _⟩
  · refine ⟨_, by rw [hwork.1, append_planned], .member gdn ?_⟩
    intro op hop
    rcases List.mem_append.mp hop with hadd | hdrop
    · obtain ⟨m, _, rfl⟩ := List.mem_map.mp hadd
      exact ⟨m, Or.inl rfl⟩
    · obtain ⟨m, _, rfl⟩ := List.mem_map.mp hdrop
      exact ⟨m, Or.inr rfl⟩

/-- Every turn goes on with what it may add. -/
theorem turn_continues {s : Scene} {p p' : Planning} {t : Turn} (h : turn s p t = .ok p') :
    Continues s t p p' := by
  cases t with
  | user entry => exact userTurn_continues h
  | userLeaver oid => exact userLeaver_continues h
  | collisions =>
    obtain ⟨_, _, hp⟩ := map_ok_iff.mp h
    exact ⟨[], planned_same (by rw [hp]), .idle _⟩
  | group entry => exact groupTurn_continues h
  | groupLeaver oid => exact groupLeaver_continues h
  | grant =>
    rcases grantPass_ok h with ⟨_, hwork⟩ | ⟨oid, dn, hplace, hp⟩
    · exact ⟨[], planned_same hwork.1, .idle _⟩
    · exact ⟨_, by rw [hp, append_planned], .grant dn hplace.1⟩
  | member entry => exact memberTurn_continues h

/-- The turns of a plan, each with what it added. -/
def Shapes (s : Scene) (es : List Planned) : Prop :=
  ∃ parts, List.Forall₂ (TurnShape s) (turns s) parts ∧ es = parts.flatten

/-- Turns taken one after the other add what each may add, in order. -/
theorem foldlM_turn_continues {s : Scene} {p p' : Planning} {ts : List Turn}
    (h : ts.foldlM (turn s) p = .ok p') :
    ∃ parts, List.Forall₂ (TurnShape s) ts parts ∧ p'.planned = p.planned ++ parts.flatten := by
  induction ts generalizing p with
  | nil =>
    cases h
    exact ⟨[], .nil, by simp⟩
  | cons t ts ih =>
    obtain ⟨mid, hmid, hrest⟩ := foldlM_cons_ok h
    obtain ⟨es, hes, hshape⟩ := turn_continues hmid
    obtain ⟨parts, hparts, hp'⟩ := ih hrest
    refine ⟨es :: parts, .cons hshape hparts, ?_⟩
    rw [hp', hes, List.flatten_cons, List.append_assoc]

/-- A plan holds no operation, or the clears of the stale admission markers and what each
turn added. -/
theorem planning_shape {desired : Desired} {current : Current} {ctx : PlanCtx} {p : Planning}
    (h : planning desired current ctx = .ok p) :
    p.planned = [] ∨ ∃ sc es, scan current = .ok sc ∧ Shapes (sceneOf desired current ctx sc) es ∧
      p.planned = clearOps current roleAdmission (staleCarriers current ctx) ++ es := by
  rcases planning_ok h with ⟨alert, _, hp⟩ | ⟨p₀, sc, _, hstale, hscan, hturns⟩
  · exact Or.inl (by rw [hp])
  · obtain ⟨parts, hparts, hp⟩ := foldlM_turn_continues hturns
    refine Or.inr ⟨sc, parts.flatten, hscan, ⟨parts, hparts, rfl⟩, ?_⟩
    unfold stalePass at hstale
    rw [hp, foldlM_clearRole hstale]
    rfl

/-- What the clears of role markers and every turn meet, every operation of a plan meets. -/
theorem planned_all {desired : Desired} {current : Current} {ctx : PlanCtx} {p : Planning}
    {P : Planned → Prop} (h : planning desired current ctx = .ok p)
    (hclear : ∀ e ∈ clearOps current roleAdmission (staleCarriers current ctx), P e)
    (hturn : ∀ sc t es, TurnShape (sceneOf desired current ctx sc) t es → ∀ e ∈ es, P e) :
    ∀ e ∈ p.planned, P e := by
  rcases planning_shape h with hnone | ⟨sc, es, _, ⟨parts, hparts, rfl⟩, hplanned⟩
  · rw [hnone]
    simp
  · rw [hplanned]
    refine List.forall_mem_append.mpr ⟨hclear, ?_⟩
    intro e he
    obtain ⟨part, hpart, he⟩ := List.mem_flatten.mp he
    obtain ⟨t, _, hshape⟩ := predecessor hparts hpart
    exact hturn sc t part hshape e he

section Shapes

omit [UnicodeTables]

/-- The object a planned operation makes. -/
def Planned.makes (e : Planned) : Option Meant := if e.op.creates then some e.about else none

/-- What takes a role marker off renames nothing and makes nothing. -/
theorem clearOps_still {current : Current} {role : String} {oids : List Subject} :
    ∀ e ∈ clearOps current role oids, ∃ dn, e.op = .clearMarker dn role := by
  intro e he
  obtain ⟨oid, _, hfound⟩ := List.mem_filterMap.mp he
  obtain ⟨cg, _, rfl⟩ := Option.map_eq_some_iff.mp hfound
  exact ⟨cg.dn, rfl⟩

/-- Operations that make nothing make nothing together. -/
theorem makes_none {es : List Planned} (h : ∀ e ∈ es, e.op.creates = false) :
    es.filterMap Planned.makes = [] := by
  refine List.filterMap_eq_nil_iff.mpr fun e he => ?_
  unfold Planned.makes
  rw [h e he]
  rfl

/-- Operations on one object that make nothing. -/
theorem plannedFor_still {about : Meant} {ops : List Op} (h : ∀ op ∈ ops, op.creates = false) :
    ∀ e ∈ plannedFor about ops, e.op.creates = false := List.forall_mem_map.mpr h

end Shapes

/-- The operation that marks the device-grant group renames nothing and makes nothing. -/
theorem grantOps_still {s : Scene} {oid : Subject} {dn : String} :
    ∀ e ∈ grantOps s oid dn, e.op = .setRoleMarker dn roleDeviceGrant := by
  unfold grantOps
  split
  · simp
  · exact List.forall_mem_singleton.mpr rfl

/-- The object a turn may make. -/
def Turn.makes : Turn → Option Meant
  | .user entry => some ⟨.user, entry.1⟩
  | .group entry => some ⟨.group, entry.1⟩
  | _ => none

/-- A turn that makes an object makes one, and it is the turn's. -/
theorem makes_sublist {s : Scene} {t : Turn} {es : List Planned} (h : TurnShape s t es) :
    (es.filterMap Planned.makes).Sublist t.makes.toList := by
  have hnone : es.filterMap Planned.makes = [] →
      (es.filterMap Planned.makes).Sublist t.makes.toList := by
    intro hnil
    rw [hnil]
    exact List.nil_sublist _
  have hreleased : ∀ {dn sam : String} {setUpn : String → Option String} {ops : List Op},
      (startsWith sam retiredPrefix = true ∧ ops = [] ∨
        ∃ cn sam, ops = [.rename dn cn none (some sam) (setUpn sam)]) →
      ∀ op ∈ ops, op.creates = false := by
    rintro dn sam setUpn ops (⟨_, rfl⟩ | ⟨cn, sam, rfl⟩)
    · simp
    · exact List.forall_mem_singleton.mpr rfl
  cases h with
  | idle => exact hnone rfl
  | create => exact List.Sublist.refl _
  | live _ _ hops =>
    refine hnone (makes_none (plannedFor_still fun op hop => ?_))
    cases hops op hop <;> rfl
  | leave _ _ _ hops =>
    refine hnone (makes_none (plannedFor_still (List.forall_mem_append.mpr ⟨?_, hreleased hops⟩)))
    exact fun op hop => (leaveOps_at s _ op hop).2.1
  | createGroup => exact List.Sublist.refl _
  | liveGroup _ _ hops =>
    refine hnone (makes_none (plannedFor_still (List.forall_mem_append.mpr ⟨?_, ?_⟩)))
    · intro op hop
      cases hops op hop <;> rfl
    · rcases admissionOps_cases s _ _ with hnil | ⟨_, _, hone⟩
      · rw [hnil]
        simp
      · rw [hone]
        exact List.forall_mem_singleton.mpr rfl
  | leaveGroup _ _ _ hops =>
    refine hnone (makes_none (plannedFor_still (List.forall_mem_append.mpr ⟨?_,
      @hreleased _ _ (fun _ => none) _ hops⟩)))
    unfold emptyOps
    split
    · simp
    · simp [Op.creates]
  | grant dn _ =>
    refine hnone (makes_none (List.forall_mem_append.mpr ⟨?_, ?_⟩))
    · intro e he
      obtain ⟨dn, heq⟩ := clearOps_still e he
      rw [heq]
      rfl
    · intro e he
      rw [grantOps_still e he]
      rfl
  | member gdn hops =>
    refine hnone (makes_none (plannedFor_still fun op hop => ?_))
    obtain ⟨m, rfl | rfl⟩ := hops op hop
    · rfl
    · rfl

/-- No two turns may make one object. -/
theorem turns_makes_nodup (s : Scene) : ((turns s).filterMap Turn.makes).Nodup := by
  have hmap : ∀ {β : Type} (l : List β) (f : β → Turn) (g : β → Option Meant),
      (∀ b, (f b).makes = g b) → (l.map f).filterMap Turn.makes = l.filterMap g := by
    intro β l f g h
    rw [List.filterMap_map]
    exact List.filterMap_congr fun b _ => h b
  have hturns : (turns s).filterMap Turn.makes =
      s.desired.users.toList.map (fun entry => ⟨Kind.user, entry.1⟩) ++
        s.desired.groups.toList.map fun entry => ⟨Kind.group, entry.1⟩ := by
    unfold turns
    simp only [List.filterMap_append]
    rw [hmap _ Turn.user (fun entry => some ⟨.user, entry.1⟩) fun _ => rfl,
      hmap _ Turn.userLeaver (fun _ => none) fun _ => rfl,
      hmap _ Turn.group (fun entry => some ⟨.group, entry.1⟩) fun _ => rfl,
      hmap _ Turn.groupLeaver (fun _ => none) fun _ => rfl,
      hmap _ Turn.member (fun _ => none) fun _ => rfl]
    have hcollisions : [Turn.collisions].filterMap Turn.makes = [] := rfl
    have hgrant : [Turn.grant].filterMap Turn.makes = [] := rfl
    simp [hcollisions, hgrant, List.filterMap_eq_map']
  have hkeys : ∀ {β : Type} (m : ExtTreeMap Subject β) (kind : Kind),
      (m.toList.map fun entry => (⟨kind, entry.1⟩ : Meant)).Nodup := by
    intro β m kind
    unfold List.Nodup
    rw [List.pairwise_map]
    refine ExtTreeMap.distinct_keys_toList.imp ?_
    intro a b hab heq
    apply hab
    rw [show a.1 = b.1 from congrArg Meant.subject heq]
    exact Std.ReflCmp.compare_self
  rw [hturns]
  refine List.nodup_append.mpr ⟨hkeys _ _, hkeys _ _, ?_⟩
  intro a ha b hb heq
  obtain ⟨_, _, rfl⟩ := List.mem_map.mp ha
  obtain ⟨_, _, rfl⟩ := List.mem_map.mp hb
  cases heq

/-- What is picked of every turn's operations is picked of the turns, when the clears of the
stale admission markers give nothing. -/
theorem planned_sublist {β : Type} {f : Planned → Option β} {desired : Desired} {current : Current}
    {ctx : PlanCtx} {p : Planning} (h : planning desired current ctx = .ok p)
    (hclear : ∀ e ∈ clearOps current roleAdmission (staleCarriers current ctx), f e = none)
    {g : Scene → Turn → Option β}
    (hturn : ∀ s t es, TurnShape s t es → (es.filterMap f).Sublist (g s t).toList) :
    p.planned = [] ∨ ∃ sc, scan current = .ok sc ∧
      (p.planned.filterMap f).Sublist ((turns (sceneOf desired current ctx sc)).filterMap
        (g (sceneOf desired current ctx sc))) := by
  rcases planning_shape h with hnone | ⟨sc, es, hscan, ⟨parts, hparts, rfl⟩, hplanned⟩
  · exact Or.inl hnone
  · refine Or.inr ⟨sc, hscan, ?_⟩
    rw [hplanned, List.filterMap_append, List.filterMap_eq_nil_iff.mpr hclear, List.nil_append]
    clear hplanned
    generalize turns (sceneOf desired current ctx sc) = ts at hparts ⊢
    induction hparts with
    | nil => exact List.Sublist.refl _
    | cons hshape _ ih =>
      rename_i t part ts parts _
      have hcons : (t :: ts).filterMap (g (sceneOf desired current ctx sc)) =
          (g (sceneOf desired current ctx sc) t).toList ++
            ts.filterMap (g (sceneOf desired current ctx sc)) := by
        rw [List.filterMap_cons]
        cases g (sceneOf desired current ctx sc) t with
        | none => rfl
        | some _ => rfl
      rw [List.flatten_cons, List.filterMap_append, hcons]
      exact (hturn _ t part hshape).append ih

/-- No plan makes one object twice. -/
theorem planned_makes_nodup {desired : Desired} {current : Current} {ctx : PlanCtx} {p : Planning}
    (h : planning desired current ctx = .ok p) : (p.planned.filterMap Planned.makes).Nodup := by
  have hclear : ∀ e ∈ clearOps current roleAdmission (staleCarriers current ctx),
      Planned.makes e = none := by
    intro e he
    obtain ⟨dn, heq⟩ := clearOps_still e he
    unfold Planned.makes
    rw [heq]
    rfl
  rcases planned_sublist h hclear fun _ _ _ => makes_sublist with hnone | ⟨sc, _, hsub⟩
  · rw [hnone]
    exact List.nodup_nil
  · exact (turns_makes_nodup _).sublist hsub

/-- A creation is of an object that was not read, under the identity of its subject, in the
unit. -/
inductive Creates (current : Current) (ctx : PlanCtx) : Planned → Prop where
  | user {oid : Subject} (cn sam upn displayName : String) (enabled : Bool) {identity : String}
    (hnone : lookup current.users oid = none) (hid : ctx.identity oid = .ok identity)
    (hwithin : dnIsAtOrWithin (dnIn cn ctx.idpOu) ctx.idpOu = true) :
    Creates current ctx ⟨⟨.user, oid⟩,
      .createUser (dnIn cn ctx.idpOu) sam upn displayName enabled identity⟩
  | group {oid : Subject} (cn sam : String) {identity : String} (roleMarker : Option String)
    (hnone : lookup current.groups oid = none) (hid : ctx.identity oid = .ok identity)
    (hwithin : dnIsAtOrWithin (dnIn cn ctx.idpOu) ctx.idpOu = true) :
    Creates current ctx ⟨⟨.group, oid⟩, .createGroup (dnIn cn ctx.idpOu) sam identity roleMarker⟩

/-- A rename addresses an object by the name it was read under. -/
inductive Moves (current : Current) : Planned → Prop where
  | user {oid : Subject} {cu : CurrentUser} (hcu : lookup current.users oid = some cu) (cn : String)
    (shown sam upn : Option String) : Moves current ⟨⟨.user, oid⟩, .rename cu.dn cn shown sam upn⟩
  | group {oid : Subject} {cg : CurrentGroup} (hcg : lookup current.groups oid = some cg)
    (cn : String) (shown sam upn : Option String) :
    Moves current ⟨⟨.group, oid⟩, .rename cg.dn cn shown sam upn⟩

/-- A planned operation makes an object that was not read, moves one that was, or does
neither. -/
def Addressed (current : Current) (ctx : PlanCtx) (e : Planned) : Prop :=
  Creates current ctx e ∨ Moves current e ∨ e.op.creates = false ∧ e.op.move = none

/-- An operation that makes an object is a creation. -/
theorem Addressed.of_creates {current : Current} {ctx : PlanCtx} {e : Planned}
    (h : Addressed current ctx e) (hyes : e.op.creates = true) : Creates current ctx e := by
  rcases h with hcreates | hmoves | ⟨hno, _⟩
  · exact hcreates
  · cases hmoves with
    | user => cases hyes
    | group => cases hyes
  · rw [hno] at hyes
    cases hyes

/-- A rename moves an object that was read. -/
theorem Addressed.of_rename {current : Current} {ctx : PlanCtx} {e : Planned}
    (h : Addressed current ctx e) (hmove : e.op.move ≠ none) : Moves current e := by
  rcases h with hcreates | hmoves | ⟨_, hstill⟩
  · cases hcreates with
    | user => exact absurd rfl hmove
    | group => exact absurd rfl hmove
  · exact hmoves
  · exact absurd hstill hmove

/-- Operations that neither make nor move anything. -/
theorem addressed_still {current : Current} {ctx : PlanCtx} {about : Meant} {ops : List Op}
    (h : ∀ op ∈ ops, op.creates = false ∧ op.move = none) :
    ∀ e ∈ plannedFor about ops, Addressed current ctx e :=
  List.forall_mem_map.mpr fun op hop => Or.inr (Or.inr (h op hop))

/-- Every operation a turn adds is addressed. -/
theorem turnShape_addressed {s : Scene} {t : Turn} {es : List Planned} (h : TurnShape s t es) :
    ∀ e ∈ es, Addressed s.current s.ctx e := by
  cases h with
  | idle => simp
  | create cn sam upn hnone hid hwithin =>
    exact List.forall_mem_singleton.mpr (Or.inl (.user _ _ _ _ _ hnone hid hwithin))
  | live _ hcu hops =>
    refine List.forall_mem_map.mpr fun op hop => ?_
    cases hops op hop with
    | restore _ cn shown sam upn => exact Or.inr (Or.inl (.user hcu _ _ _ _))
    | move cn shown => exact Or.inr (Or.inl (.user hcu _ _ _ _))
    | back => exact Or.inr (Or.inr ⟨rfl, rfl⟩)
    | enable => exact Or.inr (Or.inr ⟨rfl, rfl⟩)
    | disable => exact Or.inr (Or.inr ⟨rfl, rfl⟩)
    | login => exact Or.inr (Or.inr ⟨rfl, rfl⟩)
    | principal => exact Or.inr (Or.inr ⟨rfl, rfl⟩)
    | display => exact Or.inr (Or.inr ⟨rfl, rfl⟩)
  | leave _ _ hcu hops =>
    refine List.forall_mem_map.mpr (List.forall_mem_append.mpr ⟨?_, ?_⟩)
    · intro op hop
      exact Or.inr (Or.inr ⟨(leaveOps_at s _ op hop).2.1,
        leaveOps_still s _ _ _ (List.mem_map.mpr ⟨op, hop, rfl⟩)⟩)
    · rcases hops with ⟨_, rfl⟩ | ⟨cn, sam, rfl⟩
      · simp
      · exact List.forall_mem_singleton.mpr (Or.inr (Or.inl (.user hcu _ _ _ _)))
  | createGroup cn sam hnone hid hwithin =>
    exact List.forall_mem_singleton.mpr (Or.inl (.group _ _ _ hnone hid hwithin))
  | liveGroup _ hcg hops =>
    refine List.forall_mem_map.mpr (List.forall_mem_append.mpr ⟨?_, ?_⟩)
    · intro op hop
      cases hops op hop with
      | move cn sam => exact Or.inr (Or.inl (.group hcg _ _ _ _))
      | back => exact Or.inr (Or.inr ⟨rfl, rfl⟩)
    · rcases admissionOps_cases s _ _ with hnil | ⟨_, _, hone⟩
      · rw [hnil]
        simp
      · rw [hone]
        exact List.forall_mem_singleton.mpr (Or.inr (Or.inr ⟨rfl, rfl⟩))
  | leaveGroup _ _ hcg hops =>
    refine List.forall_mem_map.mpr (List.forall_mem_append.mpr ⟨?_, ?_⟩)
    · unfold emptyOps
      split
      · simp
      · intro op hop
        simp only [List.mem_cons, List.not_mem_nil, or_false] at hop
        rcases hop with rfl | rfl
        · exact Or.inr (Or.inr ⟨rfl, rfl⟩)
        · exact Or.inr (Or.inr ⟨rfl, rfl⟩)
    · rcases hops with ⟨_, rfl⟩ | ⟨cn, sam, rfl⟩
      · simp
      · exact List.forall_mem_singleton.mpr (Or.inr (Or.inl (.group hcg _ _ _ _)))
  | grant dn _ =>
    refine List.forall_mem_append.mpr ⟨?_, ?_⟩
    · intro e he
      obtain ⟨dn, heq⟩ := clearOps_still e he
      exact Or.inr (Or.inr (by rw [heq]; exact ⟨rfl, rfl⟩))
    · intro e he
      exact Or.inr (Or.inr (by rw [grantOps_still e he]; exact ⟨rfl, rfl⟩))
  | member gdn hops =>
    refine addressed_still fun op hop => ?_
    obtain ⟨m, rfl | rfl⟩ := hops op hop
    · exact ⟨rfl, rfl⟩
    · exact ⟨rfl, rfl⟩

/-- Every operation of a plan is addressed. -/
theorem planned_addressed {desired : Desired} {current : Current} {ctx : PlanCtx} {p : Planning}
    (h : planning desired current ctx = .ok p) : ∀ e ∈ p.planned, Addressed current ctx e := by
  refine planned_all h ?_ fun sc t es hshape => turnShape_addressed hshape
  intro e he
  obtain ⟨dn, heq⟩ := clearOps_still e he
  exact Or.inr (Or.inr (by rw [heq]; exact ⟨rfl, rfl⟩))

end Kerbridge.Planner

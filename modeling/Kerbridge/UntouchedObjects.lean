import Kerbridge.PlanGrowth

/-!
# The objects a plan leaves alone

An object whose identity another object of the unit holds as well is ambiguous, and an
object of the unit this source does not own is foreign. Neither is to be changed, nor
taken out of a group. Planning tells them by the spelling of the stored identity, and
not at every place where it plans an operation.
-/

namespace Kerbridge.Planner

open Std (ExtTreeMap)
open UnicodeText DirectorySource SamName DistinguishedName RealmState StoredIdentity PlannerNames
  Fallible Runs

/-- The subjects of the managed objects, one for each object. -/
def managedSubjects (current : Current) : List Subject :=
  current.users.map Prod.fst ++ current.groups.map Prod.fst

/-- Another managed object holds the same identity, however the two are spelled. -/
def Shared (current : Current) (oid : Subject) : Prop := 1 < (managedSubjects current).count oid

instance (current : Current) (oid : Subject) : Decidable (Shared current oid) :=
  inferInstanceAs (Decidable (_ < _))

/-- The names of the objects that are ambiguous, and of those that are foreign. -/
def untouchableDns (current : Current) : List String :=
  dnsOf current ((managedSubjects current).filter fun oid => decide (Shared current oid)) ++
    current.unmanagedDns

/-- Whether an operation makes a new object. -/
def Op.creates : Op → Bool
  | .createUser .. => true
  | .createGroup .. => true
  | _ => false

/-- Whether an operation takes members out of a group. -/
def Op.removes : Op → Bool
  | .removeMember .. => true
  | .clearMembers .. => true
  | _ => false

/-- The members of the groups with a name. -/
def membersAt (current : Current) (dn : String) : List String :=
  (current.groups.filter fun e => e.2.dn == dn).flatMap fun e => e.2.members

/-- An operation that changes the object with a name, and takes no member out of it. -/
def Op.At (dn : String) (op : Op) : Prop :=
  op.dn = dn ∧ op.creates = false ∧ op.removes = false

section Tables

variable [UnicodeTables]

/-- An operation changes the object that holds a name. -/
def Op.Changes (op : Op) (name : String) : Prop :=
  op.creates = false ∧ dnEquals name op.dn = true

/-- An operation takes the object that holds a name out of a group. -/
def Op.Drops (current : Current) (name : String) : Op → Prop
  | .removeMember _ m => dnEquals name m = true
  | .clearMembers dn keep => (∃ m ∈ membersAt current dn, dnEquals name m = true) ∧
      ∀ m ∈ keep, dnEquals name m = false
  | _ => False

/-- An operation leaves the untouchable objects, and their memberships, as they are. -/
def Spares (current : Current) (op : Op) : Prop :=
  ∀ name ∈ untouchableDns current, ¬op.Changes name ∧ ¬op.Drops current name

/-- A name is no untouchable object's. -/
def Touchable (current : Current) (dn : String) : Prop :=
  ∀ name ∈ untouchableDns current, dnEquals name dn = false

/-- Every operation of a plan leaves the untouchable objects as they are. -/
def AllSpared (current : Current) (planned : List Planned) : Prop :=
  ∀ e ∈ planned, Spares current e.op

/-- An operation on one object spares the untouchable ones when it is none of them. -/
theorem spares_at {current : Current} {dn : String} {op : Op} (h : op.At dn) :
    Spares current op ↔ Touchable current dn := by
  obtain ⟨hdn, hcreates, hremoves⟩ := h
  have hdrops : ∀ name, ¬op.Drops current name := by
    intro name hdrop
    cases op with
    | removeMember => cases hremoves
    | clearMembers => cases hremoves
    | createUser => exact hdrop
    | createGroup => exact hdrop
    | addMember => exact hdrop
    | enableUser => exact hdrop
    | disableUser => exact hdrop
    | rename => exact hdrop
    | setAttr => exact hdrop
    | setMarker => exact hdrop
    | setRoleMarker => exact hdrop
    | clearMarker => exact hdrop
  unfold Spares Touchable Op.Changes
  refine forall₂_congr fun name _ => ?_
  rw [and_iff_left (hdrops name), hcreates, hdn]
  simp

/-- A new object is none of those that are there. -/
theorem spares_creates {current : Current} {op : Op} (h : op.creates = true) :
    Spares current op := by
  intro name _
  refine ⟨fun hc => ?_, fun hd => ?_⟩
  · rw [hc.1] at h
    cases h
  · cases op with
    | removeMember => cases h
    | clearMembers => cases h
    | createUser => exact hd
    | createGroup => exact hd
    | addMember => cases h
    | enableUser => cases h
    | disableUser => cases h
    | rename => cases h
    | setAttr => cases h
    | setMarker => cases h
    | setRoleMarker => cases h
    | clearMarker => cases h

/-- Taking one member out of a group spares the untouchable objects when neither the group
nor the member is one. -/
theorem spares_removeMember {current : Current} {dn m : String} :
    Spares current (.removeMember dn m) ↔ Touchable current dn ∧ Touchable current m := by
  unfold Spares Touchable Op.Changes Op.Drops
  simp only [Op.creates, Op.dn, true_and, Bool.not_eq_true]
  exact ⟨fun h => ⟨fun name hname => (h name hname).1, fun name hname => (h name hname).2⟩,
    fun h name hname => ⟨h.1 name hname, h.2 name hname⟩⟩

/-- Every untouchable member of the group under a name is among those that are kept. -/
def Kept (current : Current) (dn : String) (keep : List String) : Prop :=
  ∀ name ∈ untouchableDns current, ∀ m ∈ membersAt current dn, dnEquals name m = true →
    ∃ k ∈ keep, dnEquals name k = true

/-- Emptying a group spares the untouchable objects when it is none of them and keeps its
members among them. -/
theorem spares_clearMembers {current : Current} {dn : String} {keep : List String} :
    Spares current (.clearMembers dn keep) ↔ Touchable current dn ∧ Kept current dn keep := by
  unfold Spares Touchable Kept Op.Changes Op.Drops
  simp only [Op.creates, Op.dn, true_and, Bool.not_eq_true]
  constructor
  · intro h
    refine ⟨fun name hname => (h name hname).1, ?_⟩
    intro name hname m hm heq
    by_contra hnone
    refine (h name hname).2 ⟨⟨m, hm, heq⟩, ?_⟩
    intro k hk
    cases hkept : dnEquals name k with
    | false => rfl
    | true => exact absurd ⟨k, hk, hkept⟩ hnone
  · intro h name hname
    refine ⟨h.1 name hname, ?_⟩
    rintro ⟨⟨m, hm, heq⟩, hnone⟩
    obtain ⟨k, hk, hkept⟩ := h.2 name hname m hm heq
    rw [hnone k hk] at hkept
    cases hkept

/-- The managed objects, each with the subject of its identity and its name. -/
def managedObjects (current : Current) : List (Subject × String) :=
  current.users.map (fun e => (e.1, e.2.dn)) ++ current.groups.map fun e => (e.1, e.2.dn)

omit [UnicodeTables] in
/-- The untouchable names are those of the objects with a shared subject, and the foreign ones. -/
theorem mem_untouchableDns {current : Current} {name : String} :
    name ∈ untouchableDns current ↔
      (∃ o ∈ managedObjects current, Shared current o.1 ∧ o.2 = name) ∨
        name ∈ current.unmanagedDns := by
  have hoids : ∀ oid, oid ∈ managedSubjects current → (((managedSubjects current).filter fun oid =>
      decide (Shared current oid)).contains oid = true ↔ Shared current oid) := by
    intro oid hoid
    simp [hoid]
  have huser : ∀ e ∈ current.users, e.1 ∈ managedSubjects current := fun e he =>
    List.mem_append_left _ (List.mem_map_of_mem he)
  have hgroup : ∀ e ∈ current.groups, e.1 ∈ managedSubjects current := fun e he =>
    List.mem_append_right _ (List.mem_map_of_mem he)
  unfold untouchableDns dnsOf managedObjects
  rw [List.mem_append, List.mem_append]
  refine or_congr_left ?_
  simp only [List.mem_map, List.mem_append, List.mem_filter, or_and_right, exists_or]
  refine or_congr ?_ ?_
  · constructor
    · rintro ⟨e, ⟨he, hshared⟩, rfl⟩
      exact ⟨(e.1, e.2.dn), ⟨e, he, rfl⟩, (hoids _ (huser e he)).mp hshared, rfl⟩
    · rintro ⟨_, ⟨e, he, rfl⟩, hshared, rfl⟩
      exact ⟨e, ⟨he, (hoids _ (huser e he)).mpr hshared⟩, rfl⟩
  · constructor
    · rintro ⟨e, ⟨he, hshared⟩, rfl⟩
      exact ⟨(e.1, e.2.dn), ⟨e, he, rfl⟩, (hoids _ (hgroup e he)).mp hshared, rfl⟩
    · rintro ⟨_, ⟨e, he, rfl⟩, hshared, rfl⟩
      exact ⟨e, ⟨he, (hoids _ (hgroup e he)).mpr hshared⟩, rfl⟩

/-- The names of a unit, as its directory keeps them: each reads, and no two objects share one. -/
structure NamesApart (current : Current) : Prop where
  reads : ∀ o ∈ managedObjects current, Reads o.2
  managed : (managedObjects current).Pairwise fun a b => dnEquals a.2 b.2 = false
  foreign : ∀ o ∈ managedObjects current, ∀ name ∈ current.unmanagedDns, dnEquals name o.2 = false

/-- In a unit whose names are kept apart, a managed object can be touched exactly when no
other holds its identity. -/
theorem touchable_iff {current : Current} (h : NamesApart current) {oid : Subject} {dn : String}
    (ho : (oid, dn) ∈ managedObjects current) :
    Touchable current dn ↔ ¬Shared current oid := by
  constructor
  · intro htouchable hshared
    have hname := htouchable dn (mem_untouchableDns.mpr (Or.inl ⟨(oid, dn), ho, hshared, rfl⟩))
    rw [dnEquals_self (h.reads _ ho)] at hname
    cases hname
  · intro hsingle name hname
    rcases mem_untouchableDns.mp hname with ⟨o, hmem, hshared, rfl⟩ | hforeign
    · have hne : o ≠ (oid, dn) := by
        rintro rfl
        exact hsingle hshared
      have hsymm : Std.Symm fun a b : Subject × String => dnEquals a.2 b.2 = false := by
        refine ⟨fun a b hab => ?_⟩
        rw [dnEquals_comm]
        exact hab
      exact h.managed.forall hmem ho hne
    · exact h.foreign _ ho name hforeign

end Tables

/-- A plan that goes on with operations on the object under a name: some of them exactly
when there is work. -/
def Works (p p' : Planning) (about : Meant) (dn : String) (work : Prop) : Prop :=
  ∃ ops, p'.planned = p.planned ++ plannedFor about ops ∧ (∀ op ∈ ops, op.At dn) ∧
    (ops ≠ [] ↔ work)

section Work

variable {p p₁ p' : Planning} {about : Meant} {dn : String}

/-- Work on an object, and more work on it. -/
theorem Works.trans {work work' : Prop} (h : Works p p₁ about dn work)
    (h' : Works p₁ p' about dn work') : Works p p' about dn (work ∨ work') := by
  obtain ⟨ops, hplanned, hat, hwork⟩ := h
  obtain ⟨ops', hplanned', hat', hwork'⟩ := h'
  refine ⟨ops ++ ops', ?_, List.forall_mem_append.mpr ⟨hat, hat'⟩, ?_⟩
  · rw [hplanned', hplanned, List.append_assoc]
    simp [plannedFor]
  · rw [← hwork, ← hwork', ne_eq, List.append_eq_nil_iff, not_and_or]

/-- No work on an object. -/
theorem Works.none (h : p'.planned = p.planned) : Works p p' about dn False :=
  ⟨[], by simp [h, plannedFor], by simp, by simp⟩

/-- Operations on one object, whenever they are planned. -/
theorem Works.of_ops (ops : List Op) {work : Prop}
    (hplanned : p'.planned = p.planned ++ plannedFor about ops) (hat : ∀ op ∈ ops, op.At dn)
    (hwork : ops ≠ [] ↔ work) : Works p p' about dn work := ⟨ops, hplanned, hat, hwork⟩

/-- The same work, described otherwise. -/
theorem Works.congr {work work' : Prop} (h : Works p p' about dn work) (hiff : work ↔ work') :
    Works p p' about dn work' := by
  obtain ⟨ops, hplanned, hat, hwork⟩ := h
  exact ⟨ops, hplanned, hat, hwork.trans hiff⟩

/-- Work that starts from a plan with the same operations. -/
theorem Works.from {work : Prop} (h : Works p₁ p' about dn work) (hsame : p₁.planned = p.planned) :
    Works p p' about dn work := by
  obtain ⟨ops, hplanned, hat, hwork⟩ := h
  exact ⟨ops, by rw [hplanned, hsame], hat, hwork⟩

/-- Work on an object spares the untouchable ones exactly when the object is none of
them, provided there is work. -/
theorem Works.spared [UnicodeTables] {current : Current} {work : Prop}
    (h : Works p p' about dn work) :
    AllSpared current p'.planned ↔
      AllSpared current p.planned ∧ (work → Touchable current dn) := by
  obtain ⟨ops, hplanned, hat, hwork⟩ := h
  unfold AllSpared
  rw [hplanned, List.forall_mem_append, ← hwork]
  refine and_congr_right fun _ => ?_
  constructor
  · intro h hsome
    obtain ⟨op, hop⟩ := List.exists_mem_of_ne_nil ops hsome
    exact (spares_at (hat op hop)).mp (h ⟨about, op⟩ (List.mem_map_of_mem hop))
  · intro h e he
    obtain ⟨op, hop, rfl⟩ := List.mem_map.mp he
    exact (spares_at (hat op hop)).mpr (h (List.ne_nil_of_mem hop))

end Work

section Turns

variable [UnicodeTables]

/-- The login name an account is given is another than the one it has. -/
def SamMoves (s : Scene) (p : Planning) (oid : Subject) (du : DesiredUser) (cu : CurrentUser) :
    Prop :=
  ∃ sam upn cn, allocNames du oid (p.release cu.sam).samKeys s.ctx.upnSuffix = .ok (sam, upn, cn) ∧
    sam ≠ cu.sam

/-- A desired account that is there is not as the IdP has it. -/
def AccountBehind (s : Scene) (p : Planning) (oid : Subject) (du : DesiredUser)
    (cu : CurrentUser) : Prop :=
  hasMarker cu.markers stRetired = true ∨ du.enabled ≠ cu.enabled ∨
    cu.displayName ≠ some du.displayName ∨
    followsSam s cu = true ∧ SamMoves s p oid du cu

/-- An account that is gone has not been retired in full. -/
def AccountLingers (cu : CurrentUser) : Prop :=
  hasMarker cu.markers stRetired = false ∨ hasMarker cu.markers DeviceGrants.grantPrefix = true ∨
    startsWith cu.sam retiredPrefix = false

/-- A group moves to the component of its display name. -/
def GroupMoves (s : Scene) (p : Planning) (oid : Subject) (dg : DesiredGroup)
    (cg : CurrentGroup) : Prop :=
  dg.displayName ≠ cg.displayName ∧
    dnIn (movedCn p oid cg (groupNames dg.displayName oid s.ctx.groupSuffix).1) (parentOf cg.dn) ≠
      cg.dn

/-- A desired group that is there is not as the IdP has it. -/
def GroupBehind (s : Scene) (p : Planning) (oid : Subject) (dg : DesiredGroup)
    (cg : CurrentGroup) : Prop :=
  hasMarker cg.markers stQuar = true ∨ GroupMoves s p oid dg cg ∨
    oid = s.ctx.admission ∧ s.unmarked = true

/-- A group that is gone has not been quarantined in full. -/
def GroupLingers (cg : CurrentGroup) : Prop :=
  hasMarker cg.markers stQuar = false ∨ startsWith cg.sam retiredPrefix = false

section Accounts

variable {s : Scene} {p p' : Planning} {oid : Subject} {du : DesiredUser} {cu : CurrentUser}

/-- Restoring an account is work. -/
theorem reappearUser_works {restored : Bool}
    (h : reappearUser s p oid du cu = .ok (restored, p')) :
    Works p p' ⟨.user, oid⟩ cu.dn True := by
  have hback : ∀ op ∈ backOps du cu, op.At cu.dn := by
    intro op hop
    unfold backOps at hop
    split at hop
    · simp only [List.mem_cons, List.not_mem_nil, or_false] at hop
      rcases hop with rfl | rfl
      · exact ⟨rfl, rfl, rfl⟩
      · exact ⟨rfl, rfl, rfl⟩
    · rw [List.mem_singleton.mp hop]
      exact ⟨rfl, rfl, rfl⟩
  have hsome : backOps du cu ≠ [] := by
    unfold backOps
    split
    · simp
    · simp
  obtain ⟨sam, upn, cn, newCn, _, _, ⟨_, _, hp⟩ | ⟨_, _, _, hp⟩⟩ := reappearUser_ok h
  · refine .of_ops (backOps du cu ++ [backRename du cu newCn sam upn]) (by rw [hp]) ?_
      (by simp)
    refine List.forall_mem_append.mpr ⟨hback, ?_⟩
    intro op hop
    rw [List.mem_singleton.mp hop]
    exact ⟨rfl, rfl, rfl⟩
  · exact .of_ops _ (by rw [hp]) hback (by simp [hsome])

/-- Enabling or disabling an account is work when it differs. -/
theorem followEnabled_works (h : followEnabled s p oid du cu = .ok p') :
    Works p p' ⟨.user, oid⟩ cu.dn (du.enabled ≠ cu.enabled) := by
  rcases followEnabled_ok h with ⟨heq, hp⟩ | ⟨hne, hp⟩
  · exact (Works.none (by rw [hp])).congr (by simp [heq])
  · refine .of_ops _ (by rw [hp]; rfl) ?_ (by simp [hne])
    intro op hop
    rw [List.mem_singleton.mp hop]
    split
    · exact ⟨rfl, rfl, rfl⟩
    · exact ⟨rfl, rfl, rfl⟩

/-- Giving an account its login name is work when it has another. -/
theorem followSam_works (h : followSam s p oid du cu = .ok p') :
    Works p p' ⟨.user, oid⟩ cu.dn (SamMoves s p oid du cu) := by
  obtain ⟨sam, upn, cn, halloc, hp⟩ := followSam_ok h
  refine .of_ops (samOps cu sam upn) (by rw [hp]) ?_ ?_
  · intro op hop
    unfold samOps at hop
    split at hop
    · cases hop
    · simp only [List.mem_cons, List.not_mem_nil, or_false] at hop
      rcases hop with rfl | rfl
      · exact ⟨rfl, rfl, rfl⟩
      · exact ⟨rfl, rfl, rfl⟩
  · unfold SamMoves samOps
    rw [halloc]
    constructor
    · intro hsome
      refine ⟨sam, upn, cn, rfl, ?_⟩
      intro hsame
      rw [if_pos hsame] at hsome
      exact hsome rfl
    · rintro ⟨sam', upn', cn', hsame, hne⟩
      cases hsame
      rw [if_neg hne]
      simp

/-- Showing an account under its display name is work. -/
theorem followDisplayName_works (h : followDisplayName s p oid du cu = .ok p') :
    Works p p' ⟨.user, oid⟩ cu.dn True := by
  have hone : ∀ op : Op, op.At cu.dn → p'.planned = p.planned ++ plannedFor ⟨.user, oid⟩ [op] →
      Works p p' ⟨.user, oid⟩ cu.dn True := by
    intro op hat hp
    refine .of_ops _ hp ?_ (by simp)
    intro op' hop'
    rw [List.mem_singleton.mp hop']
    exact hat
  rcases followDisplayName_ok rfl h with ⟨_, hp⟩ | ⟨_, hp⟩
  · exact hone _ ⟨rfl, rfl, rfl⟩ (by rw [hp]; rfl)
  · exact hone _ ⟨rfl, rfl, rfl⟩ (by rw [hp])

/-- Bringing an account up to date is work when it is behind. -/
theorem existingUser_works (h : existingUser s p oid du cu = .ok p') :
    Works p p' ⟨.user, oid⟩ cu.dn (AccountBehind s p oid du cu) := by
  obtain ⟨restored, p₁, p₂, hrestore, hsam, hshow⟩ := existingUser_ok h
  have hlogin : Works p₁ p₂ ⟨.user, oid⟩ cu.dn
      (restored = false ∧ followsSam s cu = true ∧ SamMoves s p₁ oid du cu) := by
    rcases hsam with ⟨hlive, hfollows, hfollow⟩ | ⟨hstays, hsame⟩
    · exact (followSam_works hfollow).congr (by simp [hlive, hfollows])
    · refine (Works.none (by rw [hsame])).congr ?_
      rcases hstays with hrestored | hfixed
      · simp [hrestored]
      · simp [hfixed]
  have hshown : Works p₂ p' ⟨.user, oid⟩ cu.dn
      (restored = false ∧ cu.displayName ≠ some du.displayName) := by
    rcases hshow with ⟨hlive, hdiffers, hfollow⟩ | ⟨hstays, hsame⟩
    · exact (followDisplayName_works hfollow).congr (by simp [hlive, hdiffers])
    · refine (Works.none (by rw [hsame])).congr ?_
      rcases hstays with hrestored | hshown
      · simp [hrestored]
      · simp [hshown]
  unfold restoreUser at hrestore
  unfold AccountBehind
  split at hrestore
  · rename_i hretired
    have hback := ((reappearUser_works hrestore).trans (hlogin.trans hshown)).from
      (p := p) rfl
    exact hback.congr (by simp [hretired])
  · rename_i hlive
    obtain ⟨p₁', hfollow, hpair⟩ := map_ok_iff.mp hrestore
    cases hpair
    have hkeys : SamMoves s p₁ oid du cu ↔ SamMoves s p oid du cu := by
      unfold SamMoves
      rcases followEnabled_ok hfollow with ⟨_, hp⟩ | ⟨_, hp⟩
      · rw [hp]
        exact Iff.rfl
      · rw [hp]
        exact Iff.rfl
    have hall := ((followEnabled_works hfollow).trans (hlogin.trans hshown)).from (p := p) rfl
    refine hall.congr ?_
    rw [hkeys]
    simp only [hlive, true_and, Bool.false_eq_true, false_or]
    rw [or_comm (a := followsSam s cu = true ∧ _)]

/-- What is done to an account that leaves changes that account. -/
theorem leaveOps_at (s : Scene) (cu : CurrentUser) : ∀ op ∈ leaveOps s cu, op.At cu.dn := by
  intro op hop
  unfold leaveOps at hop
  rcases List.mem_append.mp hop with hop | hop
  · split at hop
    · cases hop
    · simp only [List.mem_cons, List.not_mem_nil, or_false] at hop
      rcases hop with rfl | rfl
      · exact ⟨rfl, rfl, rfl⟩
      · exact ⟨rfl, rfl, rfl⟩
  · split at hop
    · rw [List.mem_singleton.mp hop]
      exact ⟨rfl, rfl, rfl⟩
    · cases hop

/-- Giving up a name is work until it is given up. -/
theorem releaseName_works {about : Meant} {dn sam label : String} {setUpn : String → Option String}
    (h : releaseName s p about dn sam label setUpn = .ok p') :
    Works p p' about dn (startsWith sam retiredPrefix = false) := by
  rcases releaseName_ok rfl h with ⟨hheld, hsame⟩ | ⟨hheld, hp⟩
  · exact (Works.none (by rw [hsame])).congr (by simp [hheld])
  · refine .of_ops _ (by rw [hp]) ?_ (by simp [hheld])
    intro op hop
    rw [List.mem_singleton.mp hop]
    exact ⟨rfl, rfl, rfl⟩

/-- Retiring an account is work while it lingers. -/
theorem retireUser_works (h : retireUser s p oid cu = .ok p') :
    Works p p' ⟨.user, oid⟩ cu.dn (AccountLingers cu) := by
  have hleave : Works p (p.append (plannedFor ⟨.user, oid⟩ (leaveOps s cu))) ⟨.user, oid⟩ cu.dn
      (hasMarker cu.markers stRetired = false ∨
        hasMarker cu.markers DeviceGrants.grantPrefix = true) := by
    refine .of_ops _ (append_planned _ _) (leaveOps_at s cu) ?_
    unfold leaveOps
    cases hasMarker cu.markers stRetired with
    | true =>
      cases hasMarker cu.markers DeviceGrants.grantPrefix with
      | true => simp
      | false => simp
    | false => simp
  refine (hleave.trans (releaseName_works (retireUser_ok h))).congr ?_
  unfold AccountLingers
  rw [or_assoc]

end Accounts

section Groups

variable {s : Scene} {p p' : Planning} {oid : Subject} {dg : DesiredGroup} {cg : CurrentGroup}

/-- Bringing a group up to date is work when it is behind. -/
theorem existingGroup_works (h : existingGroup s p oid dg cg = .ok p') :
    Works p p' ⟨.group, oid⟩ cg.dn (GroupBehind s p oid dg cg) := by
  obtain ⟨p₁, hmove, hp'⟩ := existingGroup_ok h
  have hrevive : Works p ((p.locate oid cg.dn).append (plannedFor ⟨.group, oid⟩ (reviveOps cg)))
      ⟨.group, oid⟩ cg.dn (hasMarker cg.markers stQuar = true) := by
    refine .of_ops _ (append_planned _ _) ?_ ?_
    · intro op hop
      unfold reviveOps at hop
      split at hop
      · rw [List.mem_singleton.mp hop]
        exact ⟨rfl, rfl, rfl⟩
      · cases hop
    · unfold reviveOps
      cases hasMarker cg.markers stQuar with
      | true => simp
      | false => simp
  have hmoved : Works ((p.locate oid cg.dn).append (plannedFor ⟨.group, oid⟩ (reviveOps cg))) p₁
      ⟨.group, oid⟩ cg.dn (GroupMoves s p oid dg cg) := by
    unfold GroupMoves
    rcases hmove with ⟨hdiffers, hmove⟩ | ⟨hsame, hp₁⟩
    · obtain ⟨cn, sam, hnames⟩ : ∃ cn sam,
          groupNames dg.displayName oid s.ctx.groupSuffix = (cn, sam) := ⟨_, _, rfl⟩
      rw [hnames]
      rcases moveGroup_ok hnames rfl hmove with ⟨hstays, hp₁⟩ | ⟨hmoves, newCn, _, hp₁⟩
      · exact (Works.none (by rw [hp₁])).congr (iff_of_false not_false fun hc => hc.2 hstays)
      · refine .of_ops _ (by rw [hp₁]) ?_ (iff_of_true (by simp) ⟨hdiffers, hmoves⟩)
        intro op hop
        rw [List.mem_singleton.mp hop]
        exact ⟨rfl, rfl, rfl⟩
    · exact (Works.none (by rw [hp₁])).congr (by simp [hsame])
  have hmark : Works p₁ p' ⟨.group, oid⟩ cg.dn (oid = s.ctx.admission ∧ s.unmarked = true) := by
    refine .of_ops (admissionOps s oid cg) (by rw [hp', append_planned]) ?_ ?_
    · intro op hop
      unfold admissionOps at hop
      split at hop
      · rw [List.mem_singleton.mp hop]
        exact ⟨rfl, rfl, rfl⟩
      · cases hop
    · unfold admissionOps
      by_cases hc : oid = s.ctx.admission ∧ s.unmarked = true
      · simp [hc]
      · rw [if_neg (by simpa using hc)]
        simp [hc]
  exact hrevive.trans (hmoved.trans hmark)

/-- Emptying and marking a group that leaves spares the untouchable objects when it is none
of them and keeps its members among them. -/
theorem emptyOps_spared :
    (∀ op ∈ emptyOps s cg, Spares s.current op) ↔
      (hasMarker cg.markers stQuar = false → Touchable s.current cg.dn ∧
        Kept s.current cg.dn (foreignMembers s cg)) := by
  have hmark : Spares s.current (.setMarker cg.dn (stQuar ++ s.ctx.now)) ↔
      Touchable s.current cg.dn := spares_at ⟨rfl, rfl, rfl⟩
  unfold emptyOps
  cases hasMarker cg.markers stQuar with
  | true => simp
  | false =>
    simp only [Bool.false_eq_true, if_false, List.forall_mem_cons, List.not_mem_nil, false_imp_iff,
      implies_true, and_true, true_imp_iff]
    rw [spares_clearMembers, hmark]
    exact and_iff_left_of_imp And.left

/-- Quarantining a group spares the untouchable objects when it is none of them and keeps its
members among them. -/
theorem quarantineGroup_spared (h : quarantineGroup s p oid cg = .ok p') :
    AllSpared s.current p'.planned ↔ AllSpared s.current p.planned ∧
      (GroupLingers cg → Touchable s.current cg.dn) ∧
      (hasMarker cg.markers stQuar = false → Kept s.current cg.dn (foreignMembers s cg)) := by
  obtain ⟨p₁, hwork, hrelease⟩ := quarantineGroup_ok h
  have hempty : AllSpared s.current p₁.planned ↔ AllSpared s.current p.planned ∧
      (hasMarker cg.markers stQuar = false → Touchable s.current cg.dn ∧
        Kept s.current cg.dn (foreignMembers s cg)) := by
    rw [← emptyOps_spared]
    unfold AllSpared plannedFor at *
    rw [hwork.1, append_planned, List.forall_mem_append, List.forall_mem_map]
  rw [(releaseName_works hrelease).spared, hempty]
  unfold GroupLingers
  tauto

end Groups

/-- The groups a role marker is taken off can be touched. -/
def ClearsTouchable (current : Current) (oids : List Subject) : Prop :=
  ∀ oid ∈ oids, ∀ cg ∈ lookup current.groups oid, Touchable current cg.dn

/-- Taking a role marker off groups spares the untouchable objects when the groups are none
of them. -/
theorem clearOps_spared {current : Current} {role : String} {oids : List Subject} :
    AllSpared current (clearOps current role oids) ↔ ClearsTouchable current oids := by
  have hat : ∀ cg : CurrentGroup, Spares current (.clearMarker cg.dn role) ↔
      Touchable current cg.dn := fun cg => spares_at ⟨rfl, rfl, rfl⟩
  unfold AllSpared ClearsTouchable clearOps
  constructor
  · intro h oid hoid cg hcg
    refine (hat cg).mp (h ⟨⟨.group, oid⟩, .clearMarker cg.dn role⟩ ?_)
    exact List.mem_filterMap.mpr ⟨oid, hoid, by rw [hcg]; rfl⟩
  · intro h e he
    obtain ⟨oid, hoid, hfound⟩ := List.mem_filterMap.mp he
    obtain ⟨cg, hcg, hop⟩ := Option.map_eq_some_iff.mp hfound
    rw [← hop]
    exact (hat cg).mpr (h oid hoid cg hcg)

/-- The condition on moving the device-grant marker: the groups it is taken off, and the one
it is set on, can be touched. -/
def GrantSpares (s : Scene) (p : Planning) : Prop :=
  ∀ oid dn, GrantPlace s p oid dn → ClearsTouchable s.current (grantStale s oid) ∧
    (oid ∉ carriers s.current roleDeviceGrant → Touchable s.current dn)

/-- The operation that marks the device-grant group spares the untouchable objects when the
group is none of them. -/
theorem grantOps_spared {s : Scene} {oid : Subject} {dn : String} :
    AllSpared s.current (grantOps s oid dn) ↔
      (oid ∉ carriers s.current roleDeviceGrant → Touchable s.current dn) := by
  have hat : Spares s.current (.setRoleMarker dn roleDeviceGrant) ↔ Touchable s.current dn :=
    spares_at ⟨rfl, rfl, rfl⟩
  unfold AllSpared grantOps
  by_cases hcarries : oid ∈ carriers s.current roleDeviceGrant
  · rw [if_pos hcarries]
    simp [hcarries]
  · rw [if_neg hcarries]
    simp [plannedFor, hcarries, hat]

/-- What a membership turn adds, and what it removes. -/
def MemberWork (s : Scene) (p : Planning) (entry : Subject × List Subject) : Prop :=
  (∃ m ∈ wanted p entry.2, m ∉ held s p.planned entry.1) ∨
    ∃ m ∈ held s p.planned entry.1, m ∉ wanted p entry.2 ∧ Dropped s m = true

/-- The condition on a membership turn: a group whose members change can be touched, and so
can the members that go. -/
def MemberSpares (s : Scene) (p : Planning) (entry : Subject × List Subject) : Prop :=
  ∀ gdn, MemberPlace s p entry.1 gdn → (MemberWork s p entry → Touchable s.current gdn) ∧
    ∀ m ∈ held s p.planned entry.1, m ∉ wanted p entry.2 → Dropped s m = true →
      Touchable s.current m

omit [UnicodeTables] in
/-- A text is among the elements of a set of texts, in order, when it is in the set. -/
theorem mem_sortedTexts {m : String} {texts : List String} : m ∈ sortedTexts texts ↔ m ∈ texts := by
  unfold sortedTexts
  rw [List.mem_mergeSort, List.mem_dedup]

/-- The operations of a membership turn spare the untouchable objects when the group is none
of them, provided its members change, and none of them goes. -/
theorem memberOps_spared {s : Scene} {p : Planning} {entry : Subject × List Subject}
    {gdn : String} :
    (∀ op ∈ memberOps s p.planned p entry gdn, Spares s.current op) ↔
      (MemberWork s p entry → Touchable s.current gdn) ∧
        ∀ m ∈ held s p.planned entry.1, m ∉ wanted p entry.2 → Dropped s m = true →
          Touchable s.current m := by
  have hadd : ∀ m, Spares s.current (.addMember gdn m) ↔ Touchable s.current gdn :=
    fun m => spares_at ⟨rfl, rfl, rfl⟩
  unfold memberOps MemberWork
  simp only [List.forall_mem_append, List.forall_mem_map, List.mem_filter, mem_sortedTexts, hadd,
    spares_removeMember, decide_eq_true_eq, and_imp]
  constructor
  · intro h
    refine ⟨?_, fun m hm hwant hdrop => (h.2 m hm hwant hdrop).2⟩
    rintro (⟨m, hm, hheld⟩ | ⟨m, hm, hwant, hdrop⟩)
    · exact h.1 m hm hheld
    · exact (h.2 m hm hwant hdrop).1
  · intro h
    refine ⟨fun m hm hheld => h.1 (Or.inl ⟨m, hm, hheld⟩), ?_⟩
    intro m hm hwant hdrop
    exact ⟨h.1 (Or.inr ⟨m, hm, hwant, hdrop⟩), h.2 m hm hwant hdrop⟩

/-- The condition on a turn: the object it works on can be touched, provided there is work,
and so can the members that go. -/
def TurnSpares (s : Scene) (p : Planning) : Turn → Prop
  | .user entry => entry.1 ∉ s.dupes → ∀ cu ∈ lookup s.current.users entry.1,
      AccountBehind s p entry.1 entry.2 cu → Touchable s.current cu.dn
  | .userLeaver oid => ¬(oid ∈ s.desired.users ∨ oid ∈ s.dupes) →
      ∀ cu ∈ lookup s.current.users oid, AccountLingers cu → Touchable s.current cu.dn
  | .collisions => True
  | .group entry => entry.1 ∉ s.dupes → ∀ cg ∈ lookup s.current.groups entry.1,
      GroupBehind s p entry.1 entry.2 cg → Touchable s.current cg.dn
  | .groupLeaver oid => ¬(oid ∈ s.desired.groups ∨ oid ∈ s.dupes) → oid ≠ s.ctx.admission →
      ∀ cg ∈ lookup s.current.groups oid, (GroupLingers cg → Touchable s.current cg.dn) ∧
        (hasMarker cg.markers stQuar = false → Kept s.current cg.dn (foreignMembers s cg))
  | .grant => GrantSpares s p
  | .member entry => MemberSpares s p entry

/-- One turn spares the untouchable objects exactly under its condition. -/
theorem turn_spared {s : Scene} {p p' : Planning} {t : Turn} (h : turn s p t = .ok p') :
    AllSpared s.current p'.planned ↔ AllSpared s.current p.planned ∧ TurnSpares s p t := by
  have hsome : ∀ {α : Type} {a : α} {P : α → Prop}, (∀ b ∈ some a, P b) ↔ P a := by
    intro α a P
    simp
  have hcreated : ∀ (about : Meant) (op : Op), op.creates = true →
      p'.planned = p.planned ++ plannedFor about [op] →
      (AllSpared s.current p'.planned ↔ AllSpared s.current p.planned) := by
    intro about op hcreates hp
    unfold AllSpared
    rw [hp, List.forall_mem_append]
    exact and_iff_left (by simpa [plannedFor] using spares_creates hcreates)
  unfold TurnSpares
  cases t with
  | user entry =>
    change userTurn s p entry = .ok p' at h
    unfold userTurn at h
    dsimp only
    split at h
    · rename_i hdupe
      cases h
      exact (and_iff_left fun hfree => absurd hdupe hfree).symm
    · rename_i hdupe
      rw [imp_iff_right hdupe]
      cases hcu : lookup s.current.users entry.1 with
      | none =>
        rw [hcu] at h
        rw [and_iff_left (fun _ hc => by cases hc)]
        rcases createUser_ok h with ⟨why, _, hp⟩ | ⟨_, _, _, _, _, _, _, _, _, hp⟩
        · rw [hp]
          rfl
        · exact hcreated _ _ rfl (by rw [hp]; rfl)
      | some cu =>
        rw [hcu] at h
        rw [hsome]
        exact (existingUser_works h).spared
  | userLeaver oid =>
    change userLeaver s p oid = .ok p' at h
    unfold userLeaver at h
    dsimp only
    split at h
    · rename_i hskip
      cases h
      exact (and_iff_left fun hstay => absurd hskip hstay).symm
    · rename_i hskip
      rw [imp_iff_right hskip]
      cases hcu : lookup s.current.users oid with
      | none =>
        rw [hcu] at h
        cases h
      | some cu =>
        rw [hcu] at h
        rw [hsome]
        exact (retireUser_works h).spared
  | collisions =>
    obtain ⟨_, _, hp⟩ := map_ok_iff.mp h
    rw [hp]
    exact (and_iff_left trivial).symm
  | group entry =>
    change groupTurn s p entry = .ok p' at h
    unfold groupTurn at h
    dsimp only
    split at h
    · rename_i hdupe
      cases h
      exact (and_iff_left fun hfree => absurd hdupe hfree).symm
    · rename_i hdupe
      rw [imp_iff_right hdupe]
      cases hcg : lookup s.current.groups entry.1 with
      | none =>
        rw [hcg] at h
        rw [and_iff_left (fun _ hc => by cases hc)]
        obtain ⟨cn, sam, hnames⟩ : ∃ cn sam,
          groupNames entry.2.displayName entry.1 s.ctx.groupSuffix = (cn, sam) := ⟨_, _, rfl⟩
        rcases createGroup_ok hnames rfl h with ⟨why, _, hp⟩ | ⟨_, _, _, _, hp⟩
        · rw [hp]
          rfl
        · exact hcreated _ _ rfl (by rw [hp])
      | some cg =>
        rw [hcg] at h
        rw [hsome]
        exact (existingGroup_works h).spared
  | groupLeaver oid =>
    change groupLeaver s p oid = .ok p' at h
    unfold groupLeaver at h
    dsimp only
    split at h
    · rename_i hskip
      cases h
      exact (and_iff_left fun hstay => absurd hskip hstay).symm
    · rename_i hskip
      rw [imp_iff_right hskip]
      cases hcg : lookup s.current.groups oid with
      | none =>
        rw [hcg] at h
        cases h
      | some cg =>
        rw [hcg] at h
        rw [hsome]
        dsimp only at h
        split at h
        · rename_i hadmission
          cases h
          exact (and_iff_left fun hother => absurd hadmission hother).symm
        · rename_i hadmission
          rw [imp_iff_right hadmission]
          exact quarantineGroup_spared h
  | grant =>
    dsimp only
    unfold GrantSpares
    rcases grantPass_ok h with ⟨hnone, hwork⟩ | ⟨oid, dn, hplace, hp⟩
    · rw [and_iff_left (fun oid dn hplace => absurd hplace (hnone oid dn))]
      unfold AllSpared
      rw [hwork.1]
    · have hall : AllSpared s.current p'.planned ↔ AllSpared s.current p.planned ∧
          ClearsTouchable s.current (grantStale s oid) ∧
            (oid ∉ carriers s.current roleDeviceGrant → Touchable s.current dn) := by
        rw [← @clearOps_spared _ s.current roleDeviceGrant, ← grantOps_spared]
        unfold AllSpared
        rw [hp, append_planned, List.forall_mem_append, List.forall_mem_append]
      rw [hall]
      refine and_congr_right fun _ => ⟨?_, fun hs => hs oid dn hplace⟩
      rintro hs oid' dn' ⟨hgrant, _, hdn⟩
      rw [hplace.1] at hgrant
      cases hgrant
      rw [hplace.2.2] at hdn
      cases hdn
      exact hs
  | member entry =>
    dsimp only
    unfold MemberSpares
    rcases memberTurn_ok h with ⟨hnone, hp⟩ | ⟨gdn, hplace, hwork⟩
    · rw [and_iff_left (fun gdn hplace => absurd hplace (hnone gdn)), hp]
    · have hall : AllSpared s.current p'.planned ↔ AllSpared s.current p.planned ∧
          ∀ op ∈ memberOps s p.planned p entry gdn, Spares s.current op := by
        unfold AllSpared plannedFor at *
        rw [hwork.1, append_planned, List.forall_mem_append, List.forall_mem_map]
      rw [hall, memberOps_spared]
      refine and_congr_right fun _ => ⟨?_, fun hs => hs gdn hplace⟩
      rintro hs gdn' ⟨_, _, hdn⟩
      rw [hplace.2.2] at hdn
      cases hdn
      exact hs

/-- The groups that carry the admission marker and should not. -/
def staleCarriers (current : Current) (ctx : PlanCtx) : List Subject :=
  (carriers current roleAdmission).filter (· ≠ ctx.admission)

/-- The condition on a plan: the groups that lose the admission marker can be touched, and
every turn meets its condition in the state it is taken in. -/
def PlanSpares (desired : Desired) (current : Current) (ctx : PlanCtx) : Prop :=
  freeze desired current ctx = none → ClearsTouchable current (staleCarriers current ctx) ∧
    ∀ p₀ sc, stalePass current ctx = .ok p₀ → scan current = .ok sc →
      Along (turn (sceneOf desired current ctx sc)) (TurnSpares (sceneOf desired current ctx sc))
        (opening current sc p₀) (turns (sceneOf desired current ctx sc))

/-- No operation of a plan changes an ambiguous or a foreign object, or takes one out of a
group, exactly when every group a role marker is taken off or set on, and every object a turn
has work on, is none of them under its name, and every member that goes is none. -/
theorem plan_spares {desired : Desired} {current : Current} {ctx : PlanCtx} {plan : Plan}
    (h : planSync desired current ctx = .ok plan) :
    (∀ op ∈ plan.ops, Spares current op) ↔ PlanSpares desired current ctx := by
  obtain ⟨p, hp, rfl⟩ := map_ok_iff.mp h
  have hops : (∀ op ∈ p.plan.ops, Spares current op) ↔ AllSpared current p.planned :=
    List.forall_mem_map
  rw [hops]
  unfold PlanSpares
  rcases planning_ok hp with ⟨alert, hfreeze, hempty⟩ | ⟨p₀, sc, hfreeze, hstale, hscan, hturns⟩
  · have hspared : AllSpared current p.planned := by
      rw [hempty]
      intro e he
      cases he
    refine iff_of_true hspared ?_
    intro hnone
    rw [hfreeze] at hnone
    cases hnone
  · have hopening : AllSpared current (opening current sc p₀).planned ↔
        ClearsTouchable current (staleCarriers current ctx) := by
      rw [← @clearOps_spared _ current roleAdmission]
      change AllSpared current p₀.planned ↔ _
      unfold stalePass at hstale
      rw [foldlM_clearRole hstale]
      rfl
    have hrun := @along_iff _ _ _ (turn (sceneOf desired current ctx sc)) (fun _ => True)
      (fun p => AllSpared current p.planned) (TurnSpares (sceneOf desired current ctx sc))
      (turns (sceneOf desired current ctx sc)) _ _
      (fun p t p' _ _ hturn => ⟨trivial, @turn_spared _ (sceneOf desired current ctx sc) p p' t hturn⟩)
      trivial hturns
    change AllSpared current p.planned ↔ _
    rw [hrun, hopening]
    constructor
    · rintro ⟨hclears, halong⟩ _
      refine ⟨hclears, ?_⟩
      intro p₀' sc' hstale' hscan'
      rw [hstale] at hstale'
      rw [hscan] at hscan'
      cases hstale'
      cases hscan'
      exact halong
    · intro hall
      exact ⟨(hall hfreeze).1, (hall hfreeze).2 p₀ sc hstale hscan⟩

end Turns

/-- The subject of the group the configuration names. -/
def namedGroup : Subject := "11111111-1111-1111-1111-111111111111"

/-- The subject two groups share. -/
def twinGroup : Subject := "33333333-3333-3333-3333-333333333333"

/-- A unit in which three groups carry the admission marker: the one the configuration names,
and two that hold one identity. -/
def twinCurrent : Current where
  groups := [
    (namedGroup, ⟨"CN=adm,OU=idp,DC=x", "adm", "adm", [], [roleAdmission],
      "kb1|idp|11111111-1111-1111-1111-111111111111"⟩),
    (twinGroup, ⟨"CN=one,OU=idp,DC=x", "one", "one", [], [roleAdmission],
      "kb1|idp|33333333-3333-3333-3333-333333333333"⟩),
    (twinGroup, ⟨"CN=two,OU=idp,DC=x", "two", "two", [], [roleAdmission],
      "kb1|idp|33333333-3333-3333-3333-333333333333"⟩)]

/-- The group the configuration names, and nobody in it. -/
def twinDesired : @Desired asciiTables :=
  let _ := asciiTables
  ⟨{}, ({} : ExtTreeMap Subject DesiredGroup).insert namedGroup ⟨"adm"⟩, {}⟩

def twinCtx : PlanCtx where
  idpOu := "OU=idp,DC=x"
  admission := namedGroup
  upnSuffix := "x"
  groupSuffix := ""
  suffixAccepted := emptySuffix_accepted
  now := "now"
  automaticSamRenames := false
  identity := fun oid => .ok ("kb1|idp|" ++ oid)

/-- The scan of the unit. -/
def twinScan : Scan where
  seen := [("kb1|idp|33333333-3333-3333-3333-333333333333", twinGroup),
    ("kb1|idp|33333333-3333-3333-3333-333333333333", twinGroup),
    ("kb1|idp|11111111-1111-1111-1111-111111111111", namedGroup)]
  dupes := [twinGroup, twinGroup]
  conflicts := ["ambiguous identity value on CN=two,OU=idp,DC=x and CN=two,OU=idp,DC=x - both " ++
    "excluded"]

def twinScene : @Scene asciiTables :=
  @sceneOf asciiTables twinDesired twinCurrent twinCtx twinScan

/-- What is planned before the first turn: the marker is taken off the second twin, twice. -/
def twinStale : Planning where
  planned := [⟨⟨.group, twinGroup⟩, .clearMarker "CN=two,OU=idp,DC=x" roleAdmission⟩,
    ⟨⟨.group, twinGroup⟩, .clearMarker "CN=two,OU=idp,DC=x" roleAdmission⟩]

/-- The turns of the plan. -/
def twinTurns : List (@Turn asciiTables) :=
  let _ := asciiTables
  [.collisions, .group (namedGroup, ⟨"adm"⟩), .groupLeaver namedGroup, .groupLeaver twinGroup,
    .groupLeaver twinGroup, .grant]

theorem twinTurns_eq : @turns asciiTables twinScene = twinTurns := by
  let _ := asciiTables
  have husers : twinScene.desired.users.toList = [] := rfl
  have hgroups : twinScene.desired.groups.toList = [(namedGroup, ⟨"adm"⟩)] := rfl
  have hmembers : twinScene.desired.membership.toList = [] := rfl
  have hleavers : sortedOids twinScene.current.users = [] := List.mergeSort_nil
  have hgone : sortedOids twinScene.current.groups = [namedGroup, twinGroup, twinGroup] := by
    refine List.mergeSort_of_pairwise ?_
    decide
  unfold turns
  rw [husers, hgroups, hmembers, hleavers, hgone]
  rfl

/-- The group the configuration names is up to date. -/
theorem namedGroup_turn (p : Planning) :
    @turn asciiTables twinScene p (@Turn.group asciiTables (namedGroup, ⟨"adm"⟩)) =
      .ok (p.locate namedGroup "CN=adm,OU=idp,DC=x") := by
  let _ := asciiTables
  have hcg : lookup twinCurrent.groups namedGroup = some ⟨"CN=adm,OU=idp,DC=x", "adm", "adm", [],
      [roleAdmission], "kb1|idp|11111111-1111-1111-1111-111111111111"⟩ := by decide
  have hcurrent : twinScene.current = twinCurrent := rfl
  have hdupe : namedGroup ∉ twinScene.dupes := by decide
  have hmarked : twinScene.unmarked = false := by decide
  have hquar : startsWith roleAdmission stQuar = false := by decide
  change groupTurn twinScene p _ = _
  simp [groupTurn, hcurrent, hdupe, hcg, existingGroup, hasMarker, Planning.onlyIf, hmarked, hquar]
  rfl

/-- The plan that is made for the unit. -/
theorem twin_planned :
    ∃ plan, @planSync asciiTables twinDesired twinCurrent twinCtx = .ok plan ∧
      plan.ops = [.clearMarker "CN=two,OU=idp,DC=x" roleAdmission,
        .clearMarker "CN=two,OU=idp,DC=x" roleAdmission] := by
  let _ := asciiTables
  have hfreeze : freeze twinDesired twinCurrent twinCtx = none := by
    unfold freeze
    have hmem : twinCtx.admission ∈ twinDesired.groups := by simp [twinDesired, twinCtx]
    have hsome : ¬(twinDesired.users.isEmpty ∧ twinCurrent.users ≠ []) := by
      simp [twinCurrent]
    rw [if_neg (not_not.mpr hmem), if_neg hsome]
  have hstale : stalePass twinCurrent twinCtx = .ok twinStale := by
    have hnames : (carriers twinCurrent roleAdmission).filter (· ≠ twinCtx.admission) =
        [twinGroup, twinGroup] := by decide
    have hwithin : dnIsAtOrWithin "CN=two,OU=idp,DC=x" twinCtx.idpOu = true := by decide +kernel
    have hclear : ∀ p, clearRole twinCtx twinCurrent roleAdmission p twinGroup =
        .ok (p.append [⟨⟨.group, twinGroup⟩, .clearMarker "CN=two,OU=idp,DC=x" roleAdmission⟩]) :=
      fun p => add_of_within hwithin
    unfold stalePass
    rw [hnames]
    simp only [List.foldlM_cons, List.foldlM_nil, hclear, ok_bind]
    rfl
  have hscan : scan twinCurrent = .ok twinScan := rfl
  have hdupe : twinGroup ∈ twinScene.dupes := List.mem_cons_self
  refine ⟨((opening twinCurrent twinScan twinStale).locate namedGroup "CN=adm,OU=idp,DC=x").plan,
    ?_, rfl⟩
  unfold planSync planning
  rw [hfreeze]
  dsimp only
  rw [hstale, ok_bind, hscan, ok_bind, passes_eq]
  change (((turns twinScene).foldlM (turn twinScene) _).map _) = _
  rw [twinTurns_eq]
  unfold twinTurns
  have hcheck : ∀ p, turn twinScene p .collisions = .ok p := fun _ => rfl
  have hkept : ∀ p, turn twinScene p (.groupLeaver namedGroup) = .ok p := fun _ => rfl
  have hfrozen : ∀ p, turn twinScene p (.groupLeaver twinGroup) = .ok p := by
    intro p
    change groupLeaver twinScene p twinGroup = _
    unfold groupLeaver
    rw [if_pos (Or.inr hdupe)]
  have hgrant : ∀ p, turn twinScene p .grant = .ok p := fun _ => rfl
  simp only [List.foldlM_cons, List.foldlM_nil, ok_bind, hcheck, namedGroup_turn, hkept, hfrozen,
    hgrant]
  rfl

/-- What the law of the objects a plan leaves alone says of the unit. -/
theorem plan_spares_twins :
    ∃ plan, @planSync asciiTables twinDesired twinCurrent twinCtx = .ok plan ∧
      ((∀ op ∈ plan.ops, @Spares asciiTables twinCurrent op) ↔
        @PlanSpares asciiTables twinDesired twinCurrent twinCtx) := by
  obtain ⟨plan, hplan, _⟩ := twin_planned
  exact ⟨plan, hplan, @plan_spares asciiTables _ _ _ _ hplan⟩

/-- The admission marker is taken off a group whose identity another group shares. -/
theorem twin_changed :
    ∃ plan, @planSync asciiTables twinDesired twinCurrent twinCtx = .ok plan ∧
      Shared twinCurrent twinGroup ∧
      .clearMarker "CN=two,OU=idp,DC=x" roleAdmission ∈ plan.ops ∧
      ¬∀ op ∈ plan.ops, @Spares asciiTables twinCurrent op := by
  let _ := asciiTables
  obtain ⟨plan, hplan, hops⟩ := twin_planned
  have hshared : Shared twinCurrent twinGroup := by decide +kernel
  have hmem : "CN=two,OU=idp,DC=x" ∈ untouchableDns twinCurrent := by decide
  have hsame : dnEquals "CN=two,OU=idp,DC=x" "CN=two,OU=idp,DC=x" = true := by decide +kernel
  refine ⟨plan, hplan, hshared, ?_, ?_⟩
  · rw [hops]
    exact List.mem_cons_self
  · rw [hops]
    intro hspares
    exact (hspares _ List.mem_cons_self _ hmem).1 ⟨rfl, hsame⟩

end Kerbridge.Planner

import Kerbridge.PlannerTurns
import Kerbridge.TwoRuns

/-!
# Two plans, made alike

Two states of the planner that differ in the order of what they hold: the operations
added since some point are the same, and so are the names located; the names taken are
the same as sets. Every step of the source keeps two such states alike, whatever the
order in which the directory was read.
-/

namespace Kerbridge.Planner

open Std (ExtTreeMap)
open UnicodeText DirectorySource SamName DistinguishedName RealmState StoredIdentity PlannerNames
  Fallible TwoRuns

/-- Two cycles are stopped alike: refused for one reason, or both ended as a panic, which
returns nothing to compare. -/
def SameStop : Stop → Stop → Prop
  | .refused why, .refused why' => why = why'
  | .panicked _, .panicked _ => True
  | _, _ => False

/-- A stop is like itself. -/
theorem SameStop.refl (e : Stop) : SameStop e e := by
  cases e with
  | refused why => rfl
  | panicked why => trivial

/-- Two states went on alike from two others: the same was added to what is planned and
reported, every desired object is at one place, and one set of names is taken. -/
structure Matched (b b' p p' : Planning) : Prop where
  planned : ∃ es, p.planned = b.planned ++ es ∧ p'.planned = b'.planned ++ es
  conflicts : ∃ texts, p.conflicts = b.conflicts ++ texts ∧ p'.conflicts = b'.conflicts ++ texts
  alerts : ∃ more, p.alerts = b.alerts ++ more ∧ p'.alerts = b'.alerts ++ more
  dnOf : p'.dnOf = p.dnOf
  taken : ∀ dn, dn ∈ p'.takenDns ↔ dn ∈ p.takenDns
  keys : ∀ key, key ∈ p'.samKeys ↔ key ∈ p.samKeys

variable {b b' p p' : Planning}

/-- Two states with one set of names each are where they start from. -/
theorem matched_start (hdnOf : p'.dnOf = p.dnOf)
    (htaken : ∀ dn, dn ∈ p'.takenDns ↔ dn ∈ p.takenDns)
    (hkeys : ∀ key, key ∈ p'.samKeys ↔ key ∈ p.samKeys) : Matched p p' p p' :=
  ⟨⟨[], by simp, by simp⟩, ⟨[], by simp, by simp⟩, ⟨[], by simp, by simp⟩, hdnOf, htaken, hkeys⟩

/-- More operations on both sides. -/
theorem Matched.append (h : Matched b b' p p') (es : List Planned) :
    Matched b b' (p.append es) (p'.append es) := by
  obtain ⟨before, hp, hp'⟩ := h.planned
  refine ⟨⟨before ++ es, ?_, ?_⟩, h.conflicts, h.alerts, h.dnOf, h.taken, h.keys⟩
  · rw [append_planned, hp, List.append_assoc]
  · rw [append_planned, hp', List.append_assoc]

/-- One report on both sides. -/
theorem Matched.conflict (h : Matched b b' p p') (text : String) :
    Matched b b' (p.conflict text) (p'.conflict text) := by
  obtain ⟨before, hp, hp'⟩ := h.conflicts
  refine ⟨h.planned, ⟨before ++ [text], ?_, ?_⟩, h.alerts, h.dnOf, h.taken, h.keys⟩
  · rw [Planning.conflict, hp, List.append_assoc]
  · rw [Planning.conflict, hp', List.append_assoc]

/-- Several reports on both sides. -/
theorem Matched.reports (h : Matched b b' p p') (texts : List String) :
    Matched b b' { p with conflicts := p.conflicts ++ texts }
      { p' with conflicts := p'.conflicts ++ texts } := by
  obtain ⟨before, hp, hp'⟩ := h.conflicts
  refine ⟨h.planned, ⟨before ++ texts, ?_, ?_⟩, h.alerts, h.dnOf, h.taken, h.keys⟩
  · rw [hp, List.append_assoc]
  · rw [hp', List.append_assoc]

/-- One alert on both sides. -/
theorem Matched.alert (h : Matched b b' p p') (kind : AlertKind) (text : String) :
    Matched b b' (p.alert kind text) (p'.alert kind text) := by
  obtain ⟨before, hp, hp'⟩ := h.alerts
  refine ⟨h.planned, h.conflicts, ⟨before ++ [⟨kind, text⟩], ?_, ?_⟩, h.dnOf, h.taken, h.keys⟩
  · rw [Planning.alert, hp, List.append_assoc]
  · rw [Planning.alert, hp', List.append_assoc]

/-- One place on both sides. -/
theorem Matched.locate (h : Matched b b' p p') (oid : Subject) (dn : String) :
    Matched b b' (p.locate oid dn) (p'.locate oid dn) := by
  refine ⟨h.planned, h.conflicts, h.alerts, ?_, h.taken, h.keys⟩
  rw [Planning.locate, Planning.locate, h.dnOf]

/-- One name taken on both sides. -/
theorem Matched.take (h : Matched b b' p p') (dn : String) :
    Matched b b' (p.take dn) (p'.take dn) := by
  refine ⟨h.planned, h.conflicts, h.alerts, h.dnOf, ?_, h.keys⟩
  intro name
  simp only [Planning.take, List.mem_cons, h.taken]

variable [UnicodeTables]

/-- One login name handed out on both sides. -/
theorem Matched.hold (h : Matched b b' p p') (sam : String) :
    Matched b b' (p.hold sam) (p'.hold sam) := by
  refine ⟨h.planned, h.conflicts, h.alerts, h.dnOf, h.taken, ?_⟩
  intro key
  simp only [Planning.hold, List.mem_cons, h.keys]

/-- One login name released on both sides. -/
theorem Matched.release (h : Matched b b' p p') (sam : String) :
    Matched b b' (p.release sam) (p'.release sam) := by
  refine ⟨h.planned, h.conflicts, h.alerts, h.dnOf, h.taken, ?_⟩
  intro key
  simp only [Planning.release, List.mem_filter, h.keys]

/-- One operation more is accepted on both sides, or on neither. -/
theorem Matched.add (h : Matched b b' p p') (ctx : PlanCtx) (about : Meant) (op : Op) :
    EndAlike SameStop (Matched b b') (p.add ctx about op) (p'.add ctx about op) := by
  unfold Planning.add
  split
  · exact .ok (h.append [⟨about, op⟩])
  · exact .error trivial

/-- Several operations more are accepted on both sides, or on neither. -/
theorem Matched.addAll (h : Matched b b' p p') (ctx : PlanCtx) (about : Meant) (ops : List Op) :
    EndAlike SameStop (Matched b b') (p.addAll ctx about ops) (p'.addAll ctx about ops) := by
  unfold Planning.addAll
  exact foldlM_alike h fun op _ q q' hq => hq.add ctx about op

/-- A step under one condition. -/
theorem Matched.onlyIf (h : Matched b b' p p') (c : Bool)
    {step step' : Planning → Except Stop Planning}
    (hstep : EndAlike SameStop (Matched b b') (step p) (step' p')) :
    EndAlike SameStop (Matched b b') (p.onlyIf c step) (p'.onlyIf c step') := by
  unfold Planning.onlyIf
  cases c with
  | true => exact hstep
  | false => exact .ok h

/-- The names an account gets depend on the set of those held. -/
theorem allocNames_congr {keys keys' : List String} (h : ∀ key, key ∈ keys' ↔ key ∈ keys)
    (du : DesiredUser) (oid : Subject) (upnSuffix : String) :
    allocNames du oid keys' upnSuffix = allocNames du oid keys upnSuffix := by
  unfold allocNames
  simp only [h]

omit [UnicodeTables] in
/-- A fresh name depends on the set of those taken. -/
theorem Matched.freshCn (h : Matched b b' p p') (cn parent : String) (oid : Subject) :
    freshCn cn parent oid p'.takenDns = freshCn cn parent oid p.takenDns := by
  unfold Planner.freshCn
  simp only [h.taken]

section Steps

variable [UnicodeTables] {s s' : Scene} {b b' p p' : Planning}

/-- The names an account gets are the same on both sides, or refused for one reason. -/
theorem alloc_alike (hctx : s'.ctx = s.ctx) (h : Matched b b' p p') (du : DesiredUser)
    (oid : Subject) :
    EndAlike SameStop (fun x y => x = y) (s.alloc du oid p.samKeys)
      (s'.alloc du oid p'.samKeys) := by
  unfold Scene.alloc
  rw [hctx, allocNames_congr h.keys]
  exact EndAlike.refl SameStop.refl (fun _ => rfl) _

omit [UnicodeTables] in
/-- A fresh name taken on both sides. -/
theorem Matched.fresh (h : Matched b b' p p') (cn idpOu : String) (oid : Subject) :
    (freshDn cn oid idpOu p'.takenDns).1 = (freshDn cn oid idpOu p.takenDns).1 ∧
      Matched b b' { p with takenDns := (freshDn cn oid idpOu p.takenDns).2 }
        { p' with takenDns := (freshDn cn oid idpOu p'.takenDns).2 } := by
  rw [freshDn_eq, freshDn_eq, h.freshCn]
  exact ⟨rfl, h.take _⟩

/-- A new account is created alike. -/
theorem createUser_alike (hctx : s'.ctx = s.ctx) (h : Matched b b' p p') (oid : Subject)
    (du : DesiredUser) :
    EndAlike SameStop (Matched b b') (createUser s p oid du) (createUser s' p' oid du) := by
  unfold createUser
  rw [hctx]
  cases s.ctx.identity oid with
  | error why => exact .ok (h.conflict _)
  | ok identity =>
    refine (alloc_alike hctx h du oid).bind ?_
    rintro ⟨sam, upn, cn⟩ _ rfl
    obtain ⟨hdn, hfresh⟩ := (h.hold sam).fresh cn s.ctx.idpOu oid
    dsimp only
    rw [hdn]
    exact (hfresh.locate oid _).add s.ctx _ _

/-- Two ways of restoring an account agree on whether it was renamed. -/
def Restored (b b' : Planning) (x x' : Bool × Planning) : Prop :=
  x'.1 = x.1 ∧ Matched b b' x.2 x'.2

/-- An account that is back is restored alike. -/
theorem reappearUser_alike (hctx : s'.ctx = s.ctx) (h : Matched b b' p p') (oid : Subject)
    (du : DesiredUser) (cu : CurrentUser) :
    EndAlike SameStop (Restored b b') (reappearUser s p oid du cu)
      (reappearUser s' p' oid du cu) := by
  unfold reappearUser
  rw [hctx]
  refine (h.add s.ctx _ _).bind ?_
  intro p₁ p₁' h₁
  refine (h₁.onlyIf _ (h₁.add s.ctx _ _)).bind ?_
  intro p₂ p₂' h₂
  refine (alloc_alike hctx (h₂.release cu.sam) du oid).bind ?_
  rintro ⟨sam, upn, plainCn⟩ _ rfl
  have h₃ := (h₂.release cu.sam).hold sam
  dsimp only
  simp only [h₃.taken]
  -- the common name is one on both sides, with the suffix or without it
  split
  all_goals
    split
    · refine ((h₃.take _).add s.ctx _ _).bind ?_
      intro p₄ p₄' h₄
      exact .ok ⟨rfl, h₄.locate oid _⟩
    · exact .ok ⟨rfl, h₃⟩

/-- An account is enabled or disabled alike. -/
theorem followEnabled_alike (hctx : s'.ctx = s.ctx) (h : Matched b b' p p') (oid : Subject)
    (du : DesiredUser) (cu : CurrentUser) :
    EndAlike SameStop (Matched b b') (followEnabled s p oid du cu)
      (followEnabled s' p' oid du cu) := by
  unfold followEnabled
  rw [hctx]
  split
  · exact h.add s.ctx _ _
  · exact .ok h

/-- An account gets its login name alike. -/
theorem followSam_alike (hctx : s'.ctx = s.ctx) (h : Matched b b' p p') (oid : Subject)
    (du : DesiredUser) (cu : CurrentUser) :
    EndAlike SameStop (Matched b b') (followSam s p oid du cu) (followSam s' p' oid du cu) := by
  unfold followSam
  refine (alloc_alike hctx (h.release cu.sam) du oid).bind ?_
  rintro ⟨sam, upn, plainCn⟩ _ rfl
  have hheld := (h.release cu.sam).hold sam
  dsimp only
  rw [hctx]
  split
  · exact hheld.addAll s.ctx _ _
  · exact .ok hheld

/-- An account is moved alike. -/
theorem moveUser_alike (hctx : s'.ctx = s.ctx) (h : Matched b b' p p') (oid : Subject)
    (du : DesiredUser) (cu : CurrentUser) (newCn : String) :
    EndAlike SameStop (Matched b b') (moveUser s p oid du cu newCn)
      (moveUser s' p' oid du cu newCn) := by
  unfold moveUser
  rw [hctx]
  refine ((h.take _).add s.ctx _ _).bind ?_
  intro p₁ p₁' h₁
  exact .ok (h₁.locate oid _)

/-- An account is shown under its display name alike. -/
theorem followDisplayName_alike (hctx : s'.ctx = s.ctx) (h : Matched b b' p p') (oid : Subject)
    (du : DesiredUser) (cu : CurrentUser) :
    EndAlike SameStop (Matched b b') (followDisplayName s p oid du cu)
      (followDisplayName s' p' oid du cu) := by
  unfold followDisplayName
  rw [hctx]
  simp only [h.taken]
  split
  · exact h.add s.ctx _ _
  · split
    · split
      · exact h.add s.ctx _ _
      · exact moveUser_alike hctx h oid du cu _
    · exact moveUser_alike hctx h oid du cu _

/-- An account is restored, or follows the IdP, alike. -/
theorem restoreUser_alike (hctx : s'.ctx = s.ctx) (h : Matched b b' p p') (oid : Subject)
    (du : DesiredUser) (cu : CurrentUser) :
    EndAlike SameStop (Restored b b') (restoreUser s p oid du cu)
      (restoreUser s' p' oid du cu) := by
  unfold restoreUser
  split
  · exact reappearUser_alike hctx h oid du cu
  · refine (followEnabled_alike hctx h oid du cu).map ?_
    intro q q' hq
    exact ⟨rfl, hq⟩

/-- A desired account that is there is brought up to date alike. -/
theorem existingUser_alike (hctx : s'.ctx = s.ctx) (h : Matched b b' p p') (oid : Subject)
    (du : DesiredUser) (cu : CurrentUser) :
    EndAlike SameStop (Matched b b') (existingUser s p oid du cu)
      (existingUser s' p' oid du cu) := by
  unfold existingUser
  refine (restoreUser_alike hctx (h.locate oid cu.dn) oid du cu).bind ?_
  rintro ⟨restored, p₁⟩ ⟨_, p₁'⟩ ⟨rfl, h₁⟩
  dsimp only
  rw [hctx]
  refine (h₁.onlyIf _ (followSam_alike hctx h₁ oid du cu)).bind ?_
  intro p₂ p₂' h₂
  exact h₂.onlyIf _ (followDisplayName_alike hctx h₂ oid du cu)

/-- The names retirement gives are the same on both sides, and taken on both. -/
theorem Matched.released (h : Matched b b' p p') (dn sam label : String) (oid : Subject) :
    (retiredNames dn sam label oid p'.samKeys p'.takenDns).sam =
      (retiredNames dn sam label oid p.samKeys p.takenDns).sam ∧
    (retiredNames dn sam label oid p'.samKeys p'.takenDns).cn =
      (retiredNames dn sam label oid p.samKeys p.takenDns).cn ∧
    Matched b b'
      { p with
        samKeys := (retiredNames dn sam label oid p.samKeys p.takenDns).samKeys
        takenDns := (retiredNames dn sam label oid p.samKeys p.takenDns).takenDns }
      { p' with
        samKeys := (retiredNames dn sam label oid p'.samKeys p'.takenDns).samKeys
        takenDns := (retiredNames dn sam label oid p'.samKeys p'.takenDns).takenDns } := by
  unfold retiredNames
  simp only [h.taken, h.keys, true_and]
  refine ⟨h.planned, h.conflicts, h.alerts, h.dnOf, ?_, ?_⟩
  · intro name
    simp only [List.mem_cons, h.taken]
  · intro key
    simp only [List.mem_cons, h.keys]

/-- An object that is leaving gives up its name alike. -/
theorem releaseName_alike (hctx : s'.ctx = s.ctx) (h : Matched b b' p p') (about : Meant)
    (dn sam label : String) (setUpn : String → Option String) :
    EndAlike SameStop (Matched b b') (releaseName s p about dn sam label setUpn)
      (releaseName s' p' about dn sam label setUpn) := by
  unfold releaseName
  rw [hctx]
  split
  · exact .ok h
  · obtain ⟨hsam, hcn, hnames⟩ := h.released dn sam label about.subject
    dsimp only
    rw [hsam, hcn]
    exact hnames.add s.ctx _ _

/-- An account that is gone is retired alike. -/
theorem retireUser_alike (hctx : s'.ctx = s.ctx) (h : Matched b b' p p') (oid : Subject)
    (cu : CurrentUser) :
    EndAlike SameStop (Matched b b') (retireUser s p oid cu) (retireUser s' p' oid cu) := by
  unfold retireUser
  rw [hctx]
  refine (h.onlyIf _ (h.addAll s.ctx _ _)).bind ?_
  intro p₁ p₁' h₁
  refine (h₁.onlyIf _ (h₁.add s.ctx _ _)).bind ?_
  intro p₂ p₂' h₂
  exact releaseName_alike hctx h₂ _ _ _ _ _

end Steps

/-- One group, its members in another order. -/
structure SameGroup (cg cg' : CurrentGroup) : Prop where
  dn : cg'.dn = cg.dn
  sam : cg'.sam = cg.sam
  displayName : cg'.displayName = cg.displayName
  members : cg.members.Perm cg'.members
  markers : cg'.markers = cg.markers
  identity : cg'.identity = cg.identity

section Scenes

variable [UnicodeTables]

/-- Two scenes of one directory, read in different orders. -/
structure SameScene (s s' : Scene) : Prop where
  desired : s'.desired = s.desired
  ctx : s'.ctx = s.ctx
  unmarked : s'.unmarked = s.unmarked
  dupes : ∀ oid, oid ∈ s'.dupes ↔ oid ∈ s.dupes
  dupeDns : ∀ dn, dn ∈ s'.dupeDns ↔ dn ∈ s.dupeDns
  users : ∀ oid, oid ∉ s.dupes → lookup s'.current.users oid = lookup s.current.users oid
  groups : ∀ oid, oid ∉ s.dupes →
    Option.Rel SameGroup (lookup s.current.groups oid) (lookup s'.current.groups oid)
  userOids : sortedOids s'.current.users = sortedOids s.current.users
  groupOids : sortedOids s'.current.groups = sortedOids s.current.groups

variable {s s' : Scene} {b b' p p' : Planning}

/-- A group that is not ambiguous is there in both scenes, or in neither. -/
theorem SameScene.lookup_groups (hs : SameScene s s') {oid : Subject} (h : oid ∉ s.dupes) :
    lookup s.current.groups oid = none ∧ lookup s'.current.groups oid = none ∨
      ∃ cg cg', lookup s.current.groups oid = some cg ∧ lookup s'.current.groups oid = some cg' ∧
        SameGroup cg cg' := by
  have hrel := hs.groups oid h
  cases hl : lookup s.current.groups oid with
  | none =>
    rw [hl] at hrel
    cases hl' : lookup s'.current.groups oid with
    | none => exact Or.inl ⟨rfl, rfl⟩
    | some cg' =>
      rw [hl'] at hrel
      cases hrel
  | some cg =>
    rw [hl] at hrel
    cases hl' : lookup s'.current.groups oid with
    | none =>
      rw [hl'] at hrel
      cases hrel
    | some cg' =>
      rw [hl'] at hrel
      cases hrel with
      | some hcg => exact Or.inr ⟨cg, cg', rfl, rfl, hcg⟩

/-- A turn of the users loop keeps two plans alike. -/
theorem userTurn_alike (hs : SameScene s s') (h : Matched b b' p p')
    (entry : Subject × DesiredUser) :
    EndAlike SameStop (Matched b b') (userTurn s p entry) (userTurn s' p' entry) := by
  unfold userTurn
  simp only [hs.dupes]
  split
  · exact .ok h
  · rename_i hfree
    rw [hs.users entry.1 hfree]
    cases lookup s.current.users entry.1 with
    | none => exact createUser_alike hs.ctx h entry.1 entry.2
    | some cu => exact existingUser_alike hs.ctx h entry.1 entry.2 cu

/-- A turn of the loop over the accounts that are there keeps two plans alike. -/
theorem userLeaver_alike (hs : SameScene s s') (h : Matched b b' p p') (oid : Subject) :
    EndAlike SameStop (Matched b b') (userLeaver s p oid) (userLeaver s' p' oid) := by
  unfold userLeaver
  rw [hs.desired]
  simp only [hs.dupes]
  split
  · exact .ok h
  · rename_i hleaves
    rw [not_or] at hleaves
    rw [hs.users oid hleaves.2]
    cases lookup s.current.users oid with
    | none => exact .error trivial
    | some cu => exact retireUser_alike hs.ctx h oid cu

/-- The collisions are the same, for one set of login names. -/
theorem collisions_eq (hs : SameScene s s') {keys keys' : List String}
    (h : ∀ key, key ∈ keys' ↔ key ∈ keys) : collisions s' keys' = collisions s keys := by
  have hknown : ∀ oid, (oid ∈ s'.dupes ∨ (lookup s'.current.groups oid).isSome = true) ↔
      (oid ∈ s.dupes ∨ (lookup s.current.groups oid).isSome = true) := by
    intro oid
    rw [hs.dupes]
    by_cases hdupe : oid ∈ s.dupes
    · simp [hdupe]
    · rcases hs.lookup_groups hdupe with ⟨hl, hl'⟩ | ⟨cg, cg', hl, hl', _⟩
      · rw [hl, hl']
      · simp [hl, hl']
  unfold collisions
  rw [hs.desired, hs.ctx]
  simp only [hknown, h]

/-- The check for collisions keeps two plans alike. -/
theorem refuseCollisions_alike (hs : SameScene s s') (h : Matched b b' p p') :
    EndAlike SameStop (fun _ _ => Matched b b' p p') (refuseCollisions s p.samKeys)
      (refuseCollisions s' p'.samKeys) := by
  unfold refuseCollisions
  rw [collisions_eq hs h.keys]
  split
  · exact .ok h
  · exact .error rfl

/-- A new group is created alike. -/
theorem createGroup_alike (hs : SameScene s s') (h : Matched b b' p p') (oid : Subject)
    (dg : DesiredGroup) :
    EndAlike SameStop (Matched b b') (createGroup s p oid dg) (createGroup s' p' oid dg) := by
  unfold createGroup
  rw [hs.ctx, hs.unmarked]
  cases s.ctx.identity oid with
  | error why => exact .ok (h.conflict _)
  | ok identity =>
    obtain ⟨hdn, hfresh⟩ := h.fresh (groupNames dg.displayName oid s.ctx.groupSuffix).1
      s.ctx.idpOu oid
    dsimp only
    rw [hdn]
    have hplaced := hfresh.locate oid (freshDn (groupNames dg.displayName oid
      s.ctx.groupSuffix).1 oid s.ctx.idpOu p.takenDns).1
    split
    · cases s.unmarked with
      | true => exact (hplaced.alert _ _).add s.ctx _ _
      | false => exact hplaced.add s.ctx _ _
    · exact hplaced.add s.ctx _ _

/-- A group is moved alike. -/
theorem moveGroup_alike (hs : SameScene s s') (h : Matched b b' p p') (oid : Subject)
    (dg : DesiredGroup) {cg cg' : CurrentGroup} (hcg : SameGroup cg cg') :
    EndAlike SameStop (Matched b b') (moveGroup s p oid dg cg) (moveGroup s' p' oid dg cg') := by
  unfold moveGroup
  rw [hcg.dn, hs.ctx]
  simp only [h.taken]
  split
  all_goals
    split
    · exact .ok h
    · split
      · exact .error trivial
      · refine ((h.take _).add s.ctx _ _).bind ?_
        intro p₁ p₁' h₁
        exact .ok (h₁.locate oid _)

/-- A desired group that is there is brought up to date alike. -/
theorem existingGroup_alike (hs : SameScene s s') (h : Matched b b' p p') (oid : Subject)
    (dg : DesiredGroup) {cg cg' : CurrentGroup} (hcg : SameGroup cg cg') :
    EndAlike SameStop (Matched b b') (existingGroup s p oid dg cg)
      (existingGroup s' p' oid dg cg') := by
  unfold existingGroup
  rw [hcg.dn, hcg.markers, hcg.displayName, hs.ctx, hs.unmarked]
  refine ((h.locate oid cg.dn).onlyIf _ ((h.locate oid cg.dn).add s.ctx _ _)).bind ?_
  intro p₁ p₁' h₁
  refine (h₁.onlyIf _ (moveGroup_alike hs h₁ oid dg hcg)).bind ?_
  intro p₂ p₂' h₂
  exact h₂.onlyIf _ (h₂.add s.ctx _ _)

/-- A turn of the groups loop keeps two plans alike. -/
theorem groupTurn_alike (hs : SameScene s s') (h : Matched b b' p p')
    (entry : Subject × DesiredGroup) :
    EndAlike SameStop (Matched b b') (groupTurn s p entry) (groupTurn s' p' entry) := by
  unfold groupTurn
  simp only [hs.dupes]
  split
  · exact .ok h
  · rename_i hfree
    rcases hs.lookup_groups hfree with ⟨hl, hl'⟩ | ⟨cg, cg', hl, hl', hcg⟩
    · rw [hl, hl']
      exact createGroup_alike hs h entry.1 entry.2
    · rw [hl, hl']
      exact existingGroup_alike hs h entry.1 entry.2 hcg

omit [UnicodeTables] in
/-- The texts of two lists that are permutations of each other are in one order. -/
theorem mergeSort_texts {l l' : List String} (h : l.Perm l') :
    (l.mergeSort fun a b => decide (a ≤ b)) = l'.mergeSort fun a b => decide (a ≤ b) := by
  refine mergeSort_of_perm _ ?_ ?_ ?_ h
  · intro a b c hab hbc
    exact decide_eq_true (String.le_trans (of_decide_eq_true hab) (of_decide_eq_true hbc))
  · intro a b
    rw [Bool.or_eq_true, decide_eq_true_iff, decide_eq_true_iff]
    exact String.le_total a b
  · intro a b hab hba
    exact String.le_antisymm (of_decide_eq_true hab) (of_decide_eq_true hba)

/-- The members a source does not own are listed alike. -/
theorem foreignMembers_eq (hs : SameScene s s') {cg cg' : CurrentGroup} (hcg : SameGroup cg cg') :
    foreignMembers s' cg' = foreignMembers s cg := by
  unfold foreignMembers
  rw [hs.ctx]
  exact mergeSort_texts (hcg.members.symm.filter _)

/-- A group that is gone is quarantined alike. -/
theorem quarantineGroup_alike (hs : SameScene s s') (h : Matched b b' p p') (oid : Subject)
    {cg cg' : CurrentGroup} (hcg : SameGroup cg cg') :
    EndAlike SameStop (Matched b b') (quarantineGroup s p oid cg)
      (quarantineGroup s' p' oid cg') := by
  have hempty : EndAlike SameStop (Matched b b') (emptyGroup s p oid cg)
      (emptyGroup s' p' oid cg') := by
    unfold emptyGroup
    rw [foreignMembers_eq hs hcg, hcg.dn, hs.ctx]
    exact (h.reports _).addAll s.ctx _ _
  unfold quarantineGroup
  rw [hcg.dn, hcg.sam, hcg.markers, hcg.displayName]
  refine (h.onlyIf _ hempty).bind ?_
  intro p₁ p₁' h₁
  exact releaseName_alike hs.ctx h₁ _ _ _ _ _

/-- A turn of the loop over the groups that are there keeps two plans alike. -/
theorem groupLeaver_alike (hs : SameScene s s') (h : Matched b b' p p') (oid : Subject) :
    EndAlike SameStop (Matched b b') (groupLeaver s p oid) (groupLeaver s' p' oid) := by
  unfold groupLeaver
  rw [hs.desired, hs.ctx]
  simp only [hs.dupes]
  split
  · exact .ok h
  · rename_i hleaves
    rw [not_or] at hleaves
    rcases hs.lookup_groups hleaves.2 with ⟨hl, hl'⟩ | ⟨cg, cg', hl, hl', hcg⟩
    · rw [hl, hl']
      exact .error trivial
    · rw [hl, hl']
      dsimp only
      rw [hcg.dn]
      split
      · exact .ok (h.alert _ _)
      · exact quarantineGroup_alike hs h oid hcg

end Scenes

end Kerbridge.Planner

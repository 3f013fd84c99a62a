import Kerbridge.DesiredClosure
import Kerbridge.PlannerTurns

/-!
# The groups a source is configured with

Each adapter checks the shape of the ids it is given in whatever letter case, and keeps
them as they are spelled. The closure and the plan compare them letter by letter.
-/

namespace Kerbridge.Planner

open UnicodeText StoredIdentity DirectorySource Reachability

/-- The groups a file names for a source. -/
structure GroupSettings where
  admissionGroupId : String
  deviceGrantGroupId : Option String
  extraGroupIds : List String
  deriving DecidableEq

/-- Every id that is configured. -/
def GroupSettings.configured (g : GroupSettings) : List String :=
  g.admissionGroupId :: (g.extraGroupIds ++ g.deviceGrantGroupId.toList)

/-- The shape of a group's id is checked, and its spelling kept. -/
def groupId (refusal : String → String → String) (id key : String) : Except String String :=
  if !isGuid (toAsciiLowercase id) then .error (refusal id key) else .ok id

/-- The groups of a file, the admission group and the device-grant group checked. -/
def parseGroups (refusal : String → String → String) (raw : GroupSettings) :
    Except String GroupSettings :=
  match groupId refusal raw.admissionGroupId "admission_group_id" with
  | .error why => .error why
  | .ok admission =>
    match raw.deviceGrantGroupId with
    | none => .ok ⟨admission, none, raw.extraGroupIds⟩
    | some id =>
      match groupId refusal id "device_grant_group_id" with
      | .error why => .error why
      | .ok grant => .ok ⟨admission, some grant, raw.extraGroupIds⟩

/-- A setting that is accepted is kept as it is spelled. -/
theorem parseGroups_ok {refusal : String → String → String} {raw settings : GroupSettings}
    (h : parseGroups refusal raw = .ok settings) : settings = raw := by
  have hkept : ∀ {id key kept : String}, groupId refusal id key = .ok kept → kept = id := by
    intro id key kept hid
    unfold groupId at hid
    split at hid
    · cases hid
    · cases hid
      rfl
  obtain ⟨admission, grant, extra⟩ := raw
  unfold parseGroups at h
  cases hadmission : groupId refusal admission "admission_group_id" with
  | error why =>
    rw [hadmission] at h
    cases h
  | ok kept =>
    rw [hadmission] at h
    dsimp only at h
    rw [hkept hadmission] at h
    cases grant with
    | none =>
      cases h
      rfl
    | some id =>
      dsimp only at h
      cases hgrant : groupId refusal id "device_grant_group_id" with
      | error why =>
        rw [hgrant] at h
        cases h
      | ok kept =>
        rw [hgrant] at h
        cases h
        rw [hkept hgrant]

/-- The closure roots of a source with these settings. -/
def GroupSettings.roots (g : GroupSettings) : Roots :=
  Roots.new g.admissionGroupId g.deviceGrantGroupId g.extraGroupIds

section Tables

variable [UnicodeTables]

/-- The refusal of the Entra adapter. -/
def entraRefusal (id key : String) : String :=
  "[provider_config]: " ++ key ++ " is not a group object id (GUID): " ++ UnicodeTables.debug id ++
    " -- the portal shows it on the group's Overview page, as Object Id"

/-- The refusal of the authentik adapter. -/
def authentikRefusal (id key : String) : String :=
  "[provider_config]: " ++ key ++ " is not a group pk (a uuid): " ++ UnicodeTables.debug id ++
    " -- authentik shows it on the group's page, and the blueprint reports it after it creates " ++
    "the group"

/-- The groups of a source read through the Entra adapter. -/
def entraGroups (raw : GroupSettings) : Except String GroupSettings := parseGroups entraRefusal raw

/-- The groups of a source read through the authentik adapter. -/
def authentikGroups (raw : GroupSettings) : Except String GroupSettings :=
  parseGroups authentikRefusal raw

/-- The groups of a reading are named by the provider's own ids. -/
def Canonical (read : Enumeration) : Prop := ∀ id ∈ read.groups, toAsciiLowercase id = id

/-- A reading holds the group that is meant by an id in some letter case. -/
def Holds (read : Enumeration) (id : String) : Prop := toAsciiLowercase id ∈ read.groups

/-- What a reading that holds the configured groups is narrowed to, and what is planned from
that, follows the configuration in whatever letter case it names them. -/
structure Follows (g : GroupSettings) (read : Enumeration) : Prop where
  /-- The admission group of the snapshot is one of the desired groups. -/
  admission : Holds read g.admissionGroupId →
    (g.roots.narrow read).admission ∈ (g.roots.narrow read).desired.groups
  /-- So is its device-grant group. -/
  grant : ∀ id, g.deviceGrantGroupId = some id → Holds read id →
    ∃ oid, (g.roots.narrow read).grant = some oid ∧ oid ∈ (g.roots.narrow read).desired.groups
  /-- The closure starts from every configured group. -/
  closure : ∀ id ∈ g.configured, Holds read id →
    toAsciiLowercase id ∈ g.roots.admission :: g.roots.extra ∧
      toAsciiLowercase id ∈ (g.roots.narrow read).desired.groups
  /-- No plan is frozen for want of the admission group. -/
  planned : Holds read g.admissionGroupId → ∀ (current : Current) (ctx : PlanCtx),
    ctx.admission = (g.roots.narrow read).admission →
      freeze (g.roots.narrow read).desired current ctx ≠ some admissionMissing
  /-- The device-grant group is not reported as missing, and not retired. -/
  role : ∀ id, g.deviceGrantGroupId = some id → Holds read id → ∀ s : Scene,
    s.desired = (g.roots.narrow read).desired → s.ctx.grant = (g.roots.narrow read).grant →
      (∀ p p', grantPass s p = .ok p' → p'.alerts = p.alerts) ∧
        ∀ p, groupLeaver s p (toAsciiLowercase id) = .ok p

/-- A configured id is spelled as the provider spells it, or stands beside one that is. -/
structure Spelled (g : GroupSettings) (read : Enumeration) : Prop where
  admission : Holds read g.admissionGroupId →
    toAsciiLowercase g.admissionGroupId = g.admissionGroupId
  grant : ∀ id, g.deviceGrantGroupId = some id → Holds read id → toAsciiLowercase id = id
  extra : ∀ id ∈ g.extraGroupIds, Holds read id → toAsciiLowercase id ∈ g.configured

variable {read : Enumeration} {g : GroupSettings}

/-- The desired groups of a snapshot are those reached from its roots. -/
theorem mem_desired_iff {roots : Roots} {id : String} :
    id ∈ (roots.narrow read).desired.groups ↔
      id ∈ Selected read (roots.admission :: roots.extra) := by
  have hexact := (exact_buildDesired read roots.admission roots.extra).groups id
  constructor
  · intro h
    have hget := Std.ExtTreeMap.getElem?_eq_some_getElem h
    exact ((hexact _).mp hget).1
  · intro h
    have hread := mem_groups_of_selected h
    have hget := (hexact _).mpr ⟨h, Std.ExtTreeMap.getElem?_eq_some_getElem hread⟩
    exact Std.ExtTreeMap.mem_iff_isSome_getElem?.mpr (Option.isSome_of_eq_some hget)

/-- A root that the reading holds is one of the desired groups. -/
theorem root_desired {roots : Roots} {id : String} (hroot : id ∈ roots.admission :: roots.extra)
    (hread : id ∈ read.groups) : id ∈ (roots.narrow read).desired.groups :=
  mem_desired_iff.mpr (subset_reached ⟨hread, hroot⟩)

/-- A desired group is spelled as the provider spells it. -/
theorem spelled_of_desired (hread : Canonical read) {roots : Roots} {id : String}
    (h : id ∈ (roots.narrow read).desired.groups) : toAsciiLowercase id = id :=
  hread id (mem_groups_of_selected (mem_desired_iff.mp h))

/-- The pass over the device-grant group adds no alert when that group is desired. -/
theorem grantPass_quiet {s : Scene} {oid : Subject} (hgrant : s.ctx.grant = some oid)
    (hdesired : oid ∈ s.desired.groups) {p p' : Planning} (h : grantPass s p = .ok p') :
    p'.alerts = p.alerts := by
  unfold grantPass at h
  dsimp only at h
  rw [hgrant] at h
  dsimp only at h
  rw [if_neg (not_not.mpr hdesired)] at h
  split at h
  · cases h
    rfl
  · obtain ⟨mid, hmid, hlast⟩ := Fallible.bind_ok_iff.mp h
    have hcleared := foldlM_clearRole hmid
    split at hlast
    · cases hlast
      rw [hcleared]
      rfl
    · rw [(add_ok hlast).2, hcleared]
      rfl

omit [UnicodeTables] in
/-- The alert of a desired state of nobody is not that of one without its admission group. -/
theorem nobodyDesired_ne (synchronized : ℕ) : nobodyDesired synchronized ≠ admissionMissing := by
  intro h
  have hmessage := congrArg (fun a => a.message.toList[16]?) h
  unfold nobodyDesired admissionMissing at hmessage
  simp only [String.toList_append, List.append_assoc] at hmessage
  rw [List.getElem?_append_left (by decide), List.getElem?_append_left (by decide)] at hmessage
  exact absurd hmessage (by decide)

/-- **What a source mirrors follows its configuration** in whatever letter case that names
the groups of a canonical reading, exactly when every id is spelled as the provider spells
it, an extra one at least a second time. -/
theorem follows_iff {refusal : String → String → String} {raw settings : GroupSettings}
    (h : parseGroups refusal raw = .ok settings) (hread : Canonical read) :
    Follows settings read ↔ Spelled raw read := by
  rw [parseGroups_ok h]
  have hroots : ∀ id, id ∈ raw.roots.admission :: raw.roots.extra ↔ id ∈ raw.configured :=
    fun id => Iff.rfl
  constructor
  · intro hfollows
    refine ⟨?_, ?_, ?_⟩
    · intro hholds
      exact spelled_of_desired hread (hfollows.admission hholds)
    · intro id hgrant hholds
      obtain ⟨oid, hoid, hdesired⟩ := hfollows.grant id hgrant hholds
      have hsame : raw.deviceGrantGroupId = some oid := hoid
      rw [hgrant] at hsame
      cases hsame
      exact spelled_of_desired hread hdesired
    · intro id hid hholds
      have hconfigured : id ∈ raw.configured :=
        List.mem_cons_of_mem _ (List.mem_append_left _ hid)
      exact (hroots _).mp (hfollows.closure id hconfigured hholds).1
  · intro hspelled
    have hclosure : ∀ id ∈ raw.configured, Holds read id →
        toAsciiLowercase id ∈ raw.roots.admission :: raw.roots.extra := by
      intro id hid hholds
      rw [hroots]
      rcases List.mem_cons.mp hid with rfl | hid
      · rw [hspelled.admission hholds]
        exact List.mem_cons_self
      · rcases List.mem_append.mp hid with hextra | hgrant
        · exact hspelled.extra id hextra hholds
        · have hnamed : raw.deviceGrantGroupId = some id := by simpa using hgrant
          rw [hspelled.grant id hnamed hholds]
          exact List.mem_cons_of_mem _ (List.mem_append_right _ hgrant)
    have hdesired : ∀ id ∈ raw.configured, Holds read id →
        toAsciiLowercase id ∈ (raw.roots.narrow read).desired.groups := fun id hid hholds =>
      root_desired (hclosure id hid hholds) hholds
    have hadmission : raw.admissionGroupId ∈ raw.configured := List.mem_cons_self
    have hgrantConfigured : ∀ id, raw.deviceGrantGroupId = some id → id ∈ raw.configured := by
      intro id hgrant
      unfold GroupSettings.configured
      rw [hgrant]
      exact List.mem_cons_of_mem _ (List.mem_append_right _ (List.mem_singleton_self id))
    have hadmitted : Holds read raw.admissionGroupId →
        (raw.roots.narrow read).admission ∈ (raw.roots.narrow read).desired.groups := by
      intro hholds
      have hgroup := hdesired _ hadmission hholds
      rw [hspelled.admission hholds] at hgroup
      exact hgroup
    have hgranted : ∀ id, raw.deviceGrantGroupId = some id → Holds read id →
        id ∈ (raw.roots.narrow read).desired.groups := by
      intro id hgrant hholds
      have hgroup := hdesired id (hgrantConfigured id hgrant) hholds
      rw [hspelled.grant id hgrant hholds] at hgroup
      exact hgroup
    refine ⟨hadmitted, ?_, ?_, ?_, ?_⟩
    · intro id hgrant hholds
      exact ⟨id, hgrant, hgranted id hgrant hholds⟩
    · intro id hid hholds
      exact ⟨hclosure id hid hholds, hdesired id hid hholds⟩
    · intro hholds current ctx hctx hfrozen
      unfold freeze at hfrozen
      rw [hctx, if_neg (not_not.mpr (hadmitted hholds))] at hfrozen
      split at hfrozen
      · exact nobodyDesired_ne _ (Option.some_inj.mp hfrozen)
      · cases hfrozen
    · intro id hgrant hholds s hs hctx
      have hnamed : s.ctx.grant = some id := by
        rw [hctx]
        exact hgrant
      refine ⟨?_, ?_⟩
      · intro p p' hpass
        refine grantPass_quiet hnamed ?_ hpass
        rw [hs]
        exact hgranted id hgrant hholds
      · intro p
        unfold groupLeaver
        rw [hs, if_pos (Or.inl (hdesired id (hgrantConfigured id hgrant) hholds))]

end Tables

/-- The canonical id of a group. -/
def sampleGroupId : String := "0a1b2c3d-4e5f-6a7b-8c9d-0e1f2a3b4c5d"

/-- The same id in capitals. -/
def loudGroupId : String := "0A1B2C3D-4E5F-6A7B-8C9D-0E1F2A3B4C5D"

/-- The id in capitals names the same group. -/
theorem loud_names : toAsciiLowercase loudGroupId = sampleGroupId := by decide

/-- A reading of that one group. -/
def oneGroup : @Enumeration asciiTables :=
  @Enumeration.mk asciiTables {} (({} : Std.ExtTreeMap Subject DesiredGroup).insert sampleGroupId
    ⟨"Realm users"⟩) {} {}

/-- The one group is named by its canonical id. -/
theorem oneGroup_canonical : @Canonical asciiTables oneGroup := by
  intro id hid
  simp only [oneGroup, Std.ExtTreeMap.mem_insert, Std.ExtTreeMap.not_mem_empty, or_false] at hid
  have hsame : sampleGroupId = id := Std.LawfulEqCmp.eq_of_compare hid
  rw [← hsame]
  decide

/-- The reading holds the group. -/
theorem oneGroup_mem : sampleGroupId ∈ @Enumeration.groups asciiTables oneGroup := by
  simp [oneGroup]

/-- A configuration that names the group by its canonical id is followed. -/
theorem plain_followed : @Follows asciiTables ⟨sampleGroupId, some sampleGroupId, []⟩ oneGroup := by
  let _ := asciiTables
  have haccepted : entraGroups ⟨sampleGroupId, some sampleGroupId, []⟩ =
      .ok ⟨sampleGroupId, some sampleGroupId, []⟩ := by decide
  refine (@follows_iff asciiTables oneGroup entraRefusal
    ⟨sampleGroupId, some sampleGroupId, []⟩ _ haccepted oneGroup_canonical).mpr ⟨?_, ?_, ?_⟩
  · intro _
    decide
  · intro id hid _
    cases hid
    decide
  · intro id hid
    cases hid

/-- A configuration that names the group in capitals is accepted, but mirrors nothing. -/
theorem loud_not_followed :
    @entraGroups asciiTables ⟨loudGroupId, none, []⟩ = .ok ⟨loudGroupId, none, []⟩ ∧
      @authentikGroups asciiTables ⟨loudGroupId, none, []⟩ = .ok ⟨loudGroupId, none, []⟩ ∧
      ¬@Follows asciiTables ⟨loudGroupId, none, []⟩ oneGroup := by
  let _ := asciiTables
  refine ⟨by decide, by decide, ?_⟩
  intro hfollows
  have hholds : @Holds asciiTables oneGroup loudGroupId := by
    unfold Holds
    rw [loud_names]
    exact oneGroup_mem
  have hspelled := @spelled_of_desired asciiTables oneGroup oneGroup_canonical _ _
    (hfollows.admission hholds)
  have hsame : toAsciiLowercase loudGroupId = loudGroupId := hspelled
  rw [loud_names] at hsame
  exact absurd hsame (by decide)

end Kerbridge.Planner

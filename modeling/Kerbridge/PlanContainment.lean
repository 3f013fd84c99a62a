import Kerbridge.AuthentikToken
import Kerbridge.EntraToken
import Kerbridge.PlanGrowth

/-!
# A plan stays in its unit

Planning reaches no assertion, no slice out of range and no missing key, and every
operation targets the unit. What an operation renames to lies in the unit as well, except
that a retirement may write the first characters of a stored subject into a name, and a
stored subject may hold anything.
-/

namespace Kerbridge.Planner

open Std (ExtTreeMap)
open UnicodeText DirectorySource SamName DistinguishedName RealmState StoredIdentity PlannerNames
  Fallible Runs SyncDirectory

/-- The subject of a stored identity. -/
def subjectOf (identity : String) : Option Subject :=
  (ExternalIdentity.decode identity).toOption.map ExternalIdentity.subject

/-- What the scan has seen was seen under the subject of its identity. -/
def Scan.Seen (sc : Scan) : Prop := ∀ e ∈ sc.seen, subjectOf e.1 = some e.2

/-- One more object is scanned without a key missing. -/
theorem scanObject_safe {dnAt : Subject → Option String} {sc : Scan} {oid : Subject}
    {identity dn : String} (hdn : (dnAt oid).isSome = true) (hoid : subjectOf identity = some oid)
    (h : sc.Seen) : Safe Refusal Scan.Seen (scanObject dnAt sc oid identity dn) := by
  have hseen : ∀ e ∈ (identity, oid) :: sc.seen, subjectOf e.1 = some e.2 :=
    List.forall_mem_cons.mpr ⟨hoid, h⟩
  unfold scanObject
  cases hprev : sc.seen.lookup identity with
  | none => exact hseen
  | some prev =>
    obtain ⟨front, back, hsplit, _⟩ := List.lookup_eq_some_iff.mp hprev
    have hmem : (identity, prev) ∈ sc.seen := by
      rw [hsplit]
      simp
    have hsame : prev = oid := by
      have hprevOid := h _ hmem
      rw [hoid] at hprevOid
      exact (Option.some.inj hprevOid).symm
    obtain ⟨found, hfound⟩ := Option.isSome_iff_exists.mp hdn
    subst hsame
    dsimp only
    rw [hfound]
    exact hseen

section Tables

variable [UnicodeTables]

/-- The scan misses no key. -/
theorem scan_safe {current : Current} {ctx : PlanCtx} (h : InUnit current ctx) :
    Safe Refusal (fun _ => True) (scan current) := by
  unfold scan
  refine Safe.bind (@safe_foldlM _ _ _ _ Scan.Seen _ _ _ ?_ ?_) ?_
  · intro e he
    cases he
  · intro sc e he hsc
    obtain ⟨cu, hcu⟩ := lookup_isSome he
    exact scanObject_safe (by rw [hcu]; rfl) (h.users e he).2.2.2 hsc
  · intro sc hsc
    refine Safe.mono (@safe_foldlM _ _ _ _ Scan.Seen _ _ _ hsc ?_) fun _ _ => trivial
    intro sc e he hsc
    obtain ⟨cg, hcg⟩ := lookup_isSome he
    exact scanObject_safe (by rw [hcg]; rfl) (h.groups e he).2.2 hsc

/-- The stale markers are taken off the groups that carry them. -/
theorem stalePass_safe {current : Current} {ctx : PlanCtx} (h : InUnit current ctx) :
    Safe Refusal (Grown ctx []) (stalePass current ctx) := by
  unfold stalePass
  refine clearRoles_safe h ?_ ?_
  · intro oid hoid
    exact (List.mem_filter.mp hoid).1
  · refine ⟨⟨?_, ?_⟩, [], rfl, ?_⟩
    · intro e he
      cases he
    · intro oid dn hloc
      simp at hloc
    · intro e he
      cases he

/-- The suffixes of the desired subjects split nothing. -/
structure Suffixes (desired : Desired) : Prop where
  users : ∀ oid ∈ desired.users, Unsplit (oid4 oid).toList
  groups : ∀ oid ∈ desired.groups, Unsplit (oid4 oid).toList

omit [UnicodeTables] in
/-- The key of an entry is a key of the map. -/
theorem mem_of_mem_toList {α : Type} {m : ExtTreeMap Subject α} {e : Subject × α}
    (h : e ∈ m.toList) : e.1 ∈ m := by
  have hget := ExtTreeMap.mem_toList_iff_getElem?_eq_some.mp h
  rw [ExtTreeMap.mem_iff_isSome_getElem?, hget]
  rfl

/-- Whether a turn is one of an object that is leaving. -/
def Turn.leaves : Turn → Bool
  | .userLeaver _ => true
  | .groupLeaver _ => true
  | _ => false

/-- Every turn but one of an object that is leaving grows the plan. -/
theorem turn_grown {s : Scene} (tables : LetterTables) (hunit : InUnit s.current s.ctx)
    (hsuffixes : Suffixes s.desired) {t : Turn} (ht : t ∈ turns s) (hstays : t.leaves = false)
    {p : Planning} (h : Inside s.ctx p) :
    Safe Refusal (Grown s.ctx p.planned) (turn s p t) := by
  have hgrown : Grown s.ctx p.planned p := ⟨h, [], by simp, by simp⟩
  simp only [turns, List.mem_append, List.mem_map, List.mem_singleton] at ht
  cases t with
  | user entry =>
    have hmem : entry.1 ∈ s.desired.users := by
      simp only [Turn.user.injEq, exists_eq_right, reduceCtorEq, and_false, exists_false, or_false]
        at ht
      exact mem_of_mem_toList ht
    have hoid := hsuffixes.users _ hmem
    change Safe _ _ (userTurn s p entry)
    unfold userTurn
    split
    · exact hgrown
    · cases hcu : lookup s.current.users entry.1 with
      | none => exact createUser_safe tables hoid hunit.unit hgrown
      | some cu =>
        obtain ⟨hdn, hparent, hsam, _⟩ := hunit.users _ (mem_of_lookup hcu)
        exact existingUser_safe hdn hparent tables hoid hsam hgrown
  | userLeaver oid => cases hstays
  | collisions =>
    change Safe _ _ ((refuseCollisions s p.samKeys).map fun _ => p)
    unfold refuseCollisions
    split
    · exact hgrown
    · exact ⟨_, rfl⟩
  | group entry =>
    have hmem : entry.1 ∈ s.desired.groups := by
      simp only [Turn.group.injEq, exists_eq_right, reduceCtorEq, and_false, exists_false, or_false,
        false_or] at ht
      exact mem_of_mem_toList ht
    have hoid := hsuffixes.groups _ hmem
    change Safe _ _ (groupTurn s p entry)
    unfold groupTurn
    split
    · exact hgrown
    · cases hcg : lookup s.current.groups entry.1 with
      | none => exact createGroup_safe hoid hunit.unit hgrown
      | some cg =>
        obtain ⟨hdn, hparent, _⟩ := hunit.groups _ (mem_of_lookup hcg)
        exact existingGroup_safe hdn hparent hoid hgrown
  | groupLeaver oid => cases hstays
  | grant => exact grantPass_safe hunit hgrown
  | member entry => exact memberTurn_safe hgrown

/-- A turn of an object that is leaving is accepted. -/
theorem leaver_safe {s : Scene} (hunit : InUnit s.current s.ctx) {t : Turn} (ht : t ∈ turns s)
    (hleaves : t.leaves = true) {p : Planning} (h : Inside s.ctx p) :
    Safe Refusal (Inside s.ctx) (turn s p t) := by
  have hgrown : Grown s.ctx p.planned p := ⟨h, [], by simp, by simp⟩
  simp only [turns, List.mem_append, List.mem_map, List.mem_singleton] at ht
  cases t with
  | userLeaver oid =>
    have hmem : oid ∈ sortedOids s.current.users := by
      simpa using ht
    unfold sortedOids at hmem
    rw [List.mem_mergeSort] at hmem
    obtain ⟨e, he, rfl⟩ := List.mem_map.mp hmem
    obtain ⟨cu, hcu⟩ := lookup_isSome he
    change Safe _ _ (userLeaver s p e.1)
    unfold userLeaver
    split
    · exact h
    · rw [hcu]
      exact retireUser_safe (hunit.users _ (mem_of_lookup hcu)).1 hgrown
  | groupLeaver oid =>
    have hmem : oid ∈ sortedOids s.current.groups := by
      simpa using ht
    unfold sortedOids at hmem
    rw [List.mem_mergeSort] at hmem
    obtain ⟨e, he, rfl⟩ := List.mem_map.mp hmem
    obtain ⟨cg, hcg⟩ := lookup_isSome he
    change Safe _ _ (groupLeaver s p e.1)
    unfold groupLeaver
    split
    · exact h
    · rw [hcg]
      dsimp only
      split
      · exact ⟨h.within, h.located⟩
      · exact quarantineGroup_safe (hunit.groups _ (mem_of_lookup hcg)).1 hgrown
  | user entry => cases hleaves
  | collisions => cases hleaves
  | group entry => cases hleaves
  | grant => cases hleaves
  | member entry => cases hleaves

/-- Every turn is accepted or refuses the cycle. -/
theorem turn_safe {s : Scene} (tables : LetterTables) (hunit : InUnit s.current s.ctx)
    (hsuffixes : Suffixes s.desired) {t : Turn} (ht : t ∈ turns s) {p : Planning}
    (h : Inside s.ctx p) : Safe Refusal (Inside s.ctx) (turn s p t) := by
  cases hleaves : t.leaves with
  | true => exact leaver_safe hunit ht hleaves h
  | false => exact (turn_grown tables hunit hsuffixes ht hleaves h).mono fun _ h => h.toInside

/-- What the loops start from is inside the unit. -/
theorem opening_inside {current : Current} {ctx : PlanCtx} {sc : Scan} {p : Planning}
    (h : Grown ctx [] p) : Inside ctx (opening current sc p) := ⟨h.within, h.located⟩

/-- Planning is refused at most, and leads to a plan inside the unit otherwise. -/
theorem planning_safe {desired : Desired} {current : Current} {ctx : PlanCtx}
    (tables : LetterTables) (hunit : InUnit current ctx) (hsuffixes : Suffixes desired) :
    Safe Refusal (Inside ctx) (planning desired current ctx) := by
  unfold planning
  cases freeze desired current ctx with
  | some alert =>
    refine ⟨?_, ?_⟩
    · intro e he
      cases he
    · intro oid dn hloc
      simp at hloc
  | none =>
    refine Safe.bind (stalePass_safe hunit) fun p₀ h₀ => ?_
    refine Safe.bind (scan_safe hunit) fun sc _ => ?_
    rw [passes_eq]
    refine safe_foldlM (opening_inside h₀) ?_
    intro p t ht hp
    exact @turn_safe _ (sceneOf desired current ctx sc) tables hunit hsuffixes t ht p hp

/-- Where an object gives up its name in a way that writes the suffix of its subject, the
suffix reads as part of a name. -/
def SuffixSound (p : Planning) (dn sam label : String) (oid : Subject) : Prop :=
  startsWith sam retiredPrefix = false → SuffixWritten p dn sam label oid → SuffixReads oid

/-- The condition on one turn: an account or group that leaves, under a subject only a
stored identity gives, is renamed to a name that reads. -/
def LeaverReads (s : Scene) (p : Planning) : Turn → Prop
  | .userLeaver oid => ¬(oid ∈ s.desired.users ∨ oid ∈ s.dupes) →
      ∀ cu, lookup s.current.users oid = some cu →
        SuffixSound p cu.dn cu.sam (cu.displayName.getD cu.sam) oid
  | .groupLeaver oid => ¬(oid ∈ s.desired.groups ∨ oid ∈ s.dupes) → oid ≠ s.ctx.admission →
      ∀ cg, lookup s.current.groups oid = some cg → SuffixSound p cg.dn cg.sam cg.displayName oid
  | _ => True

/-- Every operation leaves its object in the unit. -/
def AllPlaced (ctx : PlanCtx) (p : Planning) : Prop := ∀ e ∈ p.planned, Placed ctx e.op

/-- A rename to a released name stays in the unit exactly when the name reads. -/
theorem placed_released {ctx : PlanCtx} (tables : LetterTables) {p : Planning}
    {dn sam label : String} {oid : Subject} {shown sam' upn : Option String}
    (hparent : dnIsAtOrWithin (parentOf dn) ctx.idpOu = true) :
    Placed ctx (.rename dn (releasedNames p dn sam label oid).cn shown sam' upn) ↔
      (SuffixWritten p dn sam label oid → SuffixReads oid) := by
  have hend : ∃ front, (releasedNames p dn sam label oid).cn.toList = front ++ [')'] := by
    rw [releasedNames_cn]
    split
    · exact ⟨_, String.toList_append⟩
    · refine ⟨(retiredLabel sam label oid p.samKeys).toList ++ " (retired".toList, ?_⟩
      rw [String.toList_append, List.append_assoc]
      rfl
  obtain ⟨front, hfront⟩ := hend
  rw [← releasedNames_reads tables, ← dnIn_within hfront (by decide) hparent]
  constructor
  · intro h
    exact h dn _ rfl
  · intro h src target hmove
    cases hmove
    exact h

/-- Operations that rename nothing leave everything placed as it was. -/
theorem allPlaced_append {ctx : PlanCtx} {p : Planning} {es : List Planned}
    (h : ∀ e ∈ es, e.op.move = none) : AllPlaced ctx (p.append es) ↔ AllPlaced ctx p := by
  unfold AllPlaced
  rw [append_planned, List.forall_mem_append]
  exact and_iff_left fun e he => placed_of_still (h e he)

/-- Giving up a name leaves everything placed exactly when the suffix, if written, reads. -/
theorem releaseName_placed {s : Scene} (tables : LetterTables) {p p' : Planning} {about : Meant}
    {dn sam label : String} {setUpn : String → Option String}
    (hparent : dnIsAtOrWithin (parentOf dn) s.ctx.idpOu = true)
    (h : releaseName s p about dn sam label setUpn = .ok p') :
    AllPlaced s.ctx p' ↔ AllPlaced s.ctx p ∧ SuffixSound p dn sam label about.subject := by
  unfold SuffixSound
  rcases releaseName_ok rfl h with ⟨hheld, hsame⟩ | ⟨hheld, hmoved⟩
  · rw [hsame, hheld]
    simp
  · rw [hmoved, hheld, ← @placed_released _ s.ctx tables p dn sam label about.subject none
      (some (releasedNames p dn sam label about.subject).sam)
      (setUpn (releasedNames p dn sam label about.subject).sam) hparent]
    unfold AllPlaced plannedFor
    rw [List.forall_mem_append]
    simp

/-- What is done to an account that leaves before it is renamed renames nothing. -/
theorem leaveOps_still (s : Scene) (oid : Subject) (cu : CurrentUser) :
    ∀ e ∈ plannedFor ⟨.user, oid⟩ (leaveOps s cu), e.op.move = none := by
  intro e he
  obtain ⟨op, hop, rfl⟩ := List.mem_map.mp he
  unfold leaveOps at hop
  rcases List.mem_append.mp hop with hop | hop
  · split at hop
    · cases hop
    · simp only [List.mem_cons, List.not_mem_nil, or_false] at hop
      rcases hop with rfl | rfl
      · rfl
      · rfl
  · split at hop
    · rw [List.mem_singleton.mp hop]
      rfl
    · cases hop

/-- What is done to a group that leaves before it is renamed renames nothing. -/
theorem emptyOps_still (s : Scene) (oid : Subject) (cg : CurrentGroup) :
    ∀ e ∈ plannedFor ⟨.group, oid⟩ (emptyOps s cg), e.op.move = none := by
  intro e he
  obtain ⟨op, hop, rfl⟩ := List.mem_map.mp he
  unfold emptyOps at hop
  split at hop
  · cases hop
  · simp only [List.mem_cons, List.not_mem_nil, or_false] at hop
    rcases hop with rfl | rfl
    · rfl
    · rfl

/-- A turn of an object that is leaving leaves everything placed exactly under its
condition. -/
theorem leaver_placed {s : Scene} (tables : LetterTables) (hunit : InUnit s.current s.ctx)
    {t : Turn} (hleaves : t.leaves = true) {p p' : Planning} (h : turn s p t = .ok p') :
    AllPlaced s.ctx p' ↔ AllPlaced s.ctx p ∧ LeaverReads s p t := by
  cases t with
  | userLeaver oid =>
    change userLeaver s p oid = .ok p' at h
    unfold userLeaver at h
    unfold LeaverReads
    split at h
    · rename_i hskip
      cases h
      exact (and_iff_left fun hstay => absurd hskip hstay).symm
    · rename_i hskip
      cases hcu : lookup s.current.users oid with
      | none =>
        rw [hcu] at h
        cases h
      | some cu =>
        rw [hcu] at h
        have hparent := (hunit.users _ (mem_of_lookup hcu)).2.1
        rw [releaseName_placed tables hparent (retireUser_ok h),
          allPlaced_append (leaveOps_still s oid cu)]
        refine and_congr_right fun _ => ⟨?_, fun hsound => hsound hskip cu hcu⟩
        intro hsound _ cu' hcu'
        rw [hcu] at hcu'
        cases hcu'
        exact hsound
  | groupLeaver oid =>
    change groupLeaver s p oid = .ok p' at h
    unfold groupLeaver at h
    unfold LeaverReads
    split at h
    · rename_i hskip
      cases h
      exact (and_iff_left fun hstay => absurd hskip hstay).symm
    · rename_i hskip
      cases hcg : lookup s.current.groups oid with
      | none =>
        rw [hcg] at h
        cases h
      | some cg =>
        rw [hcg] at h
        dsimp only at h
        split at h
        · rename_i hadmission
          cases h
          exact (and_iff_left fun _ hother => absurd hadmission hother).symm
        · rename_i hadmission
          have hparent := (hunit.groups _ (mem_of_lookup hcg)).2.1
          obtain ⟨p₁, hwork, hrelease⟩ := quarantineGroup_ok h
          have hsame : AllPlaced s.ctx p₁ ↔ AllPlaced s.ctx p := by
            have hstill := @allPlaced_append _ s.ctx p _ (emptyOps_still s oid cg)
            unfold AllPlaced at hstill ⊢
            rw [hwork.1]
            exact hstill
          have hsound : SuffixSound p₁ cg.dn cg.sam cg.displayName oid ↔
              SuffixSound p cg.dn cg.sam cg.displayName oid := by
            unfold SuffixSound SuffixWritten PlainTaken
            rw [hwork.2.2.1, hwork.2.2.2, append_takenDns, append_samKeys]
          rw [releaseName_placed tables hparent hrelease, hsame, hsound]
          refine and_congr_right fun _ => ⟨?_, fun hs => hs hskip hadmission cg hcg⟩
          intro hs _ _ cg' hcg'
          rw [hcg] at hcg'
          cases hcg'
          exact hs
  | user entry => cases hleaves
  | collisions => cases hleaves
  | group entry => cases hleaves
  | grant => cases hleaves
  | member entry => cases hleaves

/-- One turn keeps the plan inside the unit, and leaves everything placed exactly under its
condition. -/
theorem turn_placed {s : Scene} (tables : LetterTables) (hunit : InUnit s.current s.ctx)
    (hsuffixes : Suffixes s.desired) {t : Turn} (ht : t ∈ turns s) {p p' : Planning}
    (h : Inside s.ctx p) (hturn : turn s p t = .ok p') :
    Inside s.ctx p' ∧ (AllPlaced s.ctx p' ↔ AllPlaced s.ctx p ∧ LeaverReads s p t) := by
  cases hleaves : t.leaves with
  | true =>
    have hsafe := leaver_safe hunit ht hleaves h
    rw [hturn] at hsafe
    exact ⟨hsafe, leaver_placed tables hunit hleaves hturn⟩
  | false =>
    have hsafe := turn_grown tables hunit hsuffixes ht hleaves h
    rw [hturn] at hsafe
    obtain ⟨hinside, es, hes, hall⟩ := hsafe
    refine ⟨hinside, ?_⟩
    have hfree : LeaverReads s p t := by
      cases t with
      | userLeaver oid => cases hleaves
      | groupLeaver oid => cases hleaves
      | user entry => trivial
      | collisions => trivial
      | group entry => trivial
      | grant => trivial
      | member entry => trivial
    rw [and_iff_left hfree]
    unfold AllPlaced
    rw [hes, List.forall_mem_append]
    exact and_iff_left hall

omit [UnicodeTables] in
/-- A subject an adapter accepts is a canonical GUID. -/
theorem isGuid_of_sourceIdentity {provider : Provider} {source : Source} {oid : Subject}
    {stored : String} (h : sourceIdentity provider source oid = .ok stored) :
    isGuid oid = true := by
  obtain ⟨id, hid, _⟩ := map_ok_iff.mp h
  cases provider with
  | entra => exact (EntraToken.identity_ok hid).1
  | authentik => exact (AuthentikToken.identity_ok hid).1

/-- Every subject of a desired state is one its adapter accepts. -/
def Accepted (provider : Provider) (source : Source) (desired : Desired) : Prop :=
  ∀ oid, oid ∈ desired.users ∨ oid ∈ desired.groups →
    ∃ stored, sourceIdentity provider source oid = .ok stored

/-- The suffix of an accepted subject splits nothing. -/
theorem Accepted.suffixes {provider : Provider} {source : Source} {desired : Desired}
    (h : Accepted provider source desired) : Suffixes desired := by
  have hunsplit : ∀ oid, oid ∈ desired.users ∨ oid ∈ desired.groups →
      Unsplit (oid4 oid).toList := by
    intro oid hoid
    obtain ⟨stored, hstored⟩ := h oid hoid
    exact oid4_unsplit (isGuid_of_sourceIdentity hstored)
  exact ⟨fun oid hoid => hunsplit oid (Or.inl hoid), fun oid hoid => hunsplit oid (Or.inr hoid)⟩

/-- What a search below a unit returns: entries beneath the unit's name, each with a login
name the directory accepts, in which no character that is reserved in names stands. -/
structure Searched (entries : List Entry) (idpOu : String) : Prop where
  unit : Reads idpOu
  within : ∀ e ∈ entries, dnIsAtOrWithin e.dn idpOu = true
  below : ∀ e ∈ entries, dnEquals e.dn idpOu = false
  named : ∀ e ∈ entries, Component ((first e "sAMAccountName").getD "")

omit [UnicodeTables] in
/-- The identity of an object of this source was decoded from its stored value. -/
theorem decode_of_ownIdentity {source : Source} {e : Entry} {text : String}
    {id : ExternalIdentity} (h : ownIdentity source e = some (text, id)) :
    subjectOf text = some id.subject := by
  unfold ownIdentity at h
  obtain ⟨value, _, h⟩ := Option.bind_eq_some_iff.mp h
  obtain ⟨decoded, hdecoded, h⟩ := Option.bind_eq_some_iff.mp h
  split at h
  · cases h
    unfold subjectOf
    rw [hdecoded]
    rfl
  · cases h

/-- A name that reads lies within itself. -/
theorem within_self {ou : String} (h : Reads ou) : dnIsAtOrWithin ou ou = true := by
  obtain ⟨c, hc⟩ := Option.isSome_iff_exists.mp h
  exact dnIsAtOrWithin_iff.mpr ⟨c, c, hc, hc, List.suffix_rfl⟩

/-- Reading one entry below the unit keeps what was read below it. -/
theorem readEntry_inUnit {source : Source} {membersOf : Entry → Except String (List String)}
    {ctx : PlanCtx} {c c' : Current} {e : Entry} (h : InUnit c ctx)
    (hwithin : dnIsAtOrWithin e.dn ctx.idpOu = true) (hbelow : dnEquals e.dn ctx.idpOu = false)
    (hnamed : Component ((first e "sAMAccountName").getD ""))
    (hread : readEntry source membersOf c e = .ok c') : InUnit c' ctx := by
  have hparent := within_parentOf hwithin hbelow
  unfold readEntry at hread
  cases hown : ownIdentity source e with
  | none =>
    rw [hown] at hread
    cases hread
    exact ⟨h.unit, h.users, h.groups⟩
  | some own =>
    obtain ⟨text, id⟩ := own
    rw [hown] at hread
    have hsubject := decode_of_ownIdentity hown
    dsimp only at hread
    split at hread
    · obtain ⟨members, _, hread⟩ := bind_ok_iff.mp hread
      cases hread
      refine ⟨h.unit, h.users, ?_⟩
      intro g hg
      rcases List.mem_append.mp hg with hg | hg
      · exact h.groups g hg
      · rw [List.mem_singleton.mp hg]
        exact ⟨hwithin, hparent, hsubject⟩
    · cases hread
      refine ⟨h.unit, ?_, h.groups⟩
      intro u hu
      rcases List.mem_append.mp hu with hu | hu
      · exact h.users u hu
      · rw [List.mem_singleton.mp hu]
        exact ⟨hwithin, hparent, hnamed, hsubject⟩

/-- What one read of the unit gives lies below it. -/
theorem readCurrent_inUnit {source : Source} {membersOf : Entry → Except String (List String)}
    {ctx : PlanCtx} {entries domain : List Entry} {current : Current}
    (hsearch : Searched entries ctx.idpOu)
    (hread : readCurrent source membersOf entries domain = .ok current) : InUnit current ctx := by
  obtain ⟨c, hc, hcurrent⟩ := bind_ok_iff.mp hread
  have hempty : InUnit {} ctx := by
    refine ⟨within_self hsearch.unit, ?_, ?_⟩
    · intro e he
      cases he
    · intro e he
      cases he
  have hunit : InUnit c ctx := by
    refine @foldlM_keeps _ _ _ (readEntry source membersOf) (fun c => InUnit c ctx) entries _ _ ?_
      hempty hc
    intro c e c' he h hstep
    exact readEntry_inUnit h (hsearch.within e he) (hsearch.below e he) (hsearch.named e he) hstep
  cases hcurrent
  exact ⟨hunit.unit, hunit.users, hunit.groups⟩

/-- The suffix reads wherever a retirement writes it, through all of a plan. -/
def SuffixesRead (desired : Desired) (current : Current) (ctx : PlanCtx) : Prop :=
  ∀ p₀ sc, freeze desired current ctx = none → stalePass current ctx = .ok p₀ →
    scan current = .ok sc → Along (turn (sceneOf desired current ctx sc))
      (LeaverReads (sceneOf desired current ctx sc)) (opening current sc p₀)
      (turns (sceneOf desired current ctx sc))

/-- A plan leaves everything placed exactly when the suffix reads wherever it is written. -/
theorem planning_placed {desired : Desired} {current : Current} {ctx : PlanCtx} {p : Planning}
    (tables : LetterTables) (hunit : InUnit current ctx) (hsuffixes : Suffixes desired)
    (h : planning desired current ctx = .ok p) :
    AllPlaced ctx p ↔ SuffixesRead desired current ctx := by
  unfold SuffixesRead
  rcases planning_ok h with ⟨alert, hfreeze, hp⟩ | ⟨p₀, sc, hfreeze, hstale, hscan, hturns⟩
  · have hplaced : AllPlaced ctx p := by
      intro e he
      rw [hp] at he
      cases he
    refine iff_of_true hplaced ?_
    intro p₀ sc hnone
    rw [hfreeze] at hnone
    cases hnone
  · have hgrown := stalePass_safe hunit
    rw [hstale] at hgrown
    have hopening : AllPlaced ctx (opening current sc p₀) := by
      obtain ⟨es, hes, hall⟩ := hgrown.placed
      intro e he
      refine hall e ?_
      rw [← List.nil_append es, ← hes]
      exact he
    have hrun := @along_iff _ _ _ (turn (sceneOf desired current ctx sc)) (Inside ctx)
      (AllPlaced ctx) (LeaverReads (sceneOf desired current ctx sc))
      (turns (sceneOf desired current ctx sc)) _ _ (fun p t p' ht hp hturn =>
        @turn_placed _ (sceneOf desired current ctx sc) tables hunit hsuffixes t ht p p' hp hturn)
      (opening_inside hgrown) hturns
    rw [hrun, and_iff_right hopening]
    constructor
    · intro halong p₀' sc' _ hstale' hscan'
      rw [hstale] at hstale'
      rw [hscan] at hscan'
      cases hstale'
      cases hscan'
      exact halong
    · intro hall
      exact hall p₀ sc hfreeze hstale hscan

/-- An operation addresses, creates and renames to names of the unit alone. -/
def Contained (ctx : PlanCtx) (op : Op) : Prop :=
  dnIsAtOrWithin op.dn ctx.idpOu = true ∧ Placed ctx op

end Tables

/-- The tables of the sample hold nothing that splits a name among letters and digits. -/
theorem letterTables_ascii : @LetterTables asciiTables := by
  refine @LetterTables.mk asciiTables ?_ ?_
  · intro c hc
    constructor
    · intro heq
      rw [heq] at hc
      revert hc
      decide
    · intro heq
      rw [heq] at hc
      revert hc
      decide
  · intro c hc
    have hrange : (48 ≤ c.toNat ∧ c.toNat ≤ 57) ∨ (65 ≤ c.toNat ∧ c.toNat ≤ 90) ∨
        (97 ≤ c.toNat ∧ c.toNat ≤ 122) := by
      change (decide (65 ≤ c.val ∧ c.val ≤ 90) || decide (97 ≤ c.val) && decide (c.val ≤ 122) ||
        decide (48 ≤ c.val) && decide (c.val ≤ 57)) = true at hc
      simp only [Bool.or_eq_true, Bool.and_eq_true, decide_eq_true_eq, UInt32.le_iff_toNat_le] at hc
      change ((65 ≤ c.toNat ∧ c.toNat ≤ 90) ∨ (97 ≤ c.toNat ∧ c.toNat ≤ 122)) ∨
        (48 ≤ c.toNat ∧ c.toNat ≤ 57) at hc
      omega
    unfold isWhitespace
    simp only [List.contains_cons, List.contains_nil, Bool.or_false, Bool.or_eq_false_iff,
      Bool.and_eq_false_iff, decide_eq_false_iff_not, beq_eq_false_iff_ne]
    omega

/-- The name of the sample's source is one. -/
theorem sampleOwner_named : "idp" ≠ "" := by decide

/-- The source of the sample. -/
def sampleOwner : Source := ⟨"idp", sampleOwner_named⟩

def sampleAdmission : Subject := "11111111-1111-1111-1111-111111111111"

def sampleStayer : Subject := "22222222-2222-2222-2222-222222222222"

/-- An object of the sample, shown under its login name. -/
def sampleObject (dn cls sam identity : String) (markers : List String) : Entry :=
  ⟨dn, fun attr => if attr = "sAMAccountName" then [sam]
    else if attr = "msDS-ExternalDirectoryObjectId" then [identity]
    else if attr = "displayName" then [sam]
    else if attr = "objectClass" then [cls]
    else if attr = "extensionName" then markers else [], fun _ => []⟩

/-- The unit holds the admission group, an account that stays, an account that leaves under
a subject with a comma in it, and an object with the name that account would be given. -/
def sampleEntries : List Entry :=
  [sampleObject "CN=adm,OU=idp,DC=x" "group" "adm" "kb1|idp|11111111-1111-1111-1111-111111111111"
      [roleAdmission],
    sampleObject "CN=ann,OU=idp,DC=x" "user" "ann" "kb1|idp|22222222-2222-2222-2222-222222222222"
      [],
    sampleObject "CN=bob,OU=idp,DC=x" "user" "bob" "kb1|idp|a,bc" [],
    sampleObject "CN=bob (retired),OU=idp,DC=x" "user" "old" "" []]

/-- What one read of the unit makes of it. -/
def sampleCurrent : Current where
  users := [(sampleStayer, ⟨"CN=ann,OU=idp,DC=x", "ann", some "ann", true, [],
      "kb1|idp|22222222-2222-2222-2222-222222222222"⟩),
    ("a,bc", ⟨"CN=bob,OU=idp,DC=x", "bob", some "bob", true, [], "kb1|idp|a,bc"⟩)]
  groups := [(sampleAdmission, ⟨"CN=adm,OU=idp,DC=x", "adm", "adm", [], [roleAdmission],
      "kb1|idp|11111111-1111-1111-1111-111111111111"⟩)]
  unmanagedDns := ["CN=bob (retired),OU=idp,DC=x"]

/-- The admission group and the account that stays. -/
def sampleDesired : @Desired asciiTables :=
  let _ := asciiTables
  ⟨({} : ExtTreeMap Subject DesiredUser).insert sampleStayer ⟨"ann", [], true⟩,
    ({} : ExtTreeMap Subject DesiredGroup).insert sampleAdmission ⟨"adm"⟩, {}⟩

def sampleCtx : PlanCtx where
  idpOu := "OU=idp,DC=x"
  admission := sampleAdmission
  upnSuffix := "x"
  groupSuffix := ""
  suffixAccepted := emptySuffix_accepted
  now := "now"
  automaticSamRenames := false
  identity := sourceIdentity .entra sampleOwner

/-- The scan of the sample. -/
def sampleScan : Scan where
  seen := [("kb1|idp|11111111-1111-1111-1111-111111111111", sampleAdmission),
    ("kb1|idp|a,bc", "a,bc"), ("kb1|idp|22222222-2222-2222-2222-222222222222", sampleStayer)]

def sampleScene : @Scene asciiTables :=
  @sceneOf asciiTables sampleDesired sampleCurrent sampleCtx sampleScan

/-- The objects of the sample are read as what they are. -/
theorem sampleEntries_read :
    @readCurrent asciiTables sampleOwner (fun _ => .ok []) sampleEntries [] =
      .ok sampleCurrent := by
  have hgroup : ownIdentity sampleOwner (sampleObject "CN=adm,OU=idp,DC=x" "group" "adm"
      "kb1|idp|11111111-1111-1111-1111-111111111111" [roleAdmission]) =
      some ("kb1|idp|11111111-1111-1111-1111-111111111111",
        ⟨sampleOwner, sampleAdmission, by decide, by decide +kernel⟩) := by decide +kernel
  have hstayer : ownIdentity sampleOwner (sampleObject "CN=ann,OU=idp,DC=x" "user" "ann"
      "kb1|idp|22222222-2222-2222-2222-222222222222" []) =
      some ("kb1|idp|22222222-2222-2222-2222-222222222222",
        ⟨sampleOwner, sampleStayer, by decide, by decide +kernel⟩) := by decide +kernel
  have hleaver : ownIdentity sampleOwner (sampleObject "CN=bob,OU=idp,DC=x" "user" "bob"
      "kb1|idp|a,bc" []) =
      some ("kb1|idp|a,bc", ⟨sampleOwner, "a,bc", by decide, by decide⟩) := by
    decide +kernel
  have hother : ownIdentity sampleOwner (sampleObject "CN=bob (retired),OU=idp,DC=x" "user" "old"
      "" []) = none := by decide
  unfold readCurrent sampleEntries
  simp only [List.foldlM_cons, List.foldlM_nil, readEntry, hgroup, hstayer, hleaver, hother]
  rfl

/-- The search of the sample gives objects below the unit. -/
theorem sampleEntries_searched : @Searched asciiTables sampleEntries "OU=idp,DC=x" := by
  refine @Searched.mk asciiTables _ _ ?_ ?_ ?_ ?_
  · unfold Reads
    decide +kernel
  · decide +kernel
  · decide +kernel
  · have hnamed : ∀ e ∈ sampleEntries,
        (((first e "sAMAccountName").getD "").toList.all fun c => c != '\\' && c != ',') = true ∧
          (((first e "sAMAccountName").getD "").toList.any fun c => !isWhitespace c) = true := by
      decide +kernel
    intro e he
    obtain ⟨hall, hany⟩ := hnamed e he
    obtain ⟨c, hc, hink⟩ := List.any_eq_true.mp hany
    exact ⟨unsplit_of_check hall, c, hc, by simpa using hink⟩

/-- The adapter of the sample accepts the desired subjects. -/
theorem sampleDesired_accepted : @Accepted asciiTables .entra sampleOwner sampleDesired := by
  intro oid hoid
  have hone : sampleStayer = oid ∨ sampleAdmission = oid := by
    simpa [sampleDesired] using hoid
  rcases hone with rfl | rfl
  · exact ⟨_, rfl⟩
  · exact ⟨_, rfl⟩

/-- The turns of the sample. -/
def sampleTurns : List (@Turn asciiTables) :=
  let _ := asciiTables
  [.user (sampleStayer, ⟨"ann", [], true⟩), .userLeaver sampleStayer, .userLeaver "a,bc",
    .collisions, .group (sampleAdmission, ⟨"adm"⟩), .groupLeaver sampleAdmission, .grant]

theorem sampleTurns_eq : @turns asciiTables sampleScene = sampleTurns := by
  let _ := asciiTables
  have husers : sampleScene.desired.users.toList = [(sampleStayer, ⟨"ann", [], true⟩)] := rfl
  have hgroups : sampleScene.desired.groups.toList = [(sampleAdmission, ⟨"adm"⟩)] := rfl
  have hmembers : sampleScene.desired.membership.toList = [] := rfl
  have hleavers : sortedOids sampleScene.current.users = [sampleStayer, "a,bc"] := by
    change [sampleStayer, "a,bc"].mergeSort _ = _
    refine List.mergeSort_of_pairwise ?_
    simp only [List.pairwise_cons, List.mem_singleton, List.not_mem_nil, List.Pairwise.nil]
    refine ⟨?_, by simp⟩
    intro oid hoid
    rw [hoid]
    decide
  have hgone : sortedOids sampleScene.current.groups = [sampleAdmission] :=
    List.mergeSort_singleton sampleAdmission
  unfold turns
  rw [husers, hgroups, hmembers, hleavers, hgone]
  rfl

/-- The account that stays is up to date. -/
theorem sampleStayer_turn (p : Planning) :
    @turn asciiTables sampleScene p (@Turn.user asciiTables (sampleStayer,
      @DesiredUser.mk asciiTables "ann" [] true)) =
      .ok (p.locate sampleStayer "CN=ann,OU=idp,DC=x") := by
  let _ := asciiTables
  have hcu : lookup sampleCurrent.users sampleStayer = some ⟨"CN=ann,OU=idp,DC=x", "ann",
      some "ann", true, [], "kb1|idp|22222222-2222-2222-2222-222222222222"⟩ := by decide
  have hcurrent : sampleScene.current = sampleCurrent := rfl
  have hdupes : sampleScene.dupes = [] := rfl
  have hfixed : sampleScene.ctx.automaticSamRenames = false := rfl
  change userTurn sampleScene p _ = _
  simp [userTurn, hcurrent, hdupes, hcu, existingUser, restoreUser, hasMarker, followEnabled,
    Planning.onlyIf, hfixed, Except.map]
  rfl

/-- The group that stays is up to date. -/
theorem sampleAdmission_turn (p : Planning) :
    @turn asciiTables sampleScene p (@Turn.group asciiTables (sampleAdmission, ⟨"adm"⟩)) =
      .ok (p.locate sampleAdmission "CN=adm,OU=idp,DC=x") := by
  let _ := asciiTables
  have hcg : lookup sampleCurrent.groups sampleAdmission = some ⟨"CN=adm,OU=idp,DC=x", "adm", "adm",
      [], [roleAdmission], "kb1|idp|11111111-1111-1111-1111-111111111111"⟩ := by decide
  have hcurrent : sampleScene.current = sampleCurrent := rfl
  have hdupes : sampleScene.dupes = [] := rfl
  have hmarked : sampleScene.unmarked = false := by decide
  have hquar : startsWith roleAdmission stQuar = false := by decide
  change groupTurn sampleScene p _ = _
  simp [groupTurn, hcurrent, hdupes, hcg, existingGroup, hasMarker, Planning.onlyIf, hmarked, hquar]
  rfl

/-- What is planned for the account that leaves. -/
theorem sampleLeaver_turn : ∃ p, @turn asciiTables sampleScene
      ((@opening asciiTables sampleCurrent sampleScan {}).locate sampleStayer "CN=ann,OU=idp,DC=x")
      (@Turn.userLeaver asciiTables "a,bc") = .ok p ∧
    p.planned.map Planned.op = [.disableUser "CN=bob,OU=idp,DC=x",
      .setMarker "CN=bob,OU=idp,DC=x" (stRetired ++ "now"),
      .rename "CN=bob,OU=idp,DC=x" "bob (retired a,bc)" none (some "_retired-bob")
        (some "_retired-bob@x")] := by
  have hops : ((@turn asciiTables sampleScene ((@opening asciiTables sampleCurrent sampleScan
      {}).locate sampleStayer "CN=ann,OU=idp,DC=x") (@Turn.userLeaver asciiTables
        "a,bc")).toOption.map fun p => p.planned.map Planned.op) =
      some [.disableUser "CN=bob,OU=idp,DC=x",
        .setMarker "CN=bob,OU=idp,DC=x" (stRetired ++ "now"),
        .rename "CN=bob,OU=idp,DC=x" "bob (retired a,bc)" none (some "_retired-bob")
          (some "_retired-bob@x")] := by
    decide +kernel
  obtain ⟨p, hp, hplanned⟩ := Option.map_eq_some_iff.mp hops
  exact ⟨p, toOption_eq_some_iff.mp hp, hplanned⟩

/-- The plan of the sample. -/
theorem sample_planned :
    ∃ plan, @planSync asciiTables sampleDesired sampleCurrent sampleCtx = .ok plan ∧
      plan.ops = [.disableUser "CN=bob,OU=idp,DC=x",
        .setMarker "CN=bob,OU=idp,DC=x" (stRetired ++ "now"),
        .rename "CN=bob,OU=idp,DC=x" "bob (retired a,bc)" none (some "_retired-bob")
          (some "_retired-bob@x")] := by
  let _ := asciiTables
  have hfreeze : freeze sampleDesired sampleCurrent sampleCtx = none := by
    unfold freeze
    have hmem : sampleCtx.admission ∈ sampleDesired.groups := by simp [sampleDesired, sampleCtx]
    have hsome : ¬(sampleDesired.users.isEmpty ∧ sampleCurrent.users ≠ []) := by
      simp [sampleDesired]
    rw [if_neg (not_not.mpr hmem), if_neg hsome]
  have hstale : stalePass sampleCurrent sampleCtx = .ok {} := by
    have hnone : (carriers sampleCurrent roleAdmission).filter (· ≠ sampleCtx.admission) = [] := by
      decide
    unfold stalePass
    rw [hnone]
    rfl
  have hscan : scan sampleCurrent = .ok sampleScan := by
    simp [scan, sampleCurrent, scanObject]
    rfl
  obtain ⟨p, hp, hplanned⟩ := sampleLeaver_turn
  refine ⟨((p.locate sampleAdmission "CN=adm,OU=idp,DC=x")).plan, ?_, hplanned⟩
  unfold planSync planning
  rw [hfreeze]
  dsimp only
  rw [hstale, ok_bind, hscan, ok_bind, passes_eq]
  change (((turns sampleScene).foldlM (turn sampleScene) _).map _) = _
  rw [sampleTurns_eq]
  unfold sampleTurns
  have hcheck : ∀ p, turn sampleScene p .collisions = .ok p := fun _ => rfl
  have hstays : ∀ p, turn sampleScene p (.userLeaver sampleStayer) = .ok p := fun _ => rfl
  have hkept : ∀ p, turn sampleScene p (.groupLeaver sampleAdmission) = .ok p := fun _ => rfl
  have hgrant : ∀ p, turn sampleScene p .grant = .ok p := fun _ => rfl
  simp only [List.foldlM_cons, List.foldlM_nil, sampleStayer_turn, ok_bind, hstays, hp, hcheck,
    sampleAdmission_turn, hkept, hgrant]
  rfl

end Kerbridge.Planner

import Kerbridge.PlanAlike

/-!
# Two whole plans, made alike

The grant pass and the membership loop keep two plans alike as well, but for two things
the source takes in the order of the directory: the groups a role marker is taken off,
and the carriers the alert of an unset device-grant group lists.
-/

namespace Kerbridge.Planner

open Std (ExtTreeMap)
open UnicodeText DirectorySource SamName DistinguishedName RealmState StoredIdentity PlannerNames
  Fallible TwoRuns

variable [UnicodeTables]

/-- Every group that carries a role marker and should not is one in both reads. -/
structure SameCarriers (current current' : Current) (role : String) (keep : Subject) : Prop where
  carriers : (carriers current role).Perm (carriers current' role)
  groups : ∀ oid ∈ Planner.carriers current role, oid ≠ keep →
    ∃ cg cg', lookup current.groups oid = some cg ∧ lookup current'.groups oid = some cg' ∧
      SameGroup cg cg'

/-- Taking a role marker off groups of the unit is accepted. -/
theorem clearRoles_of_within {ctx : PlanCtx} {current : Current} {role : String}
    {oids : List Subject} (p : Planning) (h : ∀ oid ∈ oids, ∃ cg,
      lookup current.groups oid = some cg ∧ dnIsAtOrWithin cg.dn ctx.idpOu = true) :
    oids.foldlM (clearRole ctx current role) p = .ok (p.append (clearOps current role oids)) := by
  induction oids generalizing p with
  | nil => simp [clearOps, pure, Except.pure]
  | cons oid oids ih =>
    obtain ⟨⟨cg, hcg, hwithin⟩, hrest⟩ := List.forall_mem_cons.mp h
    have hclear : clearRole ctx current role p oid =
        .ok (p.append [⟨⟨.group, oid⟩, .clearMarker cg.dn role⟩]) := by
      unfold clearRole
      rw [hcg]
      exact add_of_within hwithin
    rw [List.foldlM_cons, hclear, ok_bind, ih _ hrest, append_append]
    simp [clearOps, hcg]

/-- Taking a role marker off groups ends as a panic when one of them is not of the unit. -/
theorem clearRoles_panic {ctx : PlanCtx} {current : Current} {role : String}
    {oids : List Subject} (p : Planning) (h : ¬ ∀ oid ∈ oids, ∃ cg,
      lookup current.groups oid = some cg ∧ dnIsAtOrWithin cg.dn ctx.idpOu = true) :
    ∃ why, oids.foldlM (clearRole ctx current role) p = .error (.panicked why) := by
  induction oids generalizing p with
  | nil => exact absurd (by simp) h
  | cons oid oids ih =>
    rw [List.foldlM_cons]
    cases hcg : lookup current.groups oid with
    | none =>
      have hclear : clearRole ctx current role p oid = .error (.panicked (.missingKey oid)) := by
        unfold clearRole
        rw [hcg]
      exact ⟨.missingKey oid, by rw [hclear]; rfl⟩
    | some cg =>
      by_cases hwithin : dnIsAtOrWithin cg.dn ctx.idpOu = true
      · have hclear : clearRole ctx current role p oid =
            .ok (p.append [⟨⟨.group, oid⟩, .clearMarker cg.dn role⟩]) := by
          unfold clearRole
          rw [hcg]
          exact add_of_within hwithin
        rw [hclear, ok_bind]
        refine ih _ ?_
        intro hrest
        exact h (List.forall_mem_cons.mpr ⟨⟨cg, hcg, hwithin⟩, hrest⟩)
      · have hclear : clearRole ctx current role p oid =
            .error (.panicked (.outsideOu cg.dn)) := by
          unfold clearRole
          rw [hcg]
          exact if_neg hwithin
        exact ⟨.outsideOu cg.dn, by rw [hclear]; rfl⟩

omit [UnicodeTables] in
/-- The operations that take a marker off the same groups are the same. -/
theorem clearOps_perm {current current' : Current} {role : String} {oids oids' : List Subject}
    (hperm : oids.Perm oids') (hgroups : ∀ oid ∈ oids, ∃ cg cg',
      lookup current.groups oid = some cg ∧ lookup current'.groups oid = some cg' ∧
        SameGroup cg cg') :
    (clearOps current role oids).Perm (clearOps current' role oids') := by
  have hsame : clearOps current role oids = clearOps current' role oids := by
    unfold clearOps
    refine List.filterMap_congr ?_
    intro oid hoid
    obtain ⟨cg, cg', hl, hl', hcg⟩ := hgroups oid hoid
    rw [hl, hl', Option.map_some, Option.map_some, hcg.dn]
  rw [hsame]
  exact hperm.filterMap _

/-- What the loops that take a role marker off groups leave: the same operations, in an
order of their own. -/
def Cleared (role : String) (p p' q q' : Planning) : Prop :=
  ∃ clears clears', q = p.append clears ∧ q' = p'.append clears' ∧ clears.Perm clears' ∧
    ∀ e ∈ clears, ∃ dn, e.op = .clearMarker dn role

/-- A role marker is taken off the same groups in both reads, or both end as a panic. -/
theorem clearRoles_alike {ctx : PlanCtx} {current current' : Current} {role : String}
    {oids oids' : List Subject} (hperm : oids.Perm oids') (hgroups : ∀ oid ∈ oids, ∃ cg cg',
      lookup current.groups oid = some cg ∧ lookup current'.groups oid = some cg' ∧
        SameGroup cg cg') (p p' : Planning) :
    EndAlike SameStop (Cleared role p p') (oids.foldlM (clearRole ctx current role) p)
      (oids'.foldlM (clearRole ctx current' role) p') := by
  have hwithin : (∀ oid ∈ oids', ∃ cg, lookup current'.groups oid = some cg ∧
        dnIsAtOrWithin cg.dn ctx.idpOu = true) ↔
      ∀ oid ∈ oids, ∃ cg, lookup current.groups oid = some cg ∧
        dnIsAtOrWithin cg.dn ctx.idpOu = true := by
    simp only [hperm.mem_iff.symm]
    refine forall₂_congr fun oid hoid => ?_
    obtain ⟨cg, cg', hl, hl', hcg⟩ := hgroups oid hoid
    simp [hl, hl', hcg.dn]
  by_cases hall : ∀ oid ∈ oids, ∃ cg, lookup current.groups oid = some cg ∧
      dnIsAtOrWithin cg.dn ctx.idpOu = true
  · rw [clearRoles_of_within p hall, clearRoles_of_within p' (hwithin.mpr hall)]
    refine .ok ⟨_, _, rfl, rfl, clearOps_perm hperm hgroups, ?_⟩
    intro e he
    obtain ⟨oid, _, heq⟩ := List.mem_filterMap.mp he
    obtain ⟨cg, _, rfl⟩ := Option.map_eq_some_iff.mp heq
    exact ⟨cg.dn, rfl⟩
  · obtain ⟨why, hpanic⟩ := @clearRoles_panic _ ctx current role oids p hall
    obtain ⟨why', hpanic'⟩ := @clearRoles_panic _ ctx current' role oids' p' (mt hwithin.mp hall)
    rw [hpanic, hpanic']
    exact .error trivial

/-- The alert of a device-grant group that is unset while groups carry its marker. -/
def unsetGrant (marked : List Subject) : Alert :=
  ⟨.deviceGrantGroup, "DEVICE-GRANT GROUP unset while " ++ debugList marked ++
    " still carries " ++ roleDeviceGrant ++ ": device grants remain available to its members"⟩

/-- Two alerts say the same, but for the order in which one lists the carriers. -/
def SameAlert (a a' : Alert) : Prop :=
  a' = a ∨ ∃ marked marked' : List Subject, marked.Perm marked' ∧ a = unsetGrant marked ∧
    a' = unsetGrant marked'

/-- Two states went on alike up to and over the grant pass. -/
structure Granted (b b' p p' : Planning) : Prop where
  planned : ∃ work clears clears' mark, p.planned = b.planned ++ work ++ clears ++ mark ∧
    p'.planned = b'.planned ++ work ++ clears' ++ mark ∧ clears.Perm clears' ∧
    ∀ e ∈ clears, ∃ dn, e.op = .clearMarker dn roleDeviceGrant
  conflicts : ∃ texts, p.conflicts = b.conflicts ++ texts ∧ p'.conflicts = b'.conflicts ++ texts
  alerts : ∃ more more', p.alerts = b.alerts ++ more ∧ p'.alerts = b'.alerts ++ more' ∧
    List.Forall₂ SameAlert more more'
  dnOf : p'.dnOf = p.dnOf
  taken : ∀ dn, dn ∈ p'.takenDns ↔ dn ∈ p.takenDns
  keys : ∀ key, key ∈ p'.samKeys ↔ key ∈ p.samKeys

variable {s s' : Scene} {b b' p p' : Planning}

/-- The grant pass may do nothing but report. -/
theorem Matched.granted (h : Matched b b' p p') {more more' : List Alert}
    (hmore : List.Forall₂ SameAlert more more') :
    Granted b b' { p with alerts := p.alerts ++ more }
      { p' with alerts := p'.alerts ++ more' } := by
  obtain ⟨work, hp, hp'⟩ := h.planned
  obtain ⟨before, ha, ha'⟩ := h.alerts
  refine ⟨⟨work, [], [], [], by simp [hp], by simp [hp'], List.Perm.refl _, by simp⟩, h.conflicts,
    ⟨before ++ more, before ++ more', ?_, ?_, ?_⟩, h.dnOf, h.taken, h.keys⟩
  · rw [ha, List.append_assoc]
  · rw [ha', List.append_assoc]
  · refine List.rel_append ?_ hmore
    exact List.forall₂_same.mpr fun a _ => Or.inl rfl

/-- The grant pass moves the marker alike. -/
theorem grantPass_alike (hs : SameScene s s')
    (hmarked : (carriers s.current roleDeviceGrant).Perm (carriers s'.current roleDeviceGrant))
    (hgroups : ∀ oid, s.ctx.grant = some oid →
      SameCarriers s.current s'.current roleDeviceGrant oid) (h : Matched b b' p p') :
    EndAlike SameStop (Granted b b') (grantPass s p) (grantPass s' p') := by
  unfold grantPass
  rw [hs.ctx, hs.desired, h.dnOf]
  cases hgrant : s.ctx.grant with
  | none =>
    dsimp only
    by_cases hnone : carriers s.current roleDeviceGrant = []
    · have hnone' : carriers s'.current roleDeviceGrant = [] := by
        rw [hnone] at hmarked
        exact hmarked.nil_eq.symm
      rw [if_pos hnone, if_pos hnone']
      have hsame := h.granted (List.Forall₂.nil (R := SameAlert))
      rw [List.append_nil, List.append_nil] at hsame
      exact .ok hsame
    · have hnone' : carriers s'.current roleDeviceGrant ≠ [] := by
        intro hnil
        rw [hnil] at hmarked
        exact hnone hmarked.eq_nil
      rw [if_neg hnone, if_neg hnone']
      refine .ok (h.granted (List.Forall₂.cons (Or.inr ?_) List.Forall₂.nil))
      exact ⟨_, _, hmarked, rfl, rfl⟩
  | some oid =>
    dsimp only
    split
    · refine .ok (h.granted (List.Forall₂.cons (Or.inl ?_) List.Forall₂.nil))
      rfl
    · cases hdn : p.dnOf[oid]? with
      | none =>
        have hsame := h.granted (List.Forall₂.nil (R := SameAlert))
        rw [List.append_nil, List.append_nil] at hsame
        exact .ok hsame
      | some dn =>
        dsimp only
        have hcarriers := hgroups oid hgrant
        have hstale : ∀ o ∈ (carriers s.current roleDeviceGrant).filter (· ≠ oid), ∃ cg cg',
            lookup s.current.groups o = some cg ∧ lookup s'.current.groups o = some cg' ∧
              SameGroup cg cg' := by
          intro o ho
          obtain ⟨hmem, hne⟩ := List.mem_filter.mp ho
          exact hcarriers.groups o hmem (of_decide_eq_true hne)
        refine (clearRoles_alike (hmarked.filter _) hstale p p').bind ?_
        rintro _ _ ⟨clears, clears', rfl, rfl, hperm, hclears⟩
        obtain ⟨work, hp, hp'⟩ := h.planned
        obtain ⟨before, ha, ha'⟩ := h.alerts
        have halerts : ∃ more more', p.alerts = b.alerts ++ more ∧ p'.alerts = b'.alerts ++ more' ∧
            List.Forall₂ SameAlert more more' :=
          ⟨before, before, ha, ha', List.forall₂_same.mpr fun a _ => Or.inl rfl⟩
        simp only [hmarked.mem_iff]
        split
        · refine .ok ⟨⟨work, clears, clears', [], ?_, ?_, hperm, hclears⟩, h.conflicts, halerts,
            h.dnOf, h.taken, h.keys⟩
          · simp [hp]
          · simp [hp']
        · unfold Planning.add
          split
          · refine .ok ⟨⟨work, clears, clears', [⟨⟨.group, oid⟩, .setRoleMarker dn
              roleDeviceGrant⟩], ?_, ?_, hperm, hclears⟩, h.conflicts, halerts, h.dnOf, h.taken,
              h.keys⟩
            · simp only [append_planned, hp]
            · simp only [append_planned, hp']
          · exact .error trivial

omit [UnicodeTables] in
/-- Texts with the same elements are one set, in order. -/
theorem sortedTexts_congr {texts texts' : List String} (h : ∀ m, m ∈ texts' ↔ m ∈ texts) :
    sortedTexts texts' = sortedTexts texts := by
  refine mergeSort_texts ?_
  rw [List.perm_ext_iff_of_nodup texts'.nodup_dedup texts.nodup_dedup]
  intro m
  rw [List.mem_dedup, List.mem_dedup]
  exact h m

/-- A member nobody wants is dropped alike. -/
theorem dropMember_alike (hs : SameScene s s') (h : Matched b b' p p') (goid : Subject)
    (gdn m : String) :
    EndAlike SameStop (Matched b b') (dropMember s goid gdn p m) (dropMember s' goid gdn p' m) := by
  unfold dropMember
  rw [hs.ctx]
  simp only [hs.dupeDns]
  split
  · exact .ok (h.conflict _)
  · split
    · exact h.add s.ctx _ _
    · exact .ok (h.conflict _)

/-- A turn of the membership loop keeps two plans alike. -/
theorem memberTurn_alike (hs : SameScene s s') {moves moves' : List Planned}
    (hmoves : renames moves' = renames moves) (h : Matched b b' p p')
    (entry : Subject × List Subject) :
    EndAlike SameStop (Matched b b') (memberTurn s moves p entry)
      (memberTurn s' moves' p' entry) := by
  rw [memberTurn_congr hmoves]
  unfold memberTurn
  rw [hs.desired, h.dnOf]
  simp only [hs.dupes]
  split
  · exact .ok h
  · rename_i hturn
    rw [not_or] at hturn
    cases p.dnOf[entry.1]? with
    | none => exact .ok h
    | some gdn =>
      have hheld : ∀ m, m ∈ held s' moves entry.1 ↔ m ∈ held s moves entry.1 := by
        intro m
        unfold held
        rcases hs.lookup_groups hturn.1 with ⟨hl, hl'⟩ | ⟨cg, cg', hl, hl', hcg⟩
        · rw [hl, hl']
        · rw [hl, hl']
          exact (hcg.members.map (renamed moves)).mem_iff.symm
      have hadd : sortedTexts ((wanted p entry.2).filter (· ∉ held s' moves entry.1)) =
          sortedTexts ((wanted p entry.2).filter (· ∉ held s moves entry.1)) := by
        refine sortedTexts_congr fun m => ?_
        simp only [List.mem_filter, hheld]
      have hdrop : sortedTexts ((held s' moves entry.1).filter (· ∉ wanted p entry.2)) =
          sortedTexts ((held s moves entry.1).filter (· ∉ wanted p entry.2)) := by
        refine sortedTexts_congr fun m => ?_
        simp only [List.mem_filter, hheld]
      have hadded : EndAlike SameStop (Matched b b')
          (p.addAll s.ctx ⟨.group, entry.1⟩ ((sortedTexts ((wanted p entry.2).filter
            (· ∉ held s moves entry.1))).map (.addMember gdn)))
          (p'.addAll s'.ctx ⟨.group, entry.1⟩ ((sortedTexts ((wanted p entry.2).filter
            (· ∉ held s' moves entry.1))).map (.addMember gdn))) := by
        rw [hadd, hs.ctx]
        exact h.addAll s.ctx _ _
      refine hadded.bind ?_
      intro q q' hq
      change EndAlike SameStop (Matched b b')
        ((sortedTexts ((held s moves entry.1).filter (· ∉ wanted p entry.2))).foldlM _ q)
        ((sortedTexts ((held s' moves entry.1).filter (· ∉ wanted p entry.2))).foldlM _ q')
      rw [hdrop]
      exact foldlM_alike hq fun m _ q q' hq => dropMember_alike hs hq entry.1 gdn m

/-- The grant pass adds no rename but those of the loops before it. -/
theorem Granted.renames (h : Granted b b' p p') (hb : ∀ e ∈ b.planned, e.op.move = none)
    (hb' : ∀ e ∈ b'.planned, e.op.move = none) : renames p'.planned = renames p.planned := by
  obtain ⟨work, clears, clears', mark, hp, hp', hperm, hclears⟩ := h.planned
  have hnone : ∀ e ∈ clears, e.op.move = none := by
    intro e he
    obtain ⟨dn, hop⟩ := hclears e he
    rw [hop]
    rfl
  have hnone' : ∀ e ∈ clears', e.op.move = none := fun e he => hnone e (hperm.mem_iff.mpr he)
  have hmoves : ∀ {before taken : List Planned}, (∀ e ∈ before, e.op.move = none) →
      (∀ e ∈ taken, e.op.move = none) →
      (before ++ work ++ taken ++ mark).filterMap (fun e => e.op.move) =
        (work ++ mark).filterMap fun e => e.op.move := by
    intro before taken hbefore htaken
    simp only [List.filterMap_append, List.filterMap_eq_nil_iff.mpr hbefore,
      List.filterMap_eq_nil_iff.mpr htaken, List.nil_append, List.append_nil]
  unfold Planner.renames
  rw [hp, hp', hmoves hb hnone, hmoves hb' hnone']

/-- Two plans went on alike to the end. -/
structure Concluded (b b' p p' : Planning) : Prop where
  planned : ∃ work clears clears' rest, p.planned = b.planned ++ work ++ clears ++ rest ∧
    p'.planned = b'.planned ++ work ++ clears' ++ rest ∧ clears.Perm clears' ∧
    ∀ e ∈ clears, ∃ dn, e.op = .clearMarker dn roleDeviceGrant
  conflicts : ∃ texts, p.conflicts = b.conflicts ++ texts ∧ p'.conflicts = b'.conflicts ++ texts
  alerts : ∃ more more', p.alerts = b.alerts ++ more ∧ p'.alerts = b'.alerts ++ more' ∧
    List.Forall₂ SameAlert more more'

/-- What follows the grant pass alike concludes two plans alike. -/
theorem Granted.conclude {q q' : Planning} (h : Granted b b' p p') (hrest : Matched p p' q q') :
    Concluded b b' q q' := by
  obtain ⟨work, clears, clears', mark, hp, hp', hperm, hclears⟩ := h.planned
  obtain ⟨es, hq, hq'⟩ := hrest.planned
  obtain ⟨texts, ht, ht'⟩ := h.conflicts
  obtain ⟨texts₁, hu, hu'⟩ := hrest.conflicts
  obtain ⟨more, more', ha, ha', hmore⟩ := h.alerts
  obtain ⟨more₁, hm, hm'⟩ := hrest.alerts
  refine ⟨⟨work, clears, clears', mark ++ es, ?_, ?_, hperm, hclears⟩, ⟨texts ++ texts₁, ?_, ?_⟩,
    ⟨more ++ more₁, more' ++ more₁, ?_, ?_, ?_⟩⟩
  · rw [hq, hp, List.append_assoc]
  · rw [hq', hp', List.append_assoc]
  · rw [hu, ht, List.append_assoc]
  · rw [hu', ht', List.append_assoc]
  · rw [hm, ha, List.append_assoc]
  · rw [hm', ha', List.append_assoc]
  · exact List.rel_append hmore (List.forall₂_same.mpr fun a _ => Or.inl rfl)

/-- The loops keep two plans alike. -/
theorem passes_alike (hs : SameScene s s')
    (hmarked : (carriers s.current roleDeviceGrant).Perm (carriers s'.current roleDeviceGrant))
    (hgroups : ∀ oid, s.ctx.grant = some oid →
      SameCarriers s.current s'.current roleDeviceGrant oid)
    (hb : ∀ e ∈ b.planned, e.op.move = none) (hb' : ∀ e ∈ b'.planned, e.op.move = none)
    (h : Matched b b' p p') :
    EndAlike SameStop (Concluded b b') (passes s p) (passes s' p') := by
  unfold passes
  rw [hs.desired, hs.userOids, hs.groupOids]
  refine (foldlM_alike h fun entry _ q q' hq => userTurn_alike hs hq entry).bind ?_
  intro p₁ p₁' h₁
  refine (foldlM_alike h₁ fun oid _ q q' hq => userLeaver_alike hs hq oid).bind ?_
  intro p₂ p₂' h₂
  refine (refuseCollisions_alike hs h₂).bind ?_
  intro _ _ h₂
  refine (foldlM_alike h₂ fun entry _ q q' hq => groupTurn_alike hs hq entry).bind ?_
  intro p₃ p₃' h₃
  refine (foldlM_alike h₃ fun oid _ q q' hq => groupLeaver_alike hs hq oid).bind ?_
  intro p₄ p₄' h₄
  refine (grantPass_alike hs hmarked hgroups h₄).bind ?_
  intro p₅ p₅' h₅
  have hmoves : renames p₅'.planned = renames p₅.planned := h₅.renames hb hb'
  have hstart : Matched p₅ p₅' p₅ p₅' := matched_start h₅.dnOf h₅.taken h₅.keys
  have hmembers := foldlM_alike hstart
    fun entry (_ : entry ∈ s.desired.membership.toList) q q' hq => memberTurn_alike hs hmoves hq entry
  exact hmembers.mono fun q q' hq => h₅.conclude hq

end Kerbridge.Planner

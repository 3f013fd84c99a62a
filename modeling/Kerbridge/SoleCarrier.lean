import Kerbridge.SyncRuns

/-!
# One group carries the admission marker

A plan takes the marker off every group that should not carry it before it puts it on the
one that should. Where those first operations were carried out, no request of the rest of
the plan, carried out or lost, leaves a second carrier behind.
-/

namespace Kerbridge.SoleCarrier

open UnicodeText DirectorySource LdapFilter RealmDirectory RealmChanges RealmState StoredIdentity
  Attempts Planner PlanApply Succession ApplyFrame ApplySteps SyncCycle SyncRuns Fallible Runs

variable {server : Server}

/-- Whether an object is a group of the source that carries a role marker. -/
def Carries (source : Source) (role : String) (e : Entry) : Bool :=
  ((meantBy source e).any fun who => decide (who.kind = .group)) &&
    (e.attrs "extensionName").contains role

/-- How many groups of the source carry a role marker. -/
def carried (source : Source) (role : String) (entries : List Entry) : ℕ :=
  entries.countP (Carries source role)

/-- Whether a request puts a role marker on an object, a new one or one that is there. -/
def Gains (role : String) : Request → Bool
  | .add _ attrs => ((attrs.lookup "extensionName").getD []).contains role
  | .modify _ (.add attr value) => attr == "extensionName" && value == role
  | _ => false

section Requests

variable {source : Source} {role : String} {naming : Naming server} {q : Request}
  {loses gains : String → Prop} {made : Entry → Prop}

/-- A carrier is a group of the source with the marker. -/
theorem carries_iff {e : Entry} : Carries source role e = true ↔
    (∃ oid, meantBy source e = some ⟨.group, oid⟩) ∧ role ∈ e.attrs "extensionName" := by
  unfold Carries
  rw [Bool.and_eq_true, List.contains_iff_mem, Option.any_eq_true]
  refine and_congr_left fun _ => ⟨?_, ?_⟩
  · rintro ⟨⟨kind, oid⟩, hmeant, hkind⟩
    obtain rfl : kind = .group := of_decide_eq_true hkind
    exact ⟨oid, hmeant⟩
  · rintro ⟨oid, hmeant⟩
    exact ⟨_, hmeant, rfl⟩

variable (source role) in
/-- An object comes to carry the marker by a change that addresses it and puts the marker
on it. -/
theorem carries_after {o o' : Entry} (h : After naming q o o')
    (hfits : RequestFits server loses gains made q) :
    (Carries source role o' = true → Carries source role o = true) ∨
      Gains role q = true ∧ ∃ dn c, q = .modify dn c ∧ server.sameDn o.dn dn = true := by
  have hmeant : meantBy source o' = meantBy source o := (after_meant h hfits).1
  have hkept : (role ∈ o'.attrs "extensionName" → role ∈ o.attrs "extensionName") →
      Carries source role o' = true → Carries source role o = true := by
    intro hmarkers hcarries
    rw [carries_iff, hmeant] at hcarries
    exact carries_iff.mpr ⟨hcarries.1, hmarkers hcarries.2⟩
  rcases h.valued "extensionName" extensionName_no_link with hsame | ⟨dn, c, rfl, hattr, hdn, hvs⟩
  · exact Or.inl (hkept fun hmem => hsame ▸ hmem)
  · cases c with
    | add attr value =>
      obtain rfl : attr = "extensionName" := hattr
      by_cases hvalue : value = role
      · exact Or.inr ⟨by simp [Gains, hvalue], dn, _, rfl, hdn⟩
      · refine Or.inl (hkept fun hmem => ?_)
        rw [(values_add hvs).2] at hmem
        rcases List.mem_append.mp hmem with hmem | hmem
        · exact hmem
        · exact absurd (List.mem_singleton.mp hmem).symm hvalue
    | replace attr values =>
      obtain rfl : attr = "extensionName" := hattr
      rcases hfits with hlink | ⟨_, hne⟩
      · exact absurd hlink extensionName_no_link
      · exact absurd rfl hne
    | delete attr values =>
      obtain rfl : attr = "extensionName" := hattr
      refine Or.inl (hkept fun hmem => ?_)
      rw [(values_delete hvs).2] at hmem
      exact List.mem_of_mem_filter hmem

variable (source role) in
/-- A request makes one carrier at most, and none when it puts no marker on anything. -/
theorem make_carried {idpOu : String} {r r' : Realm server}
    (hfits : RequestFits server loses gains made q) (h : make naming idpOu q r = .ok r') :
    carried source role r'.entries ≤
      carried source role r.entries + if Gains role q = true then 1 else 0 := by
  unfold carried
  rcases make_after h with ⟨dn, attrs, rfl, _, hr'⟩ | ⟨f, hr', hafter⟩
  · rw [hr', List.countP_append]
    refine Nat.add_le_add_left ?_ _
    rw [List.countP_singleton]
    by_cases hnew : Carries source role (newEntry dn attrs) = true
    · have hgains : Gains role (.add dn attrs) = true := by
        have hmem := (carries_iff.mp hnew).2
        exact List.contains_iff_mem.mpr hmem
      simp [hnew, hgains]
    · rw [if_neg hnew]
      exact Nat.zero_le _
  · rw [hr']
    by_cases hgains : Gains role q = true
    · rw [if_pos hgains]
      refine countP_map_le_succ (r.distinct.imp_of_mem ?_)
      intro a b ha hb hab
      rcases carries_after source role (hafter a ha) hfits with hkeep |
        ⟨_, dn, c, rfl, hdn⟩
      · exact Or.inl hkeep
      · rcases carries_after source role (hafter b hb) hfits with hkeep |
          ⟨_, dn', c', hq, hdn'⟩
        · exact Or.inr hkeep
        · cases hq
          exact absurd (server.sameDn_of_common _ _ _ hdn hdn') hab
    · rw [if_neg hgains, Nat.add_zero, List.countP_map]
      refine List.countP_mono_left fun o ho => ?_
      exact (carries_after source role (hafter o ho) hfits).resolve_right fun h => hgains h.1

end Requests

/-- How many of some requests put the marker on an object. -/
def gained (role : String) (pre : List (Planned × Request)) : ℕ := pre.countP fun x => Gains role x.2

/-- There are no more carriers than at the start and markers put on since. -/
theorem carried_advances {source : Source} {role : String} {naming : Naming server} {idpOu : String}
    {markers : List (String × List String)} {planned : List Planned} {loses gains : String → Prop}
    {made : Entry → Prop}
    (hfits : ∀ x ∈ steps markers planned, RequestFits server loses gains made x.2)
    (start : Realm server) :
    Advances (service naming idpOu) Prod.snd (steps markers planned) fun pre s =>
      carried source role s.entries ≤ carried source role start.entries + gained role pre := by
  intro pre x post hall s hs
  have hmore : gained role (pre ++ [x]) =
      gained role pre + if Gains role x.2 = true then 1 else 0 := by
    unfold gained
    rw [List.countP_append, List.countP_singleton]
  dsimp only at hs ⊢
  rw [hmore]
  refine ⟨by omega, ?_⟩
  intro s' hmake
  have hstep := make_carried source role (hfits x (by simp [hall])) hmake
  omega

/-- The group an operation puts a role marker on. -/
def marks (role : String) (e : Planned) : Option Meant :=
  match e.op with
  | .createGroup _ _ _ marker => if marker = some role then some e.about else none
  | .setMarker _ value => if value = role then some e.about else none
  | .setRoleMarker _ value => if value = role then some e.about else none
  | _ => none

/-- The requests of a plan put the marker on as often as its operations do, at most. -/
theorem gained_le (role : String) (markers : List (String × List String)) (planned : List Planned) :
    gained role (steps markers planned) ≤ (planned.filterMap (marks role)).length := by
  have hnone : ∀ (e : Planned), (∀ q ∈ sent (requests markers e.op), Gains role q = false) →
      gained role ((sent (requests markers e.op)).map fun q => (e, q)) = 0 := by
    intro e h
    unfold gained
    refine List.countP_eq_zero.mpr fun x hx => ?_
    obtain ⟨q, hq, rfl⟩ := List.mem_map.mp hx
    simp [h q hq]
  have hblock : ∀ e : Planned, gained role ((sent (requests markers e.op)).map fun q => (e, q)) ≤
      (marks role e).toList.length := by
    intro e
    obtain ⟨about, op⟩ := e
    have hzero : (∀ q ∈ sent (requests markers op), Gains role q = false) →
        gained role ((sent (requests markers op)).map fun q => (⟨about, op⟩, q)) ≤
          (marks role ⟨about, op⟩).toList.length := by
      intro h
      rw [hnone ⟨about, op⟩ h]
      exact Nat.zero_le _
    cases op with
    | createUser => exact hzero (by simp [sent, requests, Gains, List.lookup_cons])
    | createGroup dn sam identity marker =>
      cases marker with
      | none => exact hzero (by simp [sent, requests, Gains, List.lookup_cons])
      | some marker =>
        by_cases hrole : marker = role
        · simp [sent, requests, gained, Gains, marks, List.lookup_cons, hrole]
        · exact hzero (by simp [sent, requests, Gains, List.lookup_cons, Ne.symm hrole])
    | setMarker dn value =>
      by_cases hrole : value = role
      · simp [sent, requests, gained, Gains, marks, hrole]
      · exact hzero (by simp [sent, requests, Gains, hrole])
    | setRoleMarker dn value =>
      by_cases hrole : value = role
      · simp [sent, requests, gained, Gains, marks, hrole]
      · exact hzero (by simp [sent, requests, Gains, hrole])
    | rename dn newCn shown sam upn =>
      refine hzero fun q hq => ?_
      have hrs : requests markers (.rename dn newCn shown sam upn) =
          .ok (sent (requests markers (.rename dn newCn shown sam upn))) := rfl
      rcases requests_cases hrs hq with ⟨hno, _⟩ | ⟨_, _, _, _, _, _, rfl | ⟨attr, _, v, rfl⟩⟩ |
        ⟨c, hc, _⟩
      · cases hno
      · rfl
      · rfl
      · cases hc
    | setAttr dn attr value =>
      refine hzero ?_
      unfold requests
      dsimp only
      split
      · simp [sent, Gains]
      · simp [sent]
    | clearMarker dn pre =>
      refine hzero ?_
      unfold requests
      dsimp only
      split
      · simp [sent]
      · simp [sent, Gains]
    | addMember => exact hzero (by simp [sent, requests, Gains])
    | removeMember => exact hzero (by simp [sent, requests, Gains])
    | enableUser => exact hzero (by simp [sent, requests, Gains])
    | disableUser => exact hzero (by simp [sent, requests, Gains])
    | clearMembers => exact hzero (by simp [sent, requests, Gains])
  induction planned with
  | nil => exact Nat.le_refl _
  | cons e planned ih =>
    have hcons : steps markers (e :: planned) =
        (sent (requests markers e.op)).map (fun q => (e, q)) ++ steps markers planned := rfl
    have hmarks : (e :: planned).filterMap (marks role) =
        (marks role e).toList ++ planned.filterMap (marks role) := by
      rw [List.filterMap_cons]
      cases marks role e with
      | none => rfl
      | some _ => rfl
    have hfirst := hblock e
    unfold gained at hfirst ih ⊢
    rw [hcons, hmarks, List.countP_append, List.length_append]
    omega


section Plans

variable [UnicodeTables] {d : Deployment server} {c : Cycle} {r : Realm server} {current : Current}
  {p : Planning}

/-- The turn that may put the admission marker on a group: that of the admission group, when
no group the configuration names carries it. -/
def admissionTurn (s : Scene) : Turn → Option Meant
  | .group entry =>
    if entry.1 = s.ctx.admission ∧ (s.unmarked = true ∨ lookup s.current.groups entry.1 = none) then
      some ⟨.group, entry.1⟩
    else none
  | _ => none

omit [UnicodeTables] in
/-- Operations that put no marker on anything. -/
theorem marks_none {role : String} {es : List Planned} (h : ∀ e ∈ es, marks role e = none) :
    es.filterMap (marks role) = [] := List.filterMap_eq_nil_iff.mpr h

omit [UnicodeTables] in
/-- Taking a marker off puts none on. -/
theorem clearOps_marks {current : Current} {role role' : String} {oids : List Subject} :
    ∀ e ∈ clearOps current role' oids, marks role e = none := by
  intro e he
  obtain ⟨dn, heq⟩ := clearOps_still e he
  unfold marks
  rw [heq]

/-- A turn puts the admission marker on one group at most, and only the turn of that group
does. -/
theorem marks_sublist (s : Scene) (t : Turn) (es : List Planned) (h : TurnShape s t es) :
    (es.filterMap (marks roleAdmission)).Sublist (admissionTurn s t).toList := by
  have hnone : (∀ e ∈ es, marks roleAdmission e = none) →
      (es.filterMap (marks roleAdmission)).Sublist (admissionTurn s t).toList := by
    intro hes
    rw [marks_none hes]
    exact List.nil_sublist _
  have hretired : ∀ now : String, stRetired ++ now ≠ roleAdmission := by
    intro now heq
    have hstarts := startsWith_append stRetired now
    rw [heq] at hstarts
    exact absurd hstarts (by decide)
  have hquar : ∀ now : String, stQuar ++ now ≠ roleAdmission := by
    intro now heq
    have hstarts := startsWith_append stQuar now
    rw [heq] at hstarts
    exact absurd hstarts (by decide)
  have hrename : ∀ {about : Meant} {dn cn : String} {shown sam upn : Option String},
      marks roleAdmission ⟨about, .rename dn cn shown sam upn⟩ = none := rfl
  cases h with
  | idle => exact hnone (by simp)
  | create => exact hnone (List.forall_mem_singleton.mpr rfl)
  | live _ _ hops =>
    refine hnone (List.forall_mem_map.mpr fun op hop => ?_)
    cases hops op hop <;> rfl
  | leave _ _ _ hops =>
    refine hnone (List.forall_mem_map.mpr (List.forall_mem_append.mpr ⟨?_, ?_⟩))
    · unfold leaveOps
      refine List.forall_mem_append.mpr ⟨?_, ?_⟩
      · split
        · simp
        · simp [marks, hretired]
      · split
        · simp [marks]
        · simp
    · rcases hops with ⟨_, rfl⟩ | ⟨cn, sam, rfl⟩
      · simp
      · exact List.forall_mem_singleton.mpr hrename
  | @createGroup entry cn sam identity hmissing =>
    unfold roleOf plannedFor admissionTurn
    by_cases hadmission : entry.1 = s.ctx.admission
    · simp [marks, hadmission, hadmission ▸ hmissing]
    · simp [marks, hadmission]
  | @liveGroup entry cg ops _ _ hops =>
    have hfront : (plannedFor ⟨.group, entry.1⟩ ops).filterMap (marks roleAdmission) = [] := by
      refine marks_none (List.forall_mem_map.mpr fun op hop => ?_)
      cases hops op hop <;> rfl
    unfold plannedFor at hfront ⊢
    rw [List.map_append, List.filterMap_append, hfront, List.nil_append]
    rcases admissionOps_cases s entry.1 cg with hnil | ⟨hadmission, hunmarked, hone⟩
    · rw [hnil]
      exact List.nil_sublist _
    · rw [hone]
      unfold admissionTurn
      dsimp only
      rw [if_pos ⟨hadmission, Or.inl hunmarked⟩]
      exact List.Sublist.refl _
  | leaveGroup _ _ _ hops =>
    refine hnone (List.forall_mem_map.mpr (List.forall_mem_append.mpr ⟨?_, ?_⟩))
    · unfold emptyOps
      split
      · simp
      · simp [marks, hquar]
    · rcases hops with ⟨_, rfl⟩ | ⟨cn, sam, rfl⟩
      · simp
      · exact List.forall_mem_singleton.mpr hrename
  | grant dn _ =>
    refine hnone (List.forall_mem_append.mpr ⟨clearOps_marks, ?_⟩)
    intro e he
    have hroles : roleDeviceGrant ≠ roleAdmission := by decide
    unfold marks
    rw [grantOps_still e he]
    exact if_neg hroles
  | member gdn hops =>
    refine hnone (List.forall_mem_map.mpr fun op hop => ?_)
    obtain ⟨m, rfl | rfl⟩ := hops op hop
    · rfl
    · rfl

/-- A plan puts the admission marker on one group at most. -/
theorem marks_length (h : planning c.desired current (planCtx d c) = .ok p) :
    (p.planned.filterMap (marks roleAdmission)).length ≤ 1 := by
  rcases planned_sublist h clearOps_marks marks_sublist with hnone | ⟨sc, _, hsub⟩
  · rw [hnone]
    exact Nat.zero_le _
  · refine hsub.length_le.trans ?_
    have hpicks : ((turns (sceneOf c.desired current (planCtx d c) sc)).filterMap
        (admissionTurn (sceneOf c.desired current (planCtx d c) sc))).Sublist
        ((turns (sceneOf c.desired current (planCtx d c) sc)).filterMap Turn.makes) := by
      refine filterMap_sublist fun t => ?_
      cases t with
      | group entry =>
        unfold admissionTurn
        dsimp only
        split
        · exact Or.inr rfl
        · exact Or.inl rfl
      | _ => exact Or.inl rfl
    have hall : ∀ who ∈ (turns (sceneOf c.desired current (planCtx d c) sc)).filterMap
        (admissionTurn (sceneOf c.desired current (planCtx d c) sc)),
        who = ⟨.group, (planCtx d c).admission⟩ := by
      intro who hwho
      obtain ⟨t, _, ht⟩ := List.mem_filterMap.mp hwho
      cases t with
      | group entry =>
        unfold admissionTurn at ht
        dsimp only at ht
        split at ht
        · rename_i hcond
          rw [← Option.some.inj ht, hcond.1]
          rfl
        · cases ht
      | _ => cases ht
    have hnodup := (turns_makes_nodup _).sublist hpicks
    rw [List.eq_replicate_of_mem hall] at hnodup
    exact List.nodup_replicate.mp hnodup

/-- While the admission group carries its marker, no plan puts it on a group. -/
theorem marks_settled (h : planning c.desired current (planCtx d c) = .ok p)
    (hcarries : c.admission ∈ carriers current roleAdmission) :
    p.planned.filterMap (marks roleAdmission) = [] := by
  rcases planned_sublist h clearOps_marks marks_sublist with hnone | ⟨sc, _, hsub⟩
  · rw [hnone]
    rfl
  · have hidle : (turns (sceneOf c.desired current (planCtx d c) sc)).filterMap
        (admissionTurn (sceneOf c.desired current (planCtx d c) sc)) = [] := by
      refine List.filterMap_eq_nil_iff.mpr fun t _ => ?_
      cases t with
      | group entry =>
        unfold admissionTurn
        dsimp only
        refine if_neg ?_
        rintro ⟨hadmission, hunmarked | hmissing⟩
        · have hmarked : (sceneOf c.desired current (planCtx d c) sc).unmarked = false := by
            change (!(carriers current roleAdmission).contains c.admission) = false
            rw [List.contains_iff_mem.mpr hcarries]
            rfl
          rw [hmarked] at hunmarked
          cases hunmarked
        · unfold carriers at hcarries
          obtain ⟨e, he, hadm⟩ := List.mem_map.mp hcarries
          obtain ⟨cg, hcg⟩ := lookup_isSome (List.mem_of_mem_filter he)
          have hsame : entry.1 = e.1 := hadmission.trans hadm.symm
          rw [hsame] at hmissing
          exact absurd (hmissing.symm.trans hcg) (by simp)
      | _ => rfl
    rw [hidle] at hsub
    exact List.sublist_nil.mp hsub

end Plans

section Clears

variable [UnicodeTables] {d : Deployment server} {c : Cycle} {r : Realm server} {current : Current}

/-- What a directory keeps while requests take values off markers: every object in its place,
under its name, and a role marker on it only where it was, and on nothing that was addressed
by a request for it. -/
def Stripped (d : Deployment server) (role : String) (done : List Request) (a b : Entry) : Prop :=
  meantBy d.source b = meantBy d.source a ∧ b.dn = a.dn ∧
    (role ∈ b.attrs "extensionName" → role ∈ a.attrs "extensionName" ∧
      ∀ dn vs, .modify dn (.delete "extensionName" vs) ∈ done → role ∈ vs →
        server.sameDn a.dn dn = false)

omit [UnicodeTables] in
/-- Requests that take values off markers, carried out in order. -/
theorem strips_done {role : String} {naming : Naming server} {idpOu : String}
    (hself : server.equal "extensionName" (utf8 role.toList) role = true) {qs : List Request}
    {s : Realm server} (hqs : ∀ q ∈ qs, ∃ dn vs, q = .modify dn (.delete "extensionName" vs))
    (h : qs.foldlM (fun s q => make naming idpOu q s) r = .ok s) :
    Succeeds (Stripped d role qs) (fun _ => False) r.entries s.entries := by
  refine foldlM_ok_induction (fun done s =>
    (∀ q ∈ done, ∃ dn vs, q = .modify dn (.delete "extensionName" vs)) →
      Succeeds (Stripped d role done) (fun _ => False) r.entries s.entries) h ?_ ?_ hqs
  · intro _
    exact succeeds_refl (fun a => ⟨rfl, rfl, fun hrole => ⟨hrole, by simp⟩⟩) _
  · intro done q b b' hdone hmake hform
    have hb := hdone fun q' hq' => hform q' (List.mem_append_left _ hq')
    obtain ⟨dn, vs, rfl⟩ := hform q (by simp)
    have hmodify : modify b dn (.delete "extensionName" vs) = .ok b' := mapError_ok_iff.mp hmake
    obtain ⟨e, he, hsame, attrs, f, hattrs, hb', hfe, hfo⟩ := modify_ok hmodify
    have hmap : Succeeds (fun o o' => o ∈ b.entries ∧ o' = f o) (fun _ => False) b.entries
        b'.entries := by
      rw [hb']
      exact succeeds_map fun o ho => ⟨ho, rfl⟩
    refine hb.trans hmap ?_ (fun _ _ hn _ => hn) fun _ hn => hn
    rintro a o _ ⟨hmeant, hdn, hrole⟩ ⟨ho, rfl⟩
    have hmore : ∀ {o' : Entry}, (role ∈ o'.attrs "extensionName" →
        role ∈ o.attrs "extensionName" ∧ (role ∈ vs → server.sameDn o.dn dn = false)) →
        role ∈ o'.attrs "extensionName" → role ∈ a.attrs "extensionName" ∧
          ∀ dn' vs', .modify dn' (.delete "extensionName" vs') ∈
            done ++ [.modify dn (.delete "extensionName" vs)] → role ∈ vs' →
              server.sameDn a.dn dn' = false := by
      intro o' hstep hmem
      obtain ⟨hbefore, hthis⟩ := hstep hmem
      obtain ⟨hstart, hdone'⟩ := hrole hbefore
      refine ⟨hstart, ?_⟩
      intro dn' vs' hmem' hvs
      rcases List.mem_append.mp hmem' with hmem' | hmem'
      · exact hdone' dn' vs' hmem' hvs
      · cases List.mem_singleton.mp hmem'
        rw [← hdn]
        exact hthis hvs
    by_cases hoe : o = e
    · rw [hoe] at hmeant hdn hmore ⊢
      rw [hfe]
      have hother : ∀ attr, attr ≠ (Change.delete "extensionName" vs).attr →
          attrs attr = e.attrs attr := fun attr hne => changed_other hattrs hne
      obtain ⟨_, ws, hws, rfl⟩ := changed_ok hattrs
      obtain ⟨_, rfl⟩ := values_delete hws
      refine ⟨?_, hdn, hmore ?_⟩
      · rw [← hmeant]
        exact meantBy_congr (hother "msDS-ExternalDirectoryObjectId" (by simp [Change.attr]))
          (hother "objectClass" (by simp [Change.attr]))
      · intro hmem
        have hfilter : role ∈ (e.attrs "extensionName").filter fun v =>
            !vs.any fun w => server.equal "extensionName" (utf8 w.toList) v := by
          have hself := Function.update_self "extensionName" ((e.attrs "extensionName").filter fun v =>
            !vs.any fun w => server.equal "extensionName" (utf8 w.toList) v) e.attrs
          rw [← hself]
          exact hmem
        obtain ⟨hheld, hkept⟩ := List.mem_filter.mp hfilter
        refine ⟨hheld, ?_⟩
        intro hvs
        have hgone : (vs.any fun w => server.equal "extensionName" (utf8 w.toList) role) = true :=
          List.any_eq_true.mpr ⟨role, hvs, hself⟩
        rw [hgone] at hkept
        cases hkept
    · rw [hfo o ho hoe]
      refine ⟨hmeant, hdn, hmore fun hmem => ⟨hmem, fun _ => ?_⟩⟩
      rw [Bool.eq_false_iff]
      intro hodn
      exact hoe (b.eq_of_sameDn ho he (server.sameDn_of_common _ _ _ hodn hsame))

/-- The markers of an object of the source are found under its name. -/
theorem lookup_markers (hr : Placed d r.entries) (h : readRealm d c r = .ok current) {a : Entry}
    (ha : a ∈ r.entries) (hmeant : meantBy d.source a ≠ none) :
    lookup (markerIndex current) a.dn = some (a.attrs "extensionName") := by
  obtain ⟨entries, rfl, husers, hgroups⟩ := readRealm_ok h
  have hindexed : ∃ m, (a.dn, m) ∈ markerIndex current := by
    obtain ⟨hwithin, hclassed⟩ := hr.placed a ha hmeant
    have hread : a ∈ r.entries.filter fun e => server.within e.dn d.idpOu && Classed server e :=
      List.mem_filter.mpr ⟨ha, by rw [hwithin, hclassed]; rfl⟩
    obtain ⟨who, hwho⟩ := Option.ne_none_iff_exists'.mp hmeant
    rcases @read_of_meant _ c.membersOf _ _ hwho with ⟨cu, _, hown⟩ | ⟨cg, _, hown⟩
    · obtain ⟨_, identity, rfl⟩ := ownUser_ok hown
      refine ⟨_, List.mem_append_left _ (List.mem_map.mpr
        ⟨(who.subject, SyncDirectory.readUser a identity), ?_, rfl⟩)⟩
      rw [husers]
      exact List.mem_filterMap.mpr ⟨a, hread, hown⟩
    · obtain ⟨_, identity, members, rfl⟩ := ownGroup_ok hown
      refine ⟨_, List.mem_append_right _ (List.mem_map.mpr
        ⟨(who.subject, SyncDirectory.readGroup a identity members), ?_, rfl⟩)⟩
      rw [hgroups]
      exact List.mem_filterMap.mpr ⟨a, hread, hown⟩
  obtain ⟨m, hm⟩ := hindexed
  obtain ⟨m', hm'⟩ := lookup_isSome hm
  rw [hm']
  have hmine : ∀ e ∈ r.entries, e.dn = a.dn → e = a := by
    intro e he hdn
    refine r.eq_of_sameDn he ha ?_
    rw [hdn]
    exact server.sameDn_self _
  rcases List.mem_append.mp (mem_of_lookup hm') with hmem | hmem
  · obtain ⟨⟨oid, cu⟩, hcu, heq⟩ := List.mem_map.mp hmem
    rw [husers] at hcu
    obtain ⟨e, he, hown⟩ := List.mem_filterMap.mp hcu
    obtain ⟨_, identity, rfl⟩ := ownUser_ok hown
    obtain ⟨hdn, rfl⟩ := Prod.mk.inj heq
    rw [← hmine e (List.mem_of_mem_filter he) hdn]
    rfl
  · obtain ⟨⟨oid, cg⟩, hcg, heq⟩ := List.mem_map.mp hmem
    rw [hgroups] at hcg
    obtain ⟨e, he, hown⟩ := List.mem_filterMap.mp hcg
    obtain ⟨_, identity, members, rfl⟩ := ownGroup_ok hown
    obtain ⟨hdn, rfl⟩ := Prod.mk.inj heq
    rw [← hmine e (List.mem_of_mem_filter he) hdn]
    rfl

omit [UnicodeTables] in
/-- Objects of an orderly directory that are owned as one are one. -/
theorem eq_of_meant (hr : Orderly d r) {a e : Entry} (ha : a ∈ r.entries) (he : e ∈ r.entries)
    {who : Meant} (hmeant : meantBy d.source a = some who)
    (hmeant' : meantBy d.source e = some who) : e = a := by
  by_contra hne
  have hsymm : Std.Symm fun a a' : Entry => ∀ who, meantBy d.source a = some who →
      ∀ who', meantBy d.source a' = some who' → who ≠ who' := by
    constructor
    intro x y hxy who hy who' hx heq
    exact hxy who' hx who hy heq.symm
  exact (List.pairwise_filterMap.mp hr.single).forall he ha hne who hmeant' who hmeant rfl

/-- A group that carries the marker is read as one that does. -/
theorem carrier_read (hr : Orderly d r) (h : readRealm d c r = .ok current) {a : Entry}
    (ha : a ∈ r.entries) {oid : Subject} (hmeant : meantBy d.source a = some ⟨.group, oid⟩)
    {role : String} (hrole : role ∈ a.attrs "extensionName") :
    oid ∈ carriers current role ∧ ∃ cg, lookup current.groups oid = some cg ∧ cg.dn = a.dn := by
  have hsome : meantBy d.source a ≠ none := by simp [hmeant]
  have howned : (⟨.group, oid⟩ : Meant) ∈ owned d.source r.entries :=
    List.mem_filterMap.mpr ⟨a, ha, hmeant⟩
  rcases owned_read hr.toPlaced h howned with ⟨hkind, _⟩ | ⟨_, hfound⟩
  · cases hkind
  · obtain ⟨cg, hcg⟩ := Option.ne_none_iff_exists'.mp hfound
    obtain ⟨e, he, hmeant', identity, members, rfl⟩ := group_read h hcg
    have hea : e = a := eq_of_meant hr ha he hmeant hmeant'
    subst hea
    refine ⟨?_, _, hcg, rfl⟩
    refine List.mem_map.mpr ⟨_, List.mem_filter.mpr ⟨mem_of_lookup hcg, ?_⟩, rfl⟩
    exact List.contains_iff_mem.mpr hrole

/-- A group that is read as a carrier is one of the source's. -/
theorem carriers_owned (h : readRealm d c r = .ok current) {role : String} {oid : Subject}
    (hoid : oid ∈ carriers current role) : (⟨.group, oid⟩ : Meant) ∈ owned d.source r.entries := by
  obtain ⟨⟨oid', cg⟩, hmem, rfl⟩ := List.mem_map.mp hoid
  obtain ⟨entries, rfl, _, hgroups⟩ := readRealm_ok h
  have hgroup := List.mem_of_mem_filter hmem
  rw [hgroups] at hgroup
  obtain ⟨e, he, hown⟩ := List.mem_filterMap.mp hgroup
  exact List.mem_filterMap.mpr ⟨e, List.mem_of_mem_filter he, (ownGroup_ok hown).1⟩

/-- The clears of the stale admission markers. -/
def clears (c : Cycle) (d : Deployment server) (current : Current) : List Planned :=
  clearOps current roleAdmission (staleCarriers current (planCtx d c))

/-- After the clears of the stale admission markers the admission group alone may carry
one. -/
theorem clears_done (hr : Orderly d r) (h : readRealm d c r = .ok current)
    (hself : server.equal "extensionName" (utf8 roleAdmission.toList) roleAdmission = true)
    {s : Realm server}
    (hmade : ((((clears c d current).map Planned.op).map (requests (markerIndex current))).flatMap
      sent).foldlM (fun s q => make d.naming d.idpOu q s) r = .ok s) :
    ∀ o ∈ s.entries, Carries d.source roleAdmission o = true →
      meantBy d.source o = some ⟨.group, c.admission⟩ ∧
        c.admission ∈ carriers current roleAdmission := by
  have hform : ∀ q ∈ (((clears c d current).map Planned.op).map
      (requests (markerIndex current))).flatMap sent,
      ∃ dn vs, q = .modify dn (.delete "extensionName" vs) := by
    intro q hq
    obtain ⟨t, ht, hq⟩ := List.mem_flatMap.mp hq
    rw [List.map_map] at ht
    obtain ⟨e, he, rfl⟩ := List.mem_map.mp ht
    obtain ⟨dn, heq⟩ := clearOps_still e he
    rw [Function.comp_apply, heq] at hq
    unfold requests at hq
    dsimp only at hq
    split at hq
    · cases hq
    · exact ⟨_, _, List.mem_singleton.mp hq⟩
  intro o ho hcarries
  obtain ⟨⟨oid, hmeant⟩, hrole⟩ := carries_iff.mp hcarries
  rcases (strips_done (d := d) hself hform hmade).origin ho with ⟨a, ha, hsame, _, hkept⟩ | hfalse
  · obtain ⟨hstart, hunaddressed⟩ := hkept hrole
    rw [hsame] at hmeant
    obtain ⟨hcarrier, cg, hcg, hdn⟩ := carrier_read hr h ha hmeant hstart
    have hadmission : oid = c.admission := by
      by_contra hne
      have hstale : oid ∈ staleCarriers current (planCtx d c) :=
        List.mem_filter.mpr ⟨hcarrier, decide_eq_true hne⟩
      have hclear : (⟨⟨.group, oid⟩, .clearMarker a.dn roleAdmission⟩ : Planned) ∈
          clears c d current :=
        List.mem_filterMap.mpr ⟨oid, hstale, by rw [hcg, ← hdn]; rfl⟩
      have hfound : roleAdmission ∈ toDelete (markerIndex current) a.dn roleAdmission := by
        unfold toDelete
        rw [lookup_markers hr.toPlaced h ha (by simp [hmeant])]
        refine List.mem_dedup.mpr (List.mem_filter.mpr ⟨hstart, ?_⟩)
        decide
      have hsent : Request.modify a.dn (.delete "extensionName"
          (toDelete (markerIndex current) a.dn roleAdmission)) ∈
          (((clears c d current).map Planned.op).map (requests (markerIndex current))).flatMap
            sent := by
        refine List.mem_flatMap.mpr
          ⟨_, List.mem_map.mpr ⟨_, List.mem_map.mpr ⟨_, hclear, rfl⟩, rfl⟩, ?_⟩
        unfold requests
        dsimp only
        rw [if_neg (List.ne_nil_of_mem hfound)]
        exact List.mem_singleton.mpr rfl
      have hbad := hunaddressed _ _ hsent hfound
      rw [server.sameDn_self] at hbad
      cases hbad
    rw [hsame, hmeant, hadmission]
    exact ⟨rfl, hadmission ▸ hcarrier⟩
  · exact hfalse.elim

end Clears

section Parts

variable {source : Source} {role : String} {naming : Naming server} {idpOu : String}
  {markers : List (String × List String)}

/-- A plan in two parts: the moments of the first, then those of the second from where the
first ends, and the outcomes of both. -/
theorem applying_append (ops ops' : List Op) (fates : ℕ → ℕ → Fate String) (r : Realm server) :
    let first := applying naming idpOu markers ops fates r
    let second := applying naming idpOu markers ops' (fun n => fates (n + ops.length))
      (lastOf r first.moments)
    applying naming idpOu markers (ops ++ ops') fates r =
      ⟨first.moments ++ second.moments, first.outcomes ++ second.outcomes⟩ := by
  unfold applying
  dsimp only
  rw [List.map_append, batch_append, List.length_map]

variable (source role) in
/-- Through a part of a plan there are no more carriers than before it and marks in it. -/
theorem part_carried {planned : List Planned} {loses gains : String → Prop} {made : Entry → Prop}
    (hfits : ∀ x ∈ steps markers planned, RequestFits server loses gains made x.2)
    (fates : ℕ → ℕ → Fate String) (s : Realm server) :
    ∀ m ∈ momentsOf naming idpOu markers (planned.map Planned.op) fates s,
      carried source role m.entries ≤
        carried source role s.entries + (planned.filterMap (marks role)).length := by
  intro m hm
  have hstart : carried source role s.entries ≤ carried source role s.entries + gained role [] :=
    Nat.le_add_right _ _
  obtain ⟨done, hdone, hm⟩ := moments_after (carried_advances hfits s) fates hstart m hm
  have hmore : gained role done ≤ gained role (steps markers planned) := hdone.sublist.countP_le
  have hmarks := gained_le role markers planned
  omega

end Parts

section Cycles

variable [UnicodeTables] {d : Deployment server} {c : Cycle} {r : Realm server} {current : Current}
  {p : Planning}

/-- Whether a cycle took the admission marker off the groups that should not carry it: the
clears its plan begins with were carried out and answered. -/
def Cleared (d : Deployment server) (c : Cycle) (r : Realm server) : Prop :=
  ∀ current plan, readRealm d c r = .ok current →
    planSync c.desired current (planCtx d c) = .ok plan →
      ∀ outcome ∈ (applying d.naming d.idpOu (markerIndex current) plan.ops c.fates r).outcomes.take
        (clears c d current).length, outcome = none

omit [UnicodeTables] in
/-- Of the objects that are owned as one, an orderly directory has one at most. -/
theorem carried_one {role : String} (hr : Orderly d r) {who : Meant}
    (hwho : ∀ o ∈ r.entries, Carries d.source role o = true → meantBy d.source o = some who) :
    carried d.source role r.entries ≤ 1 := by
  have hcount : carried d.source role r.entries ≤ (owned d.source r.entries).count who := by
    unfold carried owned List.count
    rw [List.countP_filterMap]
    refine List.countP_mono_left fun o ho hcarries => ?_
    rw [hwho o ho hcarries]
    simp
  exact hcount.trans (List.nodup_iff_count_le_one.mp hr.single who)

/-- Once the clears are carried out, the carriers and the marks of the plan are one at most. -/
theorem settled_clears
    (hself : server.equal "extensionName" (utf8 roleAdmission.toList) roleAdmission = true)
    (hr : Orderly d r) (h : Carried d c r current p) {s : Realm server} (hs : Orderly d s)
    (hmade : ((((clears c d current).map Planned.op).map (requests (markerIndex current))).flatMap
      sent).foldlM (fun s q => make d.naming d.idpOu q s) r = .ok s) :
    carried d.source roleAdmission s.entries +
      (p.planned.filterMap (marks roleAdmission)).length ≤ 1 := by
  have hsole := clears_done hr h.read hself hmade
  by_cases hadmission : c.admission ∈ carriers current roleAdmission
  · rw [marks_settled h.planning hadmission]
    exact carried_one hs fun o ho hcarries => (hsole o ho hcarries).1
  · have hzero : carried d.source roleAdmission s.entries = 0 :=
      List.countP_eq_zero.mpr fun o ho hcarries => hadmission (hsole o ho hcarries).2
    have hmarks := marks_length h.planning
    omega

/-- At no moment of a plan whose clears were carried out do more groups carry the admission
marker than at its start, or than one; and where it did anything, one does at its end, at
most. -/
theorem applied_sole
    (hself : server.equal "extensionName" (utf8 roleAdmission.toList) roleAdmission = true)
    (hr : Orderly d r) (h : Carried d c r current p)
    (horderly : ∀ m ∈ momentsOf d.naming d.idpOu (markerIndex current) (p.planned.map Planned.op)
      c.fates r, Orderly d m)
    (hcleared : ∀ outcome ∈ (applying d.naming d.idpOu (markerIndex current)
      (p.planned.map Planned.op) c.fates r).outcomes.take (clears c d current).length,
      outcome = none) :
    (∀ m ∈ momentsOf d.naming d.idpOu (markerIndex current) (p.planned.map Planned.op) c.fates r,
      carried d.source roleAdmission m.entries ≤
        max 1 (carried d.source roleAdmission r.entries)) ∧
    (p.planned ≠ [] → carried d.source roleAdmission (lastOf r (applying d.naming d.idpOu
      (markerIndex current) (p.planned.map Planned.op) c.fates r).moments).entries ≤ 1) := by
  have hfits : ∀ x ∈ steps (markerIndex current) p.planned, RequestFits server (OwnValue server)
      OwnMark (MadeBy (p.planned.map Planned.op)) x.2 := fun x hx => (h.step hx).2.2
  rcases planning_shape h.planning with hnone | ⟨sc, rest, _, _, hplanned⟩
  · refine ⟨?_, fun hsome => absurd hnone hsome⟩
    intro m hm
    rw [hnone] at hm
    rw [List.mem_singleton.mp hm]
    exact Nat.le_max_right _ _
  · -- First the clears, after which the admission group alone may carry the marker.
    have hsplit : steps (markerIndex current) p.planned =
        steps (markerIndex current) (clears c d current) ++ steps (markerIndex current) rest := by
      unfold steps clears
      rw [hplanned, List.map_append, List.flatten_append]
    rw [hsplit] at hfits
    obtain ⟨hfirst, hrest⟩ := List.forall_mem_append.mp hfits
    have hops : p.planned.map Planned.op =
        (clears c d current).map Planned.op ++ rest.map Planned.op := by
      rw [hplanned, List.map_append]
      rfl
    have hnomarks : (clears c d current).filterMap (marks roleAdmission) = [] :=
      marks_none clearOps_marks
    have hsame : p.planned.filterMap (marks roleAdmission) = rest.filterMap (marks roleAdmission) := by
      rw [hplanned, List.filterMap_append]
      exact (congrArg (· ++ _) hnomarks).trans (List.nil_append _)
    unfold momentsOf at horderly ⊢
    rw [hops, applying_append] at horderly hcleared ⊢
    dsimp only at horderly hcleared ⊢
    generalize hrun : applying d.naming d.idpOu (markerIndex current)
      ((clears c d current).map Planned.op) c.fates r = run at horderly hcleared ⊢
    have hlength : run.outcomes.length = (clears c d current).length := by
      rw [← hrun]
      unfold applying
      rw [batch_outcomes_length, List.length_map, List.length_map]
    rw [← hlength, List.take_left] at hcleared
    have hcarried : ∀ m ∈ r :: run.moments,
        carried d.source roleAdmission m.entries ≤ carried d.source roleAdmission r.entries := by
      intro m hm
      have hpart := part_carried d.source roleAdmission hfirst c.fates r m
        (by unfold momentsOf; rw [hrun]; exact hm)
      rwa [hnomarks] at hpart
    have hmid : Orderly d (lastOf r run.moments) := by
      refine horderly _ ?_
      rcases List.mem_cons.mp (lastOf_mem r run.moments) with hm | hm
      · rw [hm]
        exact List.mem_cons_self
      · exact List.mem_cons_of_mem _ (List.mem_append_left _ hm)
    have hmade : ((((clears c d current).map Planned.op).map (requests (markerIndex current))).flatMap
        sent).foldlM (fun s q => make d.naming d.idpOu q s) r = .ok (lastOf r run.moments) := by
      rw [← hrun] at hcleared ⊢
      exact batch_done hcleared
    have hback := settled_clears hself hr h hmid hmade
    rw [hsame] at hback
    have hafter : ∀ fates, ∀ m ∈ momentsOf d.naming d.idpOu (markerIndex current)
        (rest.map Planned.op) fates (lastOf r run.moments),
        carried d.source roleAdmission m.entries ≤ 1 := fun fates m hm =>
      (part_carried d.source roleAdmission hrest fates _ m hm).trans hback
    refine ⟨?_, fun _ => ?_⟩
    · intro m hm
      rcases List.mem_cons.mp hm with rfl | hm
      · exact Nat.le_max_right _ _
      · rcases List.mem_append.mp hm with hm | hm
        · exact (hcarried m (List.mem_cons_of_mem _ hm)).trans (Nat.le_max_right _ _)
        · exact (hafter _ m (List.mem_cons_of_mem _ hm)).trans (Nat.le_max_left _ _)
    · rw [lastOf_append]
      exact hafter _ _ (lastOf_mem _ _)

/-- At no moment of a cycle whose clears were carried out do more groups carry the admission
marker than at its start, or than one. -/
theorem cycle_sole (rules : Rules d)
    (hself : server.equal "extensionName" (utf8 roleAdmission.toList) roleAdmission = true)
    (hr : Orderly d r) (hcleared : Cleared d c r) : ∀ m ∈ cycleMoments d c r,
      carried d.source roleAdmission m.entries ≤ max 1 (carried d.source roleAdmission r.entries) := by
  have horderly := cycle_orderly rules hr c
  rcases cycleMoments_cases d c r with hsame | ⟨current, plan, hread, hplan, hmoments⟩
  · rw [hsame]
    exact List.forall_mem_singleton.mpr (Nat.le_max_right _ _)
  · have houtcomes := hcleared current plan hread hplan
    obtain ⟨p, hp, rfl⟩ := map_ok_iff.mp hplan
    rw [hmoments] at horderly ⊢
    exact (applied_sole hself hr ⟨hread, hp⟩ horderly houtcomes).1

/-- A cycle that has no plan has applied none. -/
theorem planned_unapplied (plan : Plan) (report : ApplyReport) :
    planned d c r ≠ .error (.applied plan report) := by
  unfold planned
  cases hread : readRealm d c r with
  | error why =>
    intro h
    cases h
  | ok current =>
    change ((planSync c.desired current (planCtx d c)).mapError Conclusion.stopped >>= _) ≠ _
    cases hplan : planSync c.desired current (planCtx d c) with
    | error why =>
      intro h
      cases h
    | ok plan' =>
      intro h
      cases h

/-- A cycle that did anything, and took the marker off the groups that should not carry it,
leaves one group with it at most, however many carried it before. -/
theorem cycle_heals (rules : Rules d)
    (hself : server.equal "extensionName" (utf8 roleAdmission.toList) roleAdmission = true)
    (hr : Orderly d r) (hcleared : Cleared d c r) {r' : Realm server} {plan : Plan}
    {report : ApplyReport} (h : reconcile d c r = (r', .applied plan report))
    (hops : plan.ops ≠ []) : carried d.source roleAdmission r'.entries ≤ 1 := by
  have horderly := cycle_orderly rules hr c
  unfold reconcile at h
  unfold cycleMoments at horderly
  cases hmade : planned d c r with
  | error conclusion =>
    rw [hmade] at h
    cases h
    exact absurd hmade (planned_unapplied _ _)
  | ok made =>
    obtain ⟨plan', markers⟩ := made
    obtain ⟨current, hread, hplan, rfl⟩ := planned_ok hmade
    rw [hmade] at h horderly
    dsimp only at h horderly
    by_cases hdry : d.dryRun = true
    · rw [if_pos hdry] at h
      cases h
    · rw [if_neg hdry] at h horderly
      have houtcomes := hcleared current plan' hread hplan
      obtain ⟨p, hp, rfl⟩ := map_ok_iff.mp hplan
      cases h
      refine (applied_sole hself hr ⟨hread, hp⟩ horderly houtcomes).2 ?_
      intro hnone
      refine hops ?_
      change p.planned.map Planned.op = []
      rw [hnone]
      rfl

/-- What a run asks of every event: others leave the source's objects in place and put the
admission marker on none, and every cycle gets its clears through. -/
structure Attended (d : Deployment server) (r : Realm server) (event : Event server) : Prop where
  undisturbed : Undisturbed d r event
  unmarked : ∀ r', event = .outside r' →
    carried d.source roleAdmission r'.entries ≤ carried d.source roleAdmission r.entries
  cleared : ∀ c, event = .cycle c → Cleared d c r

/-- In every run in which every cycle gets its clears through, whatever becomes of its other
requests, and others put the admission marker on nothing, no moment has more groups with
the marker than the start has, or than one. -/
theorem run_sole {d : Deployment server} (rules : Rules d)
    (hself : server.equal "extensionName" (utf8 roleAdmission.toList) roleAdmission = true)
    {r : Realm server} (hr : Orderly d r) {events : List (Event server)}
    (h : Everywhere (next d) (Attended d) r events) :
    Everywhere (next d) (fun s event => ∀ m ∈ moments d s event,
      carried d.source roleAdmission m.entries ≤ max 1 (carried d.source roleAdmission r.entries))
      r events := by
  have hstep : ∀ s event, (Orderly d s ∧ carried d.source roleAdmission s.entries ≤
      max 1 (carried d.source roleAdmission r.entries)) → Attended d s event →
      (∀ m ∈ moments d s event, carried d.source roleAdmission m.entries ≤
        max 1 (carried d.source roleAdmission r.entries)) ∧
      (Orderly d (next d s event) ∧ carried d.source roleAdmission (next d s event).entries ≤
        max 1 (carried d.source roleAdmission r.entries)) := by
    intro s event ⟨hs, hbound⟩ hattended
    have hnext := (event_orderly rules s event hs hattended.undisturbed).2
    cases event with
    | cycle c =>
      have hmoments : ∀ m ∈ cycleMoments d c s, carried d.source roleAdmission m.entries ≤
          max 1 (carried d.source roleAdmission r.entries) := fun m hm =>
        (cycle_sole rules hself hs (hattended.cleared c rfl) m hm).trans
          (Nat.max_le.mpr ⟨Nat.le_max_left _ _, hbound⟩)
      exact ⟨hmoments, hnext, hmoments _ (reconcile_last d c s)⟩
    | outside s' =>
      have hfewer := (hattended.unmarked s' rfl).trans hbound
      exact ⟨List.forall_mem_singleton.mpr hfewer, hnext, hfewer⟩
  exact (everywhere_of_invariant hstep ⟨hr, Nat.le_max_right _ _⟩ h).1

end Cycles

/-- A cycle of the sample finds no stale marker. -/
theorem unitCycle_cleared : @Cleared unitServer asciiTables unitDeployment unitCycle unitRealm := by
  intro current plan hread _
  have hnone : staleCarriers current (@planCtx asciiTables unitServer unitDeployment unitCycle) =
      [] := by
    refine List.filter_eq_nil_iff.mpr fun oid hoid => ?_
    have howned := @carriers_owned unitServer asciiTables unitDeployment unitCycle unitRealm current
      hread roleAdmission oid hoid
    change _ ∈ owned sampleOwner unitRealm.entries at howned
    rw [unitRealm_owned] at howned
    have hadmission : oid = sampleAdmission := by simpa using howned
    rw [hadmission]
    exact fun h => of_decide_eq_true h rfl
  unfold clears
  rw [hnone]
  intro outcome houtcome
  cases houtcome

/-- A cycle of the sample, after others left its directory as it is. -/
noncomputable def attendedRun : List (@Event asciiTables unitServer) :=
  let _ := asciiTables
  [.outside unitRealm, .cycle unitCycle]

/-- The cycle of the sample gets its clears through. -/
theorem attendedRun_attended : Everywhere (@next unitServer asciiTables unitDeployment)
    (@Attended unitServer asciiTables unitDeployment) unitRealm attendedRun := by
  let _ := asciiTables
  refine ⟨⟨?_, ?_, ?_⟩, ⟨?_, ?_, ?_⟩, trivial⟩
  · intro r' h
    cases h
    exact ⟨unitRealm_orderly.toPlaced, fun _ => Nat.le_refl _⟩
  · intro r' h
    cases h
    exact Nat.le_refl _
  · intro c h
    cases h
  · intro r' h
    cases h
  · intro r' h
    cases h
  · intro c h
    cases h
    exact unitCycle_cleared

/-- The cycle of the sample, with an answer lost, leaves its group the one that carries the
marker. -/
theorem run_sole_sample : Everywhere (@next unitServer asciiTables unitDeployment)
    (fun s event => ∀ m ∈ @moments unitServer asciiTables unitDeployment s event,
      carried unitDeployment.source roleAdmission m.entries ≤
        max 1 (carried unitDeployment.source roleAdmission unitRealm.entries))
    unitRealm attendedRun :=
  @run_sole unitServer asciiTables unitDeployment unitRules
    (by simp [unitServer, BrokerDirectory.plainServer]) unitRealm unitRealm_orderly attendedRun
    attendedRun_attended

end Kerbridge.SoleCarrier

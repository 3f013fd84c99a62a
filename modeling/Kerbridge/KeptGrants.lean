import Kerbridge.PlanOrder
import Kerbridge.SyncRuns

/-!
# Device grants outlive a cycle

The grants of an account are taken off by one operation, which addresses the account by the
name it was read under. At every moment of a cycle an object is followed from where it stood
at the start; it answers to that name until the plan moves it, and a plan moves an account
that leaves only after that operation. So no other object loses a grant to it.
-/

namespace Kerbridge.KeptGrants

open UnicodeText DirectorySource LdapFilter RealmDirectory RealmChanges RealmState Attempts Planner
  PlanApply Succession ApplyFrame ApplySteps SyncCycle SyncRuns Fallible Runs

variable {server : Server}

section Following

variable {naming : Naming server} {idpOu : String} {markers : List (String × List String)}
  {planned : List Planned} {r : Realm server}
  {R : List (Planned × Request) → Entry → Entry → Prop}

/-- What is said of every object as it was and as it is may be said again after one more
request, when it still holds of an object that nothing happened to and after the request. -/
theorem succeeds_advances
    (hskip : ∀ pre x a b, x ∈ steps markers planned → R pre a b → R (pre ++ [x]) a b)
    (hstep : ∀ pre x post, steps markers planned = pre ++ x :: post → ∀ s : Realm server,
      Succeeds (R pre) (fun _ => True) r.entries s.entries → ∀ a b c, b ∈ s.entries → R pre a b →
        After naming x.2 b c → R (pre ++ [x]) a c) :
    Advances (service naming idpOu) Prod.snd (steps markers planned)
      (fun pre s => Succeeds (R pre) (fun _ => True) r.entries s.entries) := by
  intro pre x post hall s hs
  have hx : x ∈ steps markers planned := by simp [hall]
  have hkept : ∀ a b, R pre a b → R (pre ++ [x]) a b := fun a b => hskip pre x a b hx
  refine ⟨hs.mono hkept fun _ h => h, ?_⟩
  intro s' hmake
  rcases make_after hmake with ⟨dn, attrs, _, _, hs'⟩ | ⟨f, hs', hafter⟩
  · have hconcat : Succeeds Eq (fun _ => True) s.entries s'.entries := by
      rw [hs']
      exact succeeds_concat (fun _ => rfl) trivial
    refine hs.trans hconcat ?_ (fun _ _ _ _ => trivial) fun _ _ => trivial
    rintro a b _ hab rfl
    exact hkept a b hab
  · have hmap : Succeeds (fun b c => b ∈ s.entries ∧ After naming x.2 b c) (fun _ => True) s.entries
        s'.entries := by
      rw [hs']
      exact succeeds_map fun o ho => ⟨ho, hafter o ho⟩
    refine hs.trans hmap ?_ (fun _ _ _ _ => trivial) fun _ _ => trivial
    rintro a b c hab ⟨hb, hbc⟩
    exact hstep pre x post hall s hs a b c hb hab hbc

end Following

/-- Whether some of the requests renamed what stood under a name. -/
def Moved (server : Server) (pre : List (Planned × Request)) (dn : String) : Prop :=
  ∃ x ∈ pre, ∃ addressed rdn, x.2 = .modifyDn addressed rdn ∧ server.sameDn dn addressed = true

/-- An object followed through some of the requests of a plan: it is what it was, and stands
under its name unless one of them renamed what stood there. -/
structure Tracked (d : Deployment server) (pre : List (Planned × Request)) (e e' : Entry) :
    Prop where
  meant : meantBy d.source e' = meantBy d.source e
  unmoved : e'.dn = e.dn ∨ Moved server pre e.dn

variable {d : Deployment server} {pre : List (Planned × Request)} {x : Planned × Request}

/-- More requests may have renamed more. -/
theorem Moved.more {dn : String} (h : Moved server pre dn) : Moved server (pre ++ [x]) dn := by
  obtain ⟨y, hy, h⟩ := h
  exact ⟨y, List.mem_append_left _ hy, h⟩

/-- An object followed through some requests is followed through one more. -/
theorem Tracked.more {e e' : Entry} (h : Tracked d pre e e') : Tracked d (pre ++ [x]) e e' :=
  ⟨h.meant, h.unmoved.imp_right Moved.more⟩

/-- An object followed up to a request is followed through it. -/
theorem Tracked.after {loses gains : String → Prop} {made : Entry → Prop} {a b c : Entry}
    (h : Tracked d pre a b) (hafter : After d.naming x.2 b c)
    (hfits : RequestFits server loses gains made x.2) : Tracked d (pre ++ [x]) a c := by
  refine ⟨(after_meant hafter hfits).1.trans h.meant, ?_⟩
  rcases h.unmoved with hdn | hmoved
  · rcases hafter.named with hsame | ⟨addressed, rdn, hq, haddress, _⟩
    · exact Or.inl (hsame.trans hdn)
    · exact Or.inr ⟨x, by simp, addressed, rdn, hq, hdn ▸ haddress⟩
  · exact Or.inr hmoved.more

section Keeping

variable [UnicodeTables] {c : Cycle} {r : Realm server} {current : Current} {p : Planning}

/-- An operation on an account that leaves meets the account itself: it addresses it by the
name it was read under, and nothing has moved it yet. -/
theorem leaver_met (hr : Orderly d r) (h : Carried d c r current p)
    {markers : List (String × List String)} {post : List (Planned × Request)}
    (hall : steps markers p.planned = pre ++ x :: post) {oid : Subject}
    (habout : x.1.about = ⟨.user, oid⟩) (hgone : oid ∉ c.desired.users) (hstill : x.1.op.move = none) :
    ∃ e ∈ r.entries, meantBy d.source e = some ⟨.user, oid⟩ ∧ x.1.op.dn = e.dn ∧
      ¬ Moved server pre e.dn := by
  obtain ⟨before, after, qs, qs', hplanned, hsent, hpre⟩ := steps_split hall
  obtain ⟨sc, cu, hcu, _, hdn, hbefore⟩ :=
    leaver_unmoved h.planning (users_once hr h.read) hplanned habout hgone
  obtain ⟨e, he, hmeant, identity, rfl⟩ := user_read h.read hcu
  refine ⟨e, he, hmeant, hdn, ?_⟩
  rintro ⟨y, hy, addressed, rdn, hq, hsame⟩
  have hmem : y ∈ steps markers p.planned := by
    rw [hall]
    exact List.mem_append_left _ hy
  obtain ⟨⟨rs, hrs, hrq⟩, haddressed, _⟩ := h.step hmem
  obtain ⟨cn, shown, sam, upn, hop⟩ := (requests_mem hrs hrq).2 addressed rdn hq
  have hmoves : y.1.op.move ≠ none := by simp [hop, Op.move]
  obtain ⟨o, ho, hmeant', hdn'⟩ := moves_owned h.read (haddressed.of_rename hmoves)
  rw [hop] at hdn'
  have hoe : e = o := r.eq_of_sameDn he ho (by rw [← hdn']; exact hsame)
  have habout' : y.1.about = ⟨.user, oid⟩ := by
    rw [← hoe, hmeant] at hmeant'
    exact (Option.some.inj hmeant').symm
  rw [hpre] at hy
  rcases List.mem_append.mp hy with hy | hy
  · exact hmoves (hbefore y.1 (mem_steps hy).1 habout')
  · obtain ⟨q, _, rfl⟩ := List.mem_map.mp hy
    exact hmoves hstill

omit [UnicodeTables] in
/-- What answers to the name of an account that leaves is the account. -/
theorem leaver_is {R : Entry → Entry → Prop} {s : Realm server}
    (hs : Succeeds R (fun _ => True) r.entries s.entries)
    (hR : ∀ a b, R a b → Tracked d pre a b) {e : Entry} (he : e ∈ r.entries)
    (hunmoved : ¬ Moved server pre e.dn) {o : Entry} (ho : o ∈ s.entries)
    (hsame : server.sameDn o.dn e.dn = true) : meantBy d.source o = meantBy d.source e := by
  obtain ⟨o', ho', hR'⟩ := hs.successor he
  have htracked := hR e o' hR'
  have hdn := htracked.unmoved.resolve_right hunmoved
  rw [s.eq_of_sameDn ho ho' (by rw [hdn]; exact hsame)]
  exact htracked.meant

/-- Grants are taken off accounts alone that are not desired. -/
theorem grantClear_about (h : planning c.desired current (planCtx d c) = .ok p) {e : Planned}
    (he : e ∈ p.planned) {dn : String} (hop : e.op = .clearMarker dn DeviceGrants.grantPrefix) :
    ∃ oid, e.about = ⟨.user, oid⟩ ∧ oid ∉ c.desired.users := by
  revert dn
  revert e
  have hroles : roleAdmission ≠ DeviceGrants.grantPrefix ∧ roleDeviceGrant ≠ DeviceGrants.grantPrefix ∧
      stRetired ≠ DeviceGrants.grantPrefix ∧ stQuar ≠ DeviceGrants.grantPrefix := by decide
  have hclear : ∀ {role : String} {oids : List Subject}, role ≠ DeviceGrants.grantPrefix →
      ∀ e ∈ clearOps current role oids, ∀ {dn}, e.op = .clearMarker dn DeviceGrants.grantPrefix →
        ∃ oid, e.about = ⟨.user, oid⟩ ∧ oid ∉ c.desired.users := by
    intro role oids hrole e he dn hop
    obtain ⟨dn', heq⟩ := clearOps_still e he
    rw [heq, Op.clearMarker.injEq] at hop
    exact absurd hop.2 hrole
  refine planned_all h (hclear hroles.1) ?_
  intro sc t es hshape e he dn hop
  cases hshape with
  | idle => cases he
  | create =>
    rw [List.mem_singleton.mp he] at hop
    cases hop
  | live _ _ hops =>
    obtain ⟨op, hmem, rfl⟩ := List.mem_map.mp he
    obtain rfl : op = .clearMarker dn DeviceGrants.grantPrefix := hop
    generalize hpre : DeviceGrants.grantPrefix = pre at hmem
    cases hops _ hmem with
    | back => exact absurd hpre.symm hroles.2.2.1
  | leave hgone _ _ _ =>
    obtain ⟨op, _, rfl⟩ := List.mem_map.mp he
    exact ⟨_, rfl, hgone⟩
  | createGroup =>
    rw [List.mem_singleton.mp he] at hop
    cases hop
  | liveGroup _ _ hops =>
    obtain ⟨op, hmem, rfl⟩ := List.mem_map.mp he
    obtain rfl : op = .clearMarker dn DeviceGrants.grantPrefix := hop
    rcases List.mem_append.mp hmem with hmem | hmem
    · generalize hpre : DeviceGrants.grantPrefix = pre at hmem
      cases hops _ hmem with
      | back => exact absurd hpre.symm hroles.2.2.2
    · rcases admissionOps_cases _ _ _ with hnil | ⟨_, _, hone⟩
      · rw [hnil] at hmem
        cases hmem
      · rw [hone] at hmem
        simp at hmem
  | leaveGroup _ _ _ hops =>
    obtain ⟨op, hmem, rfl⟩ := List.mem_map.mp he
    obtain rfl : op = .clearMarker dn DeviceGrants.grantPrefix := hop
    rcases List.mem_append.mp hmem with hmem | hmem
    · unfold emptyOps at hmem
      split at hmem
      · cases hmem
      · simp at hmem
    · rcases hops with ⟨_, rfl⟩ | ⟨cn, sam, rfl⟩
      · cases hmem
      · simp at hmem
  | grant dn' _ =>
    rcases List.mem_append.mp he with he | he
    · exact hclear hroles.2.1 e he hop
    · rw [grantOps_still e he] at hop
      cases hop
  | member gdn hops =>
    obtain ⟨op, hmem, rfl⟩ := List.mem_map.mp he
    obtain rfl : op = .clearMarker dn DeviceGrants.grantPrefix := hop
    obtain ⟨m, hop | hop⟩ := hops _ hmem
    · cases hop
    · cases hop

/-- A text the directory takes for a marker of the synchroniser that is no grant. -/
def OtherMark (server : Server) (v : String) : Prop :=
  ∃ pre ∈ ownPrefixes, pre ≠ DeviceGrants.grantPrefix ∧ ∃ w, startsWith w pre = true ∧
    server.equal "extensionName" (utf8 w.toList) v = true

/-- An account of the source that is not desired. -/
def Leaves (d : Deployment server) (desired : Desired) (e : Entry) : Prop :=
  ∃ oid, meantBy d.source e = some ⟨.user, oid⟩ ∧ oid ∉ desired.users

/-- What an object keeps of its markers: all that are none of the synchroniser's, and its
grants unless it is an account that leaves. -/
def Keeps (d : Deployment server) (desired : Desired) (e e' : Entry) : Prop :=
  ∀ v ∈ e.attrs "extensionName",
    v ∈ e'.attrs "extensionName" ∨ OtherMark server v ∨ Leaves d desired e

/-- An object followed through some of the requests of a plan has kept what it keeps. -/
theorem keeps_advances (hr : Orderly d r) (h : Carried d c r current p)
    (markers : List (String × List String)) :
    Advances (service d.naming d.idpOu) Prod.snd (steps markers p.planned) (fun pre s =>
      Succeeds (fun e e' => Tracked d pre e e' ∧ Keeps d c.desired e e') (fun _ => True) r.entries
        s.entries) := by
  refine succeeds_advances (fun _ _ _ _ _ hab => ⟨hab.1.more, hab.2⟩) ?_
  intro pre x post hall s hs a b b' hb hab hafter
  obtain ⟨htracked, hkeeps⟩ := hab
  have hx : x ∈ steps markers p.planned := by simp [hall]
  obtain ⟨⟨rs, hrs, hmem⟩, _, hfits⟩ := h.step hx
  have hplanned := (mem_steps hx).1
  refine ⟨htracked.after hafter hfits, ?_⟩
  intro v hv
  rcases hkeeps v hv with hv | hrest
  · rcases hafter.valued "extensionName" extensionName_no_link with hsame | ⟨dn, ch, hq, hattr, haddress, hvs⟩
    · exact Or.inl (hsame ▸ hv)
    · -- The one request that takes markers off is that of a clear, of the markers it found.
      have hsettable : ch.attr ∉ settableAttrs := by
        rw [hattr]
        decide
      obtain ⟨hch, rfl⟩ := modify_mem hrs (hq ▸ hmem) hsettable
      rcases change_marker hch hattr with ⟨w, rfl⟩ | ⟨clear, hop, rfl⟩
      · rw [(values_add hvs).2]
        exact Or.inl (List.mem_append_left _ hv)
      · rw [(values_delete hvs).2]
        by_cases hgone : (toDelete markers x.1.op.dn clear).any
            (fun w => server.equal "extensionName" (utf8 w.toList) v) = true
        · refine Or.inr ?_
          obtain ⟨w, hw, hequal⟩ := List.any_eq_true.mp hgone
          unfold toDelete at hw
          have hstarts := (List.mem_filter.mp (List.mem_dedup.mp hw)).2
          have hown := planned_own h.planning x.1 hplanned
          rw [hop] at hown
          by_cases hgrant : clear = DeviceGrants.grantPrefix
          · rw [hgrant] at hop
            obtain ⟨oid, habout, hleaves⟩ := grantClear_about h.planning hplanned hop
            obtain ⟨e, he, hmeant, hdn, hunmoved⟩ := leaver_met hr h hall habout hleaves
              (by rw [hop]; rfl)
            have hmet := leaver_is hs (fun _ _ hR => hR.1) he hunmoved hb (hdn ▸ haddress)
            exact Or.inr ⟨oid, by rw [← htracked.meant, hmet, hmeant], hleaves⟩
          · exact Or.inl ⟨clear, hown, hgrant, w, hstarts, hequal⟩
        · exact Or.inl (List.mem_filter.mpr ⟨hv, by simpa using hgone⟩)
  · exact Or.inr hrest

/-- At every moment of a cycle that starts in order, every object has kept what it keeps. -/
theorem cycle_keeps (hr : Orderly d r) (c : Cycle) : ∀ m ∈ cycleMoments d c r,
    Succeeds (Keeps d c.desired) (fun _ => True) r.entries m.entries := by
  rcases cycleMoments_cases d c r with hsame | ⟨current, plan, hread, hplan, hmoments⟩
  · rw [hsame]
    exact List.forall_mem_singleton.mpr (succeeds_refl (fun _ _ hv => Or.inl hv) _)
  · obtain ⟨p, hp, rfl⟩ := map_ok_iff.mp hplan
    rw [hmoments]
    intro m hm
    have hstart : Succeeds (fun e e' => Tracked d [] e e' ∧ Keeps d c.desired e e') (fun _ => True)
        r.entries r.entries :=
      succeeds_refl (fun _ => ⟨⟨rfl, Or.inl rfl⟩, fun _ hv => Or.inl hv⟩) _
    obtain ⟨done, _, hm⟩ := moments_after (keeps_advances hr ⟨hread, hp⟩ _) c.fates hstart m hm
    exact hm.mono (fun _ _ h => h.2) fun _ h => h

/-- In every run of cycles and of what others do in between, whatever becomes of the
requests, a cycle takes a device grant off no object but an account of the source that is
not desired in that cycle, and no marker off any object that is none of the
synchroniser's own. -/
theorem run_keeps_grants {d : Deployment server} (rules : Rules d) {r : Realm server} (hr : Orderly d r)
    {events : List (Event server)} (h : Everywhere (next d) (Undisturbed d) r events) :
    Everywhere (next d) (fun r event => ∀ c, event = .cycle c → ∀ m ∈ cycleMoments d c r,
      Succeeds (Keeps d c.desired) (fun _ => True) r.entries m.entries) r events := by
  refine (everywhere_of_invariant ?_ hr h).1
  intro r event hr hundisturbed
  refine ⟨?_, (event_orderly rules r event hr hundisturbed).2⟩
  rintro c rfl
  exact cycle_keeps hr c

end Keeping

/-- Neither cycle of the sample takes a grant off the account that stays. -/
theorem run_keeps_grants_sample : Everywhere (@next unitServer asciiTables unitDeployment)
    (fun r event => ∀ c, event = @Event.cycle asciiTables unitServer c →
      ∀ m ∈ @cycleMoments asciiTables unitServer unitDeployment c r,
        Succeeds (@Keeps unitServer asciiTables unitDeployment (@Cycle.desired asciiTables c))
          (fun _ => True) r.entries m.entries) unitRealm unitRun :=
  @run_keeps_grants unitServer asciiTables unitDeployment unitRules unitRealm unitRealm_orderly unitRun
    unitRun_undisturbed

end Kerbridge.KeptGrants

import Kerbridge.NameReading
import Kerbridge.SyncDirectory

/-!
# What a step of a plan may do

Every step of planning either refuses the cycle or lets the plan grow: by operations on the
unit, knowing of no place outside it. Only giving up a name may write a name that leaves
the unit, and it is accepted all the same.
-/

namespace Kerbridge.Planner

open Std (ExtTreeMap)
open UnicodeText DirectorySource SamName DistinguishedName RealmState StoredIdentity PlannerNames
  Fallible Runs

/-- Planning ends without a plan because the cycle is refused. -/
def Refusal (e : Stop) : Prop := ∃ why, e = .refused why

/-- What stands behind a common name's first letters is what a rename writes. -/
theorem writtenCn_dnIn {cn parent : String} (h : Unsplit cn.toList) :
    writtenCn (dnIn cn parent) = some cn := by
  have htext : (dnIn cn parent).toList = 'C' :: 'N' :: '=' :: (cn.toList ++ ',' :: parent.toList) := by
    simp [dnIn]
  have hplain : ∀ c ∈ cn.toList, (c != ',') = true := by
    intro c hc
    simpa using (h c hc).2
  have hbefore : (beforeFirst ',' (dnIn cn parent)).toList = 'C' :: 'N' :: '=' :: cn.toList := by
    unfold beforeFirst
    rw [htext, String.toList_ofList, List.takeWhile_cons_of_pos rfl, List.takeWhile_cons_of_pos rfl,
      List.takeWhile_cons_of_pos rfl, List.takeWhile_append_of_pos hplain]
    simp
  unfold writtenCn
  rw [hbefore]
  have hslice : sliceFrom 3 ('C' :: 'N' :: '=' :: cn.toList) = some cn.toList := by
    simp [sliceFrom, Char.utf8Size]
  rw [hslice]
  simp

/-- An entry a map is read at is an entry of the list it was made of. -/
theorem mem_of_lookup {α : Type} {entries : List (Subject × α)} {oid : Subject} {a : α}
    (h : lookup entries oid = some a) : (oid, a) ∈ entries := by
  unfold lookup at h
  obtain ⟨e, he, ha⟩ := Option.map_eq_some_iff.mp h
  have hkey : e.1 = oid := by simpa using List.find?_some he
  rw [← hkey, ← ha]
  exact List.mem_reverse.mp (List.mem_of_find?_eq_some he)

/-- A key of the list is a key of the map. -/
theorem lookup_isSome {α : Type} {entries : List (Subject × α)} {oid : Subject} {a : α}
    (h : (oid, a) ∈ entries) : ∃ b, lookup entries oid = some b := by
  rw [← Option.isSome_iff_exists]
  unfold lookup
  rw [Option.isSome_map, List.find?_isSome]
  exact ⟨(oid, a), List.mem_reverse.mpr h, by simp⟩

/-- A component with a suffix that splits nothing is one. -/
theorem suffixed_component {cn : String} {oid : Subject} (hcn : Component cn)
    (hoid : Unsplit (oid4 oid).toList) : Component (suffixed cn oid) :=
  ((hcn.append (unsplit_of_check rfl)).append hoid).append (unsplit_of_check rfl)

/-- The component an object moves to is one. -/
theorem chosenCn_component {own parent cn : String} {oid : Subject} {taken : List String}
    (hcn : Component cn) (hoid : Unsplit (oid4 oid).toList) :
    Component (chosenCn own parent cn oid taken) := by
  unfold chosenCn
  split
  · exact suffixed_component hcn hoid
  · exact hcn

/-- The component a new object gets is one. -/
theorem freshCn_component {cn parent : String} {oid : Subject} {taken : List String}
    (hcn : Component cn) (hoid : Unsplit (oid4 oid).toList) :
    Component (freshCn cn parent oid taken) := by
  unfold freshCn
  split
  · exact suffixed_component hcn hoid
  · exact hcn

/-- A group's common name is a component. -/
theorem groupNames_component {displayName suffix : String} {oid : Subject}
    (hoid : Unsplit (oid4 oid).toList) : Component (groupNames displayName oid suffix).1 := by
  unfold groupNames
  dsimp only
  cases hname : safeName displayName with
  | some text => exact safeName_component hname
  | none =>
    have hgroup : Component "group-" := ⟨unsplit_of_check rfl, 'g', by decide, by decide⟩
    exact hgroup.append hoid

variable [UnicodeTables]

/-- Every name an account offers is a component. -/
theorem offered_component (tables : LetterTables) {du : DesiredUser} {name : String}
    (h : name ∈ offered du) : Component name := by
  unfold offered at h
  split at h
  · rw [List.mem_singleton.mp h]
    exact fallback_component
  · obtain ⟨candidate, _, rfl⟩ := List.mem_map.mp h
    exact NameCandidate.component tables candidate

/-- An account's common name is a component. -/
theorem allocNames_component (tables : LetterTables) {du : DesiredUser} {oid : Subject}
    {samKeys : List String} {upnSuffix sam upn cn : String} (hoid : Unsplit (oid4 oid).toList)
    (h : allocNames du oid samKeys upnSuffix = .ok (sam, upn, cn)) : Component cn := by
  obtain ⟨_, hsam, _, hcn⟩ := allocNames_ok h
  rw [hcn]
  cases hshown : safeName du.displayName with
  | some text => exact safeName_component hshown
  | none =>
    change Component sam
    rcases hsam with hoffered | hsuffixed
    · exact offered_component tables hoffered
    · have hhead : Component ((offered du).headD fallback) := by
        cases hlist : offered du with
        | nil => exact fallback_component
        | cons name names =>
          have hname : name ∈ offered du := hlist ▸ List.mem_cons_self
          exact offered_component tables hname
      have hfirst : Unsplit (takeChars 15 ((offered du).headD fallback)).toList := by
        intro c hc
        unfold takeChars at hc
        rw [String.toList_ofList] at hc
        exact hhead.unsplit c (List.mem_of_mem_take hc)
      have hdash : Component "-" := ⟨unsplit_of_check rfl, '-', by decide, by decide⟩
      rw [hsuffixed]
      exact (hdash.prepend hfirst).append hoid

/-- An operation that renames leaves its object in the unit. -/
def Placed (ctx : PlanCtx) (op : Op) : Prop :=
  ∀ src target, op.move = some (src, target) → dnIsAtOrWithin target ctx.idpOu = true

/-- An operation that renames nothing leaves everything in place. -/
theorem placed_of_still {ctx : PlanCtx} {op : Op} (h : op.move = none) : Placed ctx op := by
  intro src target hmove
  rw [h] at hmove
  cases hmove

/-- A rename to a component under the same parent stays in the unit. -/
theorem placed_rename {ctx : PlanCtx} {dn newCn : String} {shown sam upn : Option String}
    (hcn : Component newCn) (hparent : dnIsAtOrWithin (parentOf dn) ctx.idpOu = true) :
    Placed ctx (.rename dn newCn shown sam upn) := by
  intro src target hmove
  cases hmove
  exact component_within hcn hparent

/-- A plan that addresses the unit alone, and knows of no place outside it. -/
structure Inside (ctx : PlanCtx) (p : Planning) : Prop where
  within : ∀ e ∈ p.planned, dnIsAtOrWithin e.op.dn ctx.idpOu = true
  located : ∀ (oid : Subject) (dn : String), p.dnOf[oid]? = some dn →
    dnIsAtOrWithin dn ctx.idpOu = true

/-- An operation on the unit is accepted, and keeps the plan there. -/
theorem Inside.add {ctx : PlanCtx} {p : Planning} (h : Inside ctx p) (about : Meant) (op : Op)
    (hdn : dnIsAtOrWithin op.dn ctx.idpOu = true) :
    Safe Refusal (Inside ctx) (p.add ctx about op) := by
  rw [add_of_within hdn]
  refine ⟨?_, h.located⟩
  intro e he
  rcases List.mem_append.mp he with he | he
  · exact h.within e he
  · rw [List.mem_singleton.mp he]
    exact hdn

/-- A plan inside the unit that grew by operations that leave everything there. -/
structure Grown (ctx : PlanCtx) (before : List Planned) (p : Planning) : Prop extends
    Inside ctx p where
  placed : ∃ es, p.planned = before ++ es ∧ ∀ e ∈ es, Placed ctx e.op

section Growth

variable {ctx : PlanCtx} {before : List Planned} {p : Planning}

/-- An operation on the unit is accepted, and the plan grows by it. -/
theorem Grown.add (h : Grown ctx before p) (about : Meant) (op : Op)
    (hdn : dnIsAtOrWithin op.dn ctx.idpOu = true) (hplaced : Placed ctx op) :
    Safe Refusal (Grown ctx before) (p.add ctx about op) := by
  rw [add_of_within hdn]
  obtain ⟨es, hes, hall⟩ := h.placed
  refine ⟨⟨?_, h.located⟩, es ++ [⟨about, op⟩], ?_, ?_⟩
  · intro e he
    rcases List.mem_append.mp he with he | he
    · exact h.within e he
    · rw [List.mem_singleton.mp he]
      exact hdn
  · rw [append_planned, hes, List.append_assoc]
  · intro e he
    rcases List.mem_append.mp he with he | he
    · exact hall e he
    · rw [List.mem_singleton.mp he]
      exact hplaced

/-- Several operations on the unit are accepted. -/
theorem Grown.addAll (h : Grown ctx before p) (about : Meant) {ops : List Op}
    (hops : ∀ op ∈ ops, dnIsAtOrWithin op.dn ctx.idpOu = true ∧ Placed ctx op) :
    Safe Refusal (Grown ctx before) (p.addAll ctx about ops) := by
  refine safe_foldlM h ?_
  intro p op hop hp
  exact hp.add about op (hops op hop).1 (hops op hop).2

/-- A step under a condition grows the plan when the step does. -/
theorem Grown.onlyIf (h : Grown ctx before p) {c : Bool} {step : Planning → Except Stop Planning}
    (hstep : c = true → Safe Refusal (Grown ctx before) (step p)) :
    Safe Refusal (Grown ctx before) (p.onlyIf c step) := by
  unfold Planning.onlyIf
  cases c with
  | true => exact hstep rfl
  | false => exact h

/-- A place in the unit is noted. -/
theorem Grown.locate (h : Grown ctx before p) {oid : Subject} {dn : String}
    (hdn : dnIsAtOrWithin dn ctx.idpOu = true) : Grown ctx before (p.locate oid dn) := by
  refine ⟨⟨h.within, ?_⟩, h.placed⟩
  intro oid' dn' hloc
  unfold Planning.locate at hloc
  rw [ExtTreeMap.getElem?_insert] at hloc
  split at hloc
  · cases hloc
    exact hdn
  · exact h.located oid' dn' hloc

/-- A plan with the same operations and places grew alike. -/
theorem Grown.same {p' : Planning} (h : Grown ctx before p) (hplanned : p'.planned = p.planned)
    (hdnOf : p'.dnOf = p.dnOf) : Grown ctx before p' := by
  refine ⟨⟨?_, ?_⟩, ?_⟩
  · rw [hplanned]
    exact h.within
  · rw [hdnOf]
    exact h.located
  · rw [hplanned]
    exact h.placed

/-- Taking a name, and handing out and freeing a login name, changes no operation. -/
theorem Grown.take (h : Grown ctx before p) (dn : String) : Grown ctx before (p.take dn) :=
  h.same rfl rfl

theorem Grown.hold (h : Grown ctx before p) (sam : String) : Grown ctx before (p.hold sam) :=
  h.same rfl rfl

theorem Grown.release (h : Grown ctx before p) (sam : String) :
    Grown ctx before (p.release sam) :=
  h.same rfl rfl

end Growth

/-- What one read of the unit gives: every object below it, under the subject of its
identity, and every account under a login name that is a component. -/
structure InUnit (current : Current) (ctx : PlanCtx) : Prop where
  unit : dnIsAtOrWithin ctx.idpOu ctx.idpOu = true
  users : ∀ e ∈ current.users, dnIsAtOrWithin e.2.dn ctx.idpOu = true ∧
    dnIsAtOrWithin (parentOf e.2.dn) ctx.idpOu = true ∧ Component e.2.sam ∧
    (ExternalIdentity.decode e.2.identity).toOption.map ExternalIdentity.subject = some e.1
  groups : ∀ e ∈ current.groups, dnIsAtOrWithin e.2.dn ctx.idpOu = true ∧
    dnIsAtOrWithin (parentOf e.2.dn) ctx.idpOu = true ∧
    (ExternalIdentity.decode e.2.identity).toOption.map ExternalIdentity.subject = some e.1

section Users

variable {s : Scene} {before : List Planned} {p : Planning} {oid : Subject} {du : DesiredUser}
  {cu : CurrentUser}

/-- Giving an account its names ends in a refusal at most. -/
theorem alloc_safe (tables : LetterTables) (hoid : Unsplit (oid4 oid).toList)
    (samKeys : List String) :
    Safe Refusal (fun names => Component names.2.2) (s.alloc du oid samKeys) := by
  unfold Scene.alloc
  cases h : allocNames du oid samKeys s.ctx.upnSuffix with
  | error why => exact ⟨why, rfl⟩
  | ok names => exact allocNames_component tables hoid h

/-- Creating an account grows the plan. -/
theorem createUser_safe (tables : LetterTables) (hoid : Unsplit (oid4 oid).toList)
    (hunit : dnIsAtOrWithin s.ctx.idpOu s.ctx.idpOu = true) (h : Grown s.ctx before p) :
    Safe Refusal (Grown s.ctx before) (createUser s p oid du) := by
  unfold createUser
  cases s.ctx.identity oid with
  | error why => exact h.same rfl rfl
  | ok identity =>
    refine (alloc_safe tables hoid _).bind ?_
    rintro ⟨sam, upn, cn⟩ hcn
    simp only [freshDn_eq]
    have hdn : dnIsAtOrWithin (dnIn (freshCn cn s.ctx.idpOu oid (p.hold sam).takenDns) s.ctx.idpOu)
        s.ctx.idpOu = true := component_within (freshCn_component hcn hoid) hunit
    have htaken : Grown s.ctx before { p.hold sam with
        takenDns := dnIn (freshCn cn s.ctx.idpOu oid (p.hold sam).takenDns) s.ctx.idpOu ::
          (p.hold sam).takenDns } := h.same rfl rfl
    exact (htaken.locate hdn).add _ _ hdn (placed_of_still rfl)

variable (hdn : dnIsAtOrWithin cu.dn s.ctx.idpOu = true)
  (hparent : dnIsAtOrWithin (parentOf cu.dn) s.ctx.idpOu = true)

include hdn hparent in
/-- Restoring an account grows the plan. -/
theorem reappearUser_safe (tables : LetterTables) (hoid : Unsplit (oid4 oid).toList)
    (h : Grown s.ctx before p) :
    Safe Refusal (fun r => Grown s.ctx before r.2) (reappearUser s p oid du cu) := by
  unfold reappearUser
  refine Safe.bind (h.add _ _ hdn (placed_of_still rfl)) ?_
  intro p₁ h₁
  refine Safe.bind (h₁.onlyIf fun _ => h₁.add _ _ hdn (placed_of_still rfl)) ?_
  intro p₂ h₂
  refine Safe.bind (alloc_safe tables hoid _) ?_
  rintro ⟨sam, upn, cn⟩ hcn
  have hchosen : Component (chosenCn cu.dn (parentOf cu.dn) cn oid p₂.takenDns) :=
    chosenCn_component hcn hoid
  change Safe _ _ (if sam ≠ cu.sam ∨ dnIn (chosenCn cu.dn (parentOf cu.dn) cn oid p₂.takenDns)
    (parentOf cu.dn) ≠ cu.dn then _ else _)
  split
  · have hheld := ((h₂.release cu.sam).hold sam).take
      (dnIn (chosenCn cu.dn (parentOf cu.dn) cn oid p₂.takenDns) (parentOf cu.dn))
    refine Safe.bind (hheld.add _ _ hdn (placed_rename hchosen hparent)) ?_
    intro p₃ h₃
    exact h₃.locate (component_within hchosen hparent)
  · exact (h₂.release cu.sam).hold sam

include hdn in
/-- Enabling or disabling an account grows the plan. -/
theorem followEnabled_safe (h : Grown s.ctx before p) :
    Safe Refusal (Grown s.ctx before) (followEnabled s p oid du cu) := by
  unfold followEnabled
  split
  · cases du.enabled with
    | true => exact h.add _ _ hdn (placed_of_still rfl)
    | false => exact h.add _ _ hdn (placed_of_still rfl)
  · exact h

include hdn in
/-- Giving an account its login name grows the plan. -/
theorem followSam_safe (tables : LetterTables) (hoid : Unsplit (oid4 oid).toList)
    (h : Grown s.ctx before p) :
    Safe Refusal (Grown s.ctx before) (followSam s p oid du cu) := by
  unfold followSam
  refine (alloc_safe tables hoid _).bind ?_
  rintro ⟨sam, upn, cn⟩ _
  dsimp only
  split
  · refine ((h.release cu.sam).hold sam).addAll _ ?_
    intro op hop
    simp only [List.mem_cons, List.not_mem_nil, or_false] at hop
    rcases hop with rfl | rfl
    · exact ⟨hdn, placed_of_still rfl⟩
    · exact ⟨hdn, placed_of_still rfl⟩
  · exact (h.release cu.sam).hold sam

include hdn hparent in
/-- Renaming an account for its display name grows the plan. -/
theorem followDisplayName_safe (hoid : Unsplit (oid4 oid).toList) (hsam : Component cu.sam)
    (h : Grown s.ctx before p) :
    Safe Refusal (Grown s.ctx before) (followDisplayName s p oid du cu) := by
  have hshown : Component (shownCn du cu) := by
    unfold shownCn
    cases hname : safeName du.displayName with
    | some text => exact safeName_component hname
    | none => exact hsam
  have hmove : ∀ {cn : String}, Component cn →
      Safe Refusal (Grown s.ctx before) (moveUser s p oid du cu cn) := by
    intro cn hcn
    unfold moveUser
    refine Safe.bind ((h.take (dnIn cn (parentOf cu.dn))).add _ _ hdn
      (placed_rename hcn hparent)) ?_
    intro p₁ h₁
    exact h₁.locate (component_within hcn hparent)
  have hkeep := h.add ⟨.user, oid⟩ (.setAttr cu.dn "displayName" du.displayName) hdn
    (placed_of_still rfl)
  unfold followDisplayName
  dsimp only
  split
  · exact hkeep
  · split
    · split
      · exact hkeep
      · exact hmove (suffixed_component hshown hoid)
    · exact hmove hshown

include hdn hparent in
/-- Bringing an account up to date grows the plan. -/
theorem existingUser_safe (tables : LetterTables) (hoid : Unsplit (oid4 oid).toList)
    (hsam : Component cu.sam) (h : Grown s.ctx before p) :
    Safe Refusal (Grown s.ctx before) (existingUser s p oid du cu) := by
  have hrestore : Safe Refusal (fun r => Grown s.ctx before r.2)
      (restoreUser s (p.locate oid cu.dn) oid du cu) := by
    unfold restoreUser
    split
    · exact reappearUser_safe hdn hparent tables hoid (h.locate hdn)
    · exact (followEnabled_safe hdn (h.locate hdn)).map fun _ h => h
  unfold existingUser
  refine hrestore.bind ?_
  rintro ⟨restored, p₁⟩ h₁
  refine (Grown.onlyIf h₁ fun _ => followSam_safe hdn tables hoid h₁).bind fun p₂ h₂ => ?_
  exact h₂.onlyIf fun _ => followDisplayName_safe hdn hparent hoid hsam h₂

end Users

/-- Giving up a name is accepted. -/
theorem releaseName_safe {s : Scene} {before : List Planned} {p : Planning} {about : Meant}
    {dn sam label : String} {setUpn : String → Option String}
    (hdn : dnIsAtOrWithin dn s.ctx.idpOu = true) (h : Grown s.ctx before p) :
    Safe Refusal (Inside s.ctx) (releaseName s p about dn sam label setUpn) := by
  unfold releaseName
  split
  · exact h.toInside
  · have htaken : Inside s.ctx { p with
        samKeys := (retiredNames dn sam label about.subject p.samKeys p.takenDns).samKeys
        takenDns := (retiredNames dn sam label about.subject p.samKeys p.takenDns).takenDns } :=
      ⟨h.within, h.located⟩
    exact htaken.add _ _ hdn

/-- Retiring an account is accepted. -/
theorem retireUser_safe {s : Scene} {before : List Planned} {p : Planning} {oid : Subject}
    {cu : CurrentUser} (hdn : dnIsAtOrWithin cu.dn s.ctx.idpOu = true)
    (h : Grown s.ctx before p) : Safe Refusal (Inside s.ctx) (retireUser s p oid cu) := by
  have hleave : ∀ op ∈ [Op.disableUser cu.dn, .setMarker cu.dn (stRetired ++ s.ctx.now)],
      dnIsAtOrWithin op.dn s.ctx.idpOu = true ∧ Placed s.ctx op := by
    intro op hop
    simp only [List.mem_cons, List.not_mem_nil, or_false] at hop
    rcases hop with rfl | rfl
    · exact ⟨hdn, placed_of_still rfl⟩
    · exact ⟨hdn, placed_of_still rfl⟩
  unfold retireUser
  refine Safe.bind (h.onlyIf fun _ => h.addAll _ hleave) ?_
  intro p₁ h₁
  refine Safe.bind (h₁.onlyIf fun _ => h₁.add _ _ hdn (placed_of_still rfl)) ?_
  intro p₂ h₂
  exact releaseName_safe hdn h₂

section Groups

variable {s : Scene} {before : List Planned} {p : Planning} {oid : Subject} {dg : DesiredGroup}
  {cg : CurrentGroup}

/-- Creating a group grows the plan. -/
theorem createGroup_safe (hoid : Unsplit (oid4 oid).toList)
    (hunit : dnIsAtOrWithin s.ctx.idpOu s.ctx.idpOu = true) (h : Grown s.ctx before p) :
    Safe Refusal (Grown s.ctx before) (createGroup s p oid dg) := by
  unfold createGroup
  cases s.ctx.identity oid with
  | error why => exact h.same rfl rfl
  | ok identity =>
    have hcn : Component (groupNames dg.displayName oid s.ctx.groupSuffix).1 :=
      groupNames_component hoid
    generalize groupNames dg.displayName oid s.ctx.groupSuffix = names at hcn ⊢
    obtain ⟨cn, sam⟩ := names
    have hdn : dnIsAtOrWithin (dnIn (freshCn cn s.ctx.idpOu oid p.takenDns) s.ctx.idpOu)
        s.ctx.idpOu = true := component_within (freshCn_component hcn hoid) hunit
    have hlocated : Grown s.ctx before ((p.take (dnIn (freshCn cn s.ctx.idpOu oid p.takenDns)
        s.ctx.idpOu)).locate oid (dnIn (freshCn cn s.ctx.idpOu oid p.takenDns) s.ctx.idpOu)) :=
      (h.take _).locate hdn
    simp only [freshDn_eq]
    have hcreate : ∀ {p' : Planning} (role : Option String), Grown s.ctx before p' →
        Safe Refusal (Grown s.ctx before) (p'.add s.ctx ⟨.group, oid⟩
          (.createGroup (dnIn (freshCn cn s.ctx.idpOu oid p.takenDns) s.ctx.idpOu) sam identity
            role)) := fun role h' => h'.add _ _ hdn (placed_of_still rfl)
    split
    · refine hcreate _ ?_
      cases s.unmarked with
      | true => exact hlocated.same rfl rfl
      | false => exact hlocated
    · exact hcreate none hlocated

variable (hdn : dnIsAtOrWithin cg.dn s.ctx.idpOu = true)
  (hparent : dnIsAtOrWithin (parentOf cg.dn) s.ctx.idpOu = true)

include hdn hparent in
/-- Renaming a group grows the plan. -/
theorem moveGroup_safe (hoid : Unsplit (oid4 oid).toList) (h : Grown s.ctx before p) :
    Safe Refusal (Grown s.ctx before) (moveGroup s p oid dg cg) := by
  have hcn : Component (groupNames dg.displayName oid s.ctx.groupSuffix).1 :=
    groupNames_component hoid
  unfold moveGroup
  generalize groupNames dg.displayName oid s.ctx.groupSuffix = names at hcn ⊢
  obtain ⟨cn, sam⟩ := names
  have hmoved : Component (movedCn p oid cg cn) := chosenCn_component hcn hoid
  have hchosen : (if dnIn cn (parentOf cg.dn) ≠ cg.dn ∧ dnIn cn (parentOf cg.dn) ∈ p.takenDns then
      dnIn (suffixed cn oid) (parentOf cg.dn) else dnIn cn (parentOf cg.dn)) =
        dnIn (movedCn p oid cg cn) (parentOf cg.dn) := by
    unfold movedCn chosenCn
    split
    · rfl
    · rfl
  have hplain : "CN=" ++ cn ++ "," ++ parentOf cg.dn = dnIn cn (parentOf cg.dn) := rfl
  simp only [hplain, dnIn_suffixed, hchosen]
  split
  · exact h
  · have hwritten : writtenCn (dnIn (movedCn p oid cg cn) (parentOf cg.dn)) =
        some (movedCn p oid cg cn) := writtenCn_dnIn hmoved.unsplit
    unfold writtenCn at hwritten
    cases hslice : sliceFrom 3
      (beforeFirst ',' (dnIn (movedCn p oid cg cn) (parentOf cg.dn))).toList with
    | none =>
      rw [hslice] at hwritten
      cases hwritten
    | some newCn =>
      rw [hslice] at hwritten
      have hrename := (h.take (dnIn (movedCn p oid cg cn) (parentOf cg.dn))).add ⟨.group, oid⟩
        (.rename cg.dn (movedCn p oid cg cn) none (some sam) none) hdn
        (placed_rename hmoved hparent)
      dsimp only
      rw [Option.some.inj hwritten]
      refine Safe.bind hrename ?_
      intro p₁ h₁
      exact h₁.locate (component_within hmoved hparent)

include hdn hparent in
/-- Bringing a group up to date grows the plan. -/
theorem existingGroup_safe (hoid : Unsplit (oid4 oid).toList) (h : Grown s.ctx before p) :
    Safe Refusal (Grown s.ctx before) (existingGroup s p oid dg cg) := by
  have h₀ : Grown s.ctx before (p.locate oid cg.dn) := h.locate hdn
  unfold existingGroup
  refine Safe.bind (h₀.onlyIf fun _ => h₀.add _ _ hdn (placed_of_still rfl)) ?_
  intro p₁ h₁
  refine Safe.bind (h₁.onlyIf fun _ => moveGroup_safe hdn hparent hoid h₁) ?_
  intro p₂ h₂
  have hmark := h₂.add ⟨.group, oid⟩ (.setRoleMarker cg.dn roleAdmission) hdn
    (placed_of_still rfl)
  exact h₂.onlyIf fun _ => hmark

include hdn in
/-- Quarantining a group is accepted. -/
theorem quarantineGroup_safe (h : Grown s.ctx before p) :
    Safe Refusal (Inside s.ctx) (quarantineGroup s p oid cg) := by
  have hempty : Safe Refusal (Grown s.ctx before) (emptyGroup s p oid cg) := by
    unfold emptyGroup
    dsimp only
    have hreported : Grown s.ctx before { p with conflicts := p.conflicts ++
        ((foreignMembers s cg).map fun m => "foreign member " ++ m ++ " in quarantined group " ++
          cg.dn ++ " - left in place, reported") } := h.same rfl rfl
    refine hreported.addAll _ ?_
    intro op hop
    simp only [List.mem_cons, List.not_mem_nil, or_false] at hop
    rcases hop with rfl | rfl
    · exact ⟨hdn, placed_of_still rfl⟩
    · exact ⟨hdn, placed_of_still rfl⟩
  unfold quarantineGroup
  refine Safe.bind (h.onlyIf fun _ => hempty) ?_
  intro p₁ h₁
  exact releaseName_safe hdn h₁

end Groups

/-- Taking a role marker off groups that are there grows the plan. -/
theorem clearRoles_safe {ctx : PlanCtx} {current : Current} {role : String}
    {before : List Planned} {p : Planning} {oids : List Subject} (hunit : InUnit current ctx)
    (hoids : ∀ oid ∈ oids, oid ∈ carriers current role) (h : Grown ctx before p) :
    Safe Refusal (Grown ctx before) (oids.foldlM (clearRole ctx current role) p) := by
  refine safe_foldlM h ?_
  intro p oid hoid hp
  obtain ⟨e, he, rfl⟩ := List.mem_map.mp (hoids oid hoid)
  obtain ⟨cg, hcg⟩ := lookup_isSome (List.mem_filter.mp he).1
  unfold clearRole
  rw [hcg]
  exact hp.add _ _ (hunit.groups _ (mem_of_lookup hcg)).1 (placed_of_still rfl)

/-- Moving the marker of the device-grant group grows the plan. -/
theorem grantPass_safe {s : Scene} {before : List Planned} {p : Planning}
    (hunit : InUnit s.current s.ctx) (h : Grown s.ctx before p) :
    Safe Refusal (Grown s.ctx before) (grantPass s p) := by
  unfold grantPass
  dsimp only
  cases s.ctx.grant with
  | none =>
    dsimp only
    split
    · exact h
    · exact h.same rfl rfl
  | some oid =>
    dsimp only
    split
    · exact h.same rfl rfl
    · cases hdn : p.dnOf[oid]? with
      | none => exact h
      | some dn =>
        refine Safe.bind (clearRoles_safe hunit ?_ h) ?_
        · intro oid' hoid'
          exact (List.mem_filter.mp hoid').1
        · intro p₁ h₁
          split
          · exact h₁
          · exact h₁.add _ _ (h.located oid dn hdn) (placed_of_still rfl)

/-- A membership turn grows the plan. -/
theorem memberTurn_safe {s : Scene} {moves before : List Planned} {p : Planning}
    {entry : Subject × List Subject} (h : Grown s.ctx before p) :
    Safe Refusal (Grown s.ctx before) (memberTurn s moves p entry) := by
  unfold memberTurn
  split
  · exact h
  · cases hdn : p.dnOf[entry.1]? with
    | none => exact h
    | some gdn =>
      have hgdn := h.located _ _ hdn
      dsimp only
      refine Safe.bind (h.addAll _ ?_) ?_
      · intro op hop
        obtain ⟨m, _, rfl⟩ := List.mem_map.mp hop
        exact ⟨hgdn, placed_of_still rfl⟩
      · intro p₁ h₁
        refine safe_foldlM h₁ ?_
        intro p₂ m _ h₂
        unfold dropMember
        split
        · exact h₂.same rfl rfl
        · split
          · exact h₂.add _ _ hgdn (placed_of_still rfl)
          · exact h₂.same rfl rfl

end Kerbridge.Planner
